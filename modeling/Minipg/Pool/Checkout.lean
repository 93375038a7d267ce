import Minipg.Pool.Stations

/-!
# Checkouts and accounts

The set `out` of a pool knows the connections that are checked out, and not by whom.  A caller
that releases twice is told apart from the next holder only if there is none yet; `releasesOnce`
excludes the repeated release that comes too late (`exclusive_checkout`).

The accounts of a pool are right if every connection it owns is in one place, and no more than
`max` are owned (`accounted`).  Two things can spoil them: an acquire times out while a
connection is opened for it, and the connection is checked out to nobody; and the probe opens a
connection although the pool is full again.  `keepsAccounts` excludes both.
-/

namespace Minipg

namespace Pool

variable {cfg : PoolConfig} {s : Pool}

/-! ### One holder -/

/-- No checkout is released a second time while its connection is checked out again. -/
def releasesOnce (s : Pool) : PoolEvent → Bool
  | .release a c => (a, c) ∈ s.checkouts || c ∉ s.out
  | _ => true

theorem start_exclusive : (({} : Pool).ledger []).Exclusive :=
  ⟨fun _ => Nat.zero_le _, fun _ h => absurd h (Nat.lt_irrefl 0)⟩

theorem step_exclusive {e : PoolEvent} (he : s.enabled cfg e = true)
    (hok : s.releasesOnce e = true) (h : (s.ledger []).Exclusive) :
    ((s.step cfg e).ledger []).Exclusive := by
  have hallows : Allows ⟨True, True, False⟩ cfg s e := by
    cases e with
    | release a c =>
      intro hc
      simpa [releasesOnce, hc] using hok
    | opened c o => cases o <;> first | trivial | exact .inr trivial
    | caught o e => cases o <;> first | trivial | exact fun _ => .inr trivial
    | probe p => exact fun _ => .inr trivial
    | _ => trivial
  have hmoves := step_moves (d := ⟨True, True, False⟩) (fun _ _ => .inr trivial) he hallows
  exact Ledger.Moves.exclusive (fun h => h) hmoves h

theorem reachable_exclusive (h : ReachableIf cfg (fun s e => s.releasesOnce e = true) s) :
    (s.ledger []).Exclusive := by
  refine Machine.Reach.invariant (I := fun s => (s.ledger []).Exclusive) ?_ ?_ h
  · rintro _ rfl
    exact start_exclusive
  · intro s e hs he hok
    exact step_exclusive he hok hs

/-- **No connection has two holders**, and none that is held is available. -/
theorem exclusive_checkout (h : ReachableIf cfg (fun s e => s.releasesOnce e = true) s) (c : ConnId) :
    (s.checkouts.map Prod.snd).count c ≤ 1 ∧ ∀ a, (a, c) ∈ s.checkouts → c ∉ s.idle := by
  have honce := (reachable_exclusive h).once c
  simp only [Ledger.stock] at honce
  constructor
  · show (s.ledger []).held.count c ≤ 1
    omega
  · intro a ha hidle
    have hheld : 0 < (s.ledger []).held.count c :=
      List.count_pos_iff.mpr (List.mem_map_of_mem (f := Prod.snd) ha)
    have hpos : 0 < (s.ledger []).idle.count c := List.count_pos_iff.mpr hidle
    omega

/-- A connection is checked out, released and checked out by another caller. -/
theorem exclusive_checkout_twoCallers :
    ((run {} [.acquire false, .opened 0 (.acquire 0), .release 0 0, .acquire false]).checkouts.map
      Prod.snd).count 0 ≤ 1 ∧
    ∀ a, (a, 0) ∈ (run {} [.acquire false, .opened 0 (.acquire 0), .release 0 0,
        .acquire false]).checkouts →
      0 ∉ (run {} [.acquire false, .opened 0 (.acquire 0), .release 0 0, .acquire false]).idle :=
  exclusive_checkout (reachable_run (by decide)) 0

/-- The first caller releases a second time, and the connection goes to a third caller while the
second one holds it. -/
theorem exclusive_checkout_fails :
    ¬∀ s, Reachable {} s → ∀ c, (s.checkouts.map Prod.snd).count c ≤ 1 := by
  intro h
  have hrun : Reachable {} (run {} [.acquire false, .opened 0 (.acquire 0), .release 0 0,
      .acquire false, .release 0 0, .acquire false]) := reachable_run (by decide)
  exact absurd (h _ hrun 0) (by decide)

/-! ### Accounts -/

/-- What the pool does with a connection that it owns. -/
inductive Whereabouts
  | connecting
  | idle
  | checkedOut
  | returning
  deriving DecidableEq

def isIn (s : Pool) (c : ConnId) : Whereabouts → Prop
  | .connecting => c ∈ s.opens.map Prod.fst
  | .idle => c ∈ s.idle
  | .checkedOut => c ∈ s.out ∧ ∃ a, (a, c) ∈ s.checkouts ∧ s.acquires a = .resolved c
  | .returning => c ∈ s.draining ∨ c ∈ s.rolling

/-- The open of a refill ends while its waiter waits, and the probe opens within the maximum. -/
def keepsAccounts (cfg : PoolConfig) (s : Pool) : PoolEvent → Bool
  | .opened _ (.refill w) => (s.acquires w).isWaiting
  | .caught (.refill w) _ => !cfg.rcEnabled || (s.acquires w).isWaiting
  | .probe _ => !(s.down && !s.closed) || s.all.length < cfg.max
  | _ => true

/-- What a run that keeps the accounts keeps. -/
structure Accounts (cfg : PoolConfig) (s : Pool) : Prop where
  stations : Stations s
  tidy : (s.ledger []).Tidy
  backed : (s.ledger []).Backed
  length : s.all.length ≤ cfg.max

theorem start_tidy : (({} : Pool).ledger []).Tidy :=
  ⟨fun _ => Nat.zero_le _, fun _ h => absurd h (Nat.lt_irrefl 0),
    fun _ h => absurd h (by simp [ledger]), List.nodup_nil⟩

/-- Whatever happens, no connection is in two places. -/
theorem step_tidy {e : PoolEvent} (he : s.enabled cfg e = true) (h : (s.ledger []).Tidy) :
    ((s.step cfg e).ledger []).Tidy := by
  have hallows : Allows ⟨True, True, True⟩ cfg s e := by
    cases e with
    | release => exact fun _ => .inr trivial
    | opened c o => cases o <;> first | trivial | exact .inr trivial
    | caught o e => cases o <;> first | trivial | exact fun _ => .inr trivial
    | probe p => exact fun _ => .inr trivial
    | _ => trivial
  have hmoves := step_moves (d := ⟨True, True, True⟩) (fun _ _ => .inr trivial) he hallows
  exact Ledger.Moves.tidy hmoves h

theorem start_accounts : Accounts cfg {} where
  stations := by
    refine ⟨fun a st => ?_, fun _ _ => rfl, fun a c h => absurd h (by simp)⟩
    cases st <;> exact Nat.zero_le _
  tidy := start_tidy
  backed := fun c hc => absurd hc (by simp [ledger])
  length := Nat.zero_le _

theorem Stations.waiting (t : Stations s) (d : Slips) : Awaiting d s := by
  intro w hw
  have hat : (s.acquires w).isAt .waiters = true := t.isAt (List.count_pos_iff.mpr hw)
  left
  cases hp : s.acquires w <;> rw [hp] at hat <;> first | rfl | exact absurd hat Bool.false_ne_true

theorem Accounts.step (t : Accounts cfg s) {e : PoolEvent} (he : s.enabled cfg e = true)
    (hok : s.keepsAccounts cfg e = true) : Accounts cfg (s.step cfg e) := by
  have hallows : Allows ⟨False, False, True⟩ cfg s e := by
    cases e with
    | release => exact fun _ => .inr trivial
    | opened c o => cases o <;> first | trivial | exact .inl hok
    | caught o e =>
      cases o with
      | refill w =>
        intro hrc
        simp only [keepsAccounts, hrc, Bool.not_true, Bool.false_or] at hok
        exact .inl hok
      | acquire | probe => trivial
    | probe p =>
      intro hlive
      simp only [keepsAccounts, hlive, Bool.not_true, Bool.false_or, decide_eq_true_eq] at hok
      exact .inl hok
    | _ => trivial
  have hmoves := step_moves (t.stations.waiting _) he hallows
  exact ⟨t.stations.step (fun h => h) he hallows, step_tidy he t.tidy,
    Ledger.Moves.backed (fun h => h) hmoves t.tidy t.backed,
    Ledger.Moves.length_le (fun h => h) hmoves t.length⟩

theorem reachable_accounts (h : ReachableIf cfg (fun s e => s.keepsAccounts cfg e = true) s) :
    Accounts cfg s := by
  refine Machine.Reach.invariant ?_ ?_ h
  · rintro _ rfl
    exact start_accounts
  · intro s e hs he hok
    exact hs.step he hok

/-- What is out is out for a caller whose acquire was resolved with it. -/
theorem Accounts.checkedOut (t : Accounts cfg s) {c : ConnId} (hc : c ∈ s.out) :
    ∃ a, (a, c) ∈ s.checkouts ∧ s.acquires a = .resolved c := by
  obtain ⟨⟨a, x⟩, hp, rfl⟩ := List.mem_map.mp (t.backed c hc)
  exact ⟨a, hp, t.stations.loans a x hp⟩

theorem Accounts.existsUnique (t : Accounts cfg s) {c : ConnId} (hc : c ∈ s.all) :
    ∃! w, s.isIn c w := by
  have hone := t.tidy.once c
  have hpos := t.tidy.owned c hc
  -- the count of each place
  have hopening : s.isIn c .connecting ↔ 0 < (s.ledger []).opening.count c :=
    List.count_pos_iff.symm
  have hidle : s.isIn c .idle ↔ 0 < (s.ledger []).idle.count c := List.count_pos_iff.symm
  have hout : s.isIn c .checkedOut ↔ 0 < (s.ledger []).out.count c :=
    ⟨fun h => List.count_pos_iff.mpr h.1,
      fun h => ⟨List.count_pos_iff.mp h, t.checkedOut (List.count_pos_iff.mp h)⟩⟩
  have hreturning : s.isIn c .returning ↔ 0 < (s.ledger []).returning.count c :=
    List.mem_append.symm.trans List.count_pos_iff.symm
  have hhand : (s.ledger []).hand.count c = 0 := rfl
  simp only [Ledger.stock, hhand] at hone hpos
  have hunique : ∀ v w, s.isIn c v → s.isIn c w → v = w := by
    intro v w hv hw
    cases v <;> cases w <;> simp only [hopening, hidle, hout, hreturning] at hv hw <;>
      first | rfl | (exfalso; omega)
  have hex : ∃ w, s.isIn c w := by
    by_contra hno
    have h1 : ¬0 < (s.ledger []).opening.count c := fun h => hno ⟨.connecting, hopening.mpr h⟩
    have h2 : ¬0 < (s.ledger []).idle.count c := fun h => hno ⟨.idle, hidle.mpr h⟩
    have h3 : ¬0 < (s.ledger []).out.count c := fun h => hno ⟨.checkedOut, hout.mpr h⟩
    have h4 : ¬0 < (s.ledger []).returning.count c := fun h => hno ⟨.returning, hreturning.mpr h⟩
    omega
  obtain ⟨w, hw⟩ := hex
  exact ⟨w, hw, fun v hv => hunique v w hv hw⟩

/-- **Every connection of the pool is in one place**, there are no more than `max`, and what is
checked out is checked out to a caller whose acquire was resolved with it. -/
theorem accounted (h : ReachableIf cfg (fun s e => s.keepsAccounts cfg e = true) s) :
    s.all.Nodup ∧ s.all.length ≤ cfg.max ∧ (∀ c ∈ s.all, ∃! w, s.isIn c w) ∧
      ∀ c ∈ s.out, ∃ a, (a, c) ∈ s.checkouts ∧ s.acquires a = .resolved c := by
  have t := reachable_accounts h
  exact ⟨t.tidy.nodup, t.length, fun c hc => t.existsUnique hc, fun c hc => t.checkedOut hc⟩

/-- A waiter gets the connection that was opened for it when the one before it died. -/
theorem accounted_refill :
    let s := run { max := 1 } [.acquire false, .opened 0 (.acquire 0), .acquire false, .died 0,
      .release 0 0, .opened 1 (.refill 1)]
    s.all.Nodup ∧ s.all.length ≤ 1 ∧ (∀ c ∈ s.all, ∃! w, s.isIn c w) ∧
      ∀ c ∈ s.out, ∃ a, (a, c) ∈ s.checkouts ∧ s.acquires a = .resolved c :=
  @accounted { max := 1 } _ (reachable_run (by decide))

/-- The waiter times out while its connection is opened, and the connection is checked out to
nobody; an acquire opens a connection before the failure of another one is noticed, and the
probe opens one more. -/
theorem accounted_fails :
    (¬∀ s, Reachable { max := 1 } s → ∀ c ∈ s.all, ∃ w, s.isIn c w) ∧
      ¬∀ s, Reachable { max := 1 } s → s.all.length ≤ 1 := by
  constructor
  · intro h
    have hrun : Reachable { max := 1 } (run { max := 1 } [.acquire false, .opened 0 (.acquire 0),
        .acquire false, .died 0, .release 0 0, .acquireTimeout 1, .opened 1 (.refill 1)]) :=
      reachable_run (by decide)
    obtain ⟨w, hw⟩ := h _ hrun 1 (by decide)
    cases w with
    | connecting => exact absurd (show 1 ∈ List.map _ _ from hw) (by decide)
    | idle => exact absurd (show 1 ∈ Pool.idle _ from hw) (by decide)
    | checkedOut =>
      obtain ⟨-, a, ha, -⟩ := hw
      have hheld : 1 ∈ List.map Prod.snd _ := List.mem_map_of_mem (f := Prod.snd) ha
      exact absurd hheld (by decide)
    | returning => exact absurd (show 1 ∈ draining _ ∨ 1 ∈ rolling _ from hw) (by decide)
  · intro h
    have hrun : Reachable { max := 1 } (run { max := 1 } [.acquire false,
        .openFailed 0 (.acquire 0) {}, .acquire false, .caught (.acquire 0) {}, .napDone 0,
        .probe 0]) :=
      reachable_run (by decide)
    exact absurd (h _ hrun) (by decide)

end Pool

end Minipg
