import Minipg.Pool.Custody

/-!
# Where the acquires of a pool are

An acquire that is not settled is listed in one place: among those that wait for recovery, among
the waiters, or with an `open()` that was started for it.  `Stations` says that nothing else is
listed there, and that the checkouts are those of resolved acquires.

It holds as long as no waiter times out while a connection is opened for it.  An operation takes
an acquire from its place first, and settles it or puts it into another place afterwards; in
between, the acquire is `Away`.
-/

namespace Minipg

/-- The lists that an acquire can be on. -/
inductive Station
  | recovered
  | waiters
  | opens
  | refills
  deriving DecidableEq

/-- An acquire that timed out stays the one that its refill was started for. -/
def AcquirePhase.isAt : AcquirePhase → Station → Bool
  | .recovering, .recovered => true
  | .parked, .waiters => true
  | .opening, .opens => true
  | .refilled, .refills => true
  | .rejected _, .refills => true
  | _, _ => false

theorem AcquirePhase.isAt_unique {ph : AcquirePhase} {st st' : Station} (h : ph.isAt st = true)
    (h' : ph.isAt st' = true) : st = st' := by
  cases ph <;> cases st <;> first | exact absurd h Bool.false_ne_true |
    (cases st' <;> first | rfl | exact absurd h' Bool.false_ne_true)

@[simp] theorem AcquirePhase.isAt_new (st : Station) : AcquirePhase.new.isAt st = false := by
  cases st <;> rfl

@[simp] theorem AcquirePhase.isAt_woken (st : Station) : AcquirePhase.woken.isAt st = false := by
  cases st <;> rfl

@[simp] theorem AcquirePhase.isAt_resolved (c : ConnId) (st : Station) :
    (AcquirePhase.resolved c).isAt st = false := by
  cases st <;> rfl

/-- The station of an opener. -/
def Opener.isFor : Opener → AcquireId → Station → Bool
  | .acquire a, b, st => a == b && st == .opens
  | .refill a, b, st => a == b && st == .refills
  | .probe _, _, _ => false

theorem Opener.isFor_acquire (a b : AcquireId) (st : Station) :
    (Opener.acquire a).isFor b st = true ↔ b = a ∧ st = .opens := by
  simp only [isFor, Bool.and_eq_true, beq_iff_eq]
  exact and_congr_left' eq_comm

theorem Opener.isFor_refill (a b : AcquireId) (st : Station) :
    (Opener.refill a).isFor b st = true ↔ b = a ∧ st = .refills := by
  simp only [isFor, Bool.and_eq_true, beq_iff_eq]
  exact and_congr_left' eq_comm

namespace Pool

/-- Who waits for an `open()`, pending or failed. -/
def openers (s : Pool) : List Opener := s.opens.map Prod.snd ++ s.catching.map Prod.fst

/-- How often an acquire is listed. -/
def listed (s : Pool) (a : AcquireId) : Station → Nat
  | .recovered => s.recovered.count a
  | .waiters => s.waiters.count a
  | .opens => s.openers.count (.acquire a)
  | .refills => s.openers.count (.refill a)

structure Stations (s : Pool) : Prop where
  listed : ∀ a st, s.listed a st ≤ if (s.acquires a).isAt st then 1 else 0
  fresh : ∀ a, s.nextAcquire ≤ a → s.acquires a = .new
  loans : ∀ a c, (a, c) ∈ s.checkouts → s.acquires a = .resolved c

/-- The acquire is in no place. -/
structure Away (s : Pool) (a : AcquireId) : Prop where
  listed : ∀ st, s.listed a st = 0
  loans : ∀ c, (a, c) ∉ s.checkouts
  known : a < s.nextAcquire

variable {cfg : PoolConfig} {s s' : Pool} {a w : AcquireId} {c : ConnId}

/-- What `Stations` reads, the phases apart. -/
structure SameLists (s s' : Pool) : Prop where
  recovered : s'.recovered = s.recovered
  waiters : s'.waiters = s.waiters
  openers : s'.openers.Perm s.openers
  checkouts : s'.checkouts = s.checkouts
  nextAcquire : s'.nextAcquire = s.nextAcquire

theorem SameLists.listed_eq (h : SameLists s s') (a : AcquireId) (st : Station) :
    s'.listed a st = s.listed a st := by
  cases st with
  | recovered => exact congrArg (List.count a) h.recovered
  | waiters => exact congrArg (List.count a) h.waiters
  | opens => exact h.openers.count_eq _
  | refills => exact h.openers.count_eq _

theorem SameLists.stations (h : SameLists s s') (hp : s'.acquires = s.acquires)
    (t : Stations s) : Stations s' := by
  refine ⟨fun a st => ?_, fun a ha => ?_, fun a c hc => ?_⟩
  · rw [h.listed_eq, hp]
    exact t.listed a st
  · rw [hp]
    exact t.fresh a (h.nextAcquire ▸ ha)
  · rw [hp]
    exact t.loans a c (h.checkouts ▸ hc)

theorem SameLists.away (h : SameLists s s') (t : Away s a) : Away s' a :=
  ⟨fun st => (h.listed_eq a st).trans (t.listed st), fun c hc => t.loans c (h.checkouts ▸ hc),
    h.nextAcquire ▸ t.known⟩

/-- A listed acquire has the phase of its station. -/
theorem Stations.isAt (t : Stations s) {st : Station} (h : 0 < s.listed a st) :
    (s.acquires a).isAt st = true := by
  have := t.listed a st
  by_contra hno
  rw [if_neg hno] at this
  omega

theorem Stations.known (t : Stations s) (h : s.acquires a ≠ .new) : a < s.nextAcquire :=
  Nat.lt_of_not_le fun ha => h (t.fresh a ha)

/-- An acquire whose phase has no station is away. -/
theorem Stations.away (t : Stations s) (hst : ∀ st, (s.acquires a).isAt st = false)
    (hc : ∀ c, s.acquires a ≠ .resolved c) (ha : a < s.nextAcquire) : Away s a := by
  refine ⟨fun st => ?_, fun c h => hc c (t.loans a c h), ha⟩
  have := t.listed a st
  rw [hst st, if_neg (by decide)] at this
  omega

/-- An acquire that was taken from its only station is away. -/
theorem Stations.taken (t : Stations s) {st₀ : Station} (hat : (s.acquires a).isAt st₀ = true)
    (hc : s'.checkouts = s.checkouts) (hn : s'.nextAcquire = s.nextAcquire)
    (hst : s'.listed a st₀ = 0) (hle : ∀ st, s'.listed a st ≤ s.listed a st) : Away s' a := by
  refine ⟨fun st => ?_, fun c h => ?_, ?_⟩
  · by_cases hs : st = st₀
    · exact hs ▸ hst
    · have hno : (s.acquires a).isAt st = false :=
        Bool.eq_false_iff.mpr fun h => hs (AcquirePhase.isAt_unique h hat)
      have h1 := t.listed a st
      have h2 := hle st
      rw [hno, if_neg (by decide)] at h1
      omega
  · have hr := t.loans a c (hc ▸ h)
    rw [hr, AcquirePhase.isAt_resolved] at hat
    exact absurd hat Bool.false_ne_true
  · rw [hn]
    refine t.known fun hnew => ?_
    rw [hnew, AcquirePhase.isAt_new] at hat
    exact absurd hat Bool.false_ne_true

/-- Lists that only get shorter. -/
theorem Stations.shorter (t : Stations s) (hp : s'.acquires = s.acquires)
    (hle : ∀ a st, s'.listed a st ≤ s.listed a st) (hc : s'.checkouts = s.checkouts)
    (hn : s'.nextAcquire = s.nextAcquire) : Stations s' := by
  refine ⟨fun a st => ?_, fun a ha => ?_, fun a c h => ?_⟩
  · rw [hp]
    exact (hle a st).trans (t.listed a st)
  · rw [hp]
    exact t.fresh a (hn ▸ ha)
  · rw [hp]
    exact t.loans a c (hc ▸ h)

/-- An acquire that is away may get any phase. -/
theorem Stations.setPhase (t : Stations s) (ha : Away s a) (ph : AcquirePhase) :
    Stations (s.setPhase a ph) := by
  refine ⟨fun b st => ?_, fun b hb => ?_, fun b c hc => ?_⟩
  · by_cases hba : b = a
    · subst hba
      exact (ha.listed st).le.trans (Nat.zero_le _)
    · show s.listed b st ≤ if (Function.update s.acquires a ph b).isAt st then 1 else 0
      rw [Function.update_of_ne hba]
      exact t.listed b st
  · have hba : b ≠ a := by
      rintro rfl
      exact Nat.not_le.mpr ha.known hb
    exact (Function.update_of_ne hba _ _).trans (t.fresh b hb)
  · have hba : b ≠ a := by
      rintro rfl
      exact ha.loans c hc
    exact (Function.update_of_ne hba _ _).trans (t.loans b c hc)

theorem Away.setPhase (ha : Away s a) (b : AcquireId) (ph : AcquirePhase) :
    Away (s.setPhase b ph) a := ⟨ha.listed, ha.loans, ha.known⟩

/-- An acquire that is away goes to a station, and gets its phase. -/
theorem Stations.join (t : Stations s) (ha : Away s a) {ph : AcquirePhase} {st₀ : Station}
    (hph : ph.isAt st₀ = true) (hp : s'.acquires = Function.update s.acquires a ph)
    (hc : s'.checkouts = s.checkouts) (hn : s'.nextAcquire = s.nextAcquire)
    (hl : ∀ b st, s'.listed b st = s.listed b st + if b = a ∧ st = st₀ then 1 else 0) :
    Stations s' := by
  refine ⟨fun b st => ?_, fun b hb => ?_, fun b c h => ?_⟩
  · rw [hl, hp]
    by_cases hba : b = a
    · subst hba
      rw [Function.update_self, ha.listed]
      by_cases hst : st = st₀
      · subst hst
        rw [hph]
        simp
      · simp [hst]
    · rw [Function.update_of_ne hba]
      simpa [hba] using t.listed b st
  · rw [hn] at hb
    have hba : b ≠ a := by
      rintro rfl
      exact Nat.not_le.mpr ha.known hb
    rw [hp, Function.update_of_ne hba]
    exact t.fresh b hb
  · rw [hc] at h
    have hba : b ≠ a := by
      rintro rfl
      exact ha.loans c h
    rw [hp, Function.update_of_ne hba]
    exact t.loans b c h

/-- An acquire that is away is resolved. -/
theorem Stations.resolve (t : Stations s) (ha : Away s a) (c : ConnId) :
    Stations (s.resolve a c) := by
  have hset := t.setPhase ha (.resolved c)
  refine ⟨hset.listed, hset.fresh, fun b x hb => ?_⟩
  rcases List.mem_append.mp hb with hb | hb
  · exact hset.loans b x hb
  · obtain ⟨rfl, rfl⟩ := Prod.mk.inj (List.mem_singleton.mp hb)
    exact Function.update_self ..

theorem Stations.resolveWaiter (t : Stations s) (hw : Away s w) (c : ConnId) :
    Stations (s.resolveWaiter w c) := by
  unfold Pool.resolveWaiter
  split
  · exact t.resolve hw c
  · exact t

theorem Stations.rejectWaiter (t : Stations s) (hw : Away s w) (e : PoolError) :
    Stations (rejectWaiter e s w) := by
  unfold Pool.rejectWaiter
  split
  · exact t.setPhase hw _
  · exact t

/-! ### What no acquire notices -/

/-- An operation that leaves every acquire in a place of its own. -/
structure Calm (s s' : Pool) : Prop where
  stations : Stations s → Stations s'
  away : ∀ a, Stations s → Away s a → Away s' a

theorem Calm.refl (s : Pool) : Calm s s := ⟨id, fun _ _ h => h⟩

theorem Calm.trans {s'' : Pool} (h : Calm s s') (g : Calm s' s'') : Calm s s'' :=
  ⟨fun t => g.stations (h.stations t), fun a t ha => g.away a (h.stations t) (h.away a t ha)⟩

theorem SameLists.calm (h : SameLists s s') (hp : s'.acquires = s.acquires) : Calm s s' :=
  ⟨h.stations hp, fun _ _ => h.away⟩

/-- Nothing that `Stations` reads is touched. -/
theorem calm_of_eq (hr : s'.recovered = s.recovered) (hw : s'.waiters = s.waiters)
    (ho : s'.opens = s.opens) (hca : s'.catching = s.catching) (hc : s'.checkouts = s.checkouts)
    (hn : s'.nextAcquire = s.nextAcquire) (hp : s'.acquires = s.acquires) : Calm s s' := by
  refine SameLists.calm ⟨hr, hw, ?_, hc, hn⟩ hp
  unfold openers
  rw [ho, hca]

theorem Stations.of_eq (t : Stations s) (hr : s'.recovered = s.recovered)
    (hw : s'.waiters = s.waiters) (ho : s'.opens = s.opens) (hca : s'.catching = s.catching)
    (hc : s'.checkouts = s.checkouts) (hn : s'.nextAcquire = s.nextAcquire)
    (hp : s'.acquires = s.acquires) : Stations s' :=
  (calm_of_eq hr hw ho hca hc hn hp).stations t

theorem setProbe_calm (s : Pool) (p : ProbeId) (ph : ProbePhase) : Calm s (s.setProbe p ph) :=
  calm_of_eq rfl rfl rfl rfl rfl rfl rfl

theorem endClient_calm (s : Pool) (c : ConnId) : Calm s (s.endClient c) :=
  calm_of_eq rfl rfl rfl rfl rfl rfl rfl

theorem armIdleTimer_calm (cfg : PoolConfig) (s : Pool) (c : ConnId) :
    Calm s (s.armIdleTimer cfg c) := by
  unfold armIdleTimer
  split <;> exact calm_of_eq rfl rfl rfl rfl rfl rfl rfl

theorem pushIdle_calm (cfg : PoolConfig) (s : Pool) (c : ConnId) : Calm s (s.pushIdle cfg c) := by
  have hidle : Calm s { s with idle := s.idle ++ [c] } := calm_of_eq rfl rfl rfl rfl rfl rfl rfl
  exact hidle.trans (armIdleTimer_calm cfg _ c)

theorem cancelProbeNap_calm (s : Pool) : Calm s s.cancelProbeNap := by
  unfold cancelProbeNap
  split <;> exact calm_of_eq rfl rfl rfl rfl rfl rfl rfl

theorem probeTop_calm (s : Pool) (p : ProbeId) : Calm s (s.probeTop p) := by
  unfold probeTop
  split <;> exact calm_of_eq rfl rfl rfl rfl rfl rfl rfl

/-- Acquires that are away get new phases, one after the other. -/
theorem foldl_calm {f : Pool → AcquireId → Pool}
    (hf : ∀ s a, f s a = s ∨ ∃ ph, f s a = s.setPhase a ph) (l : List AcquireId)
    (hl : ∀ a ∈ l, Away s a) (t : Stations s) :
    Stations (l.foldl f s) ∧ ∀ a, Away s a → Away (l.foldl f s) a := by
  induction l generalizing s with
  | nil => exact ⟨t, fun _ h => h⟩
  | cons a l ih =>
    have ha := hl a List.mem_cons_self
    have hkeep : ∀ b, Away s b → Away (f s a) b := by
      intro b hb
      rcases hf s a with h | ⟨ph, h⟩ <;> rw [h]
      · exact hb
      · exact hb.setPhase a ph
    have ht : Stations (f s a) := by
      rcases hf s a with h | ⟨ph, h⟩ <;> rw [h]
      · exact t
      · exact t.setPhase ha ph
    obtain ⟨h1, h2⟩ := ih (fun b hb => hkeep b (hl b (List.mem_cons_of_mem _ hb))) ht
    exact ⟨h1, fun b hb => h2 b (hkeep b hb)⟩

theorem onRecover_cases (s : Pool) (a : AcquireId) :
    s.onRecover a = s ∨ ∃ ph, s.onRecover a = s.setPhase a ph := by
  unfold onRecover
  split
  · exact .inr ⟨_, rfl⟩
  · split <;> exact .inr ⟨_, rfl⟩

theorem rejectWaiter_cases (e : PoolError) (s : Pool) (w : AcquireId) :
    rejectWaiter e s w = s ∨ ∃ ph, rejectWaiter e s w = s.setPhase w ph := by
  unfold rejectWaiter
  split
  · exact .inr ⟨_, rfl⟩
  · exact .inl rfl

theorem Away.of_le (ha : Away s a) (hl : ∀ st, s'.listed a st ≤ s.listed a st)
    (hc : s'.checkouts = s.checkouts) (hn : s'.nextAcquire = s.nextAcquire) : Away s' a :=
  ⟨fun st => Nat.le_zero.mp ((hl st).trans (ha.listed st).le), fun c h => ha.loans c (hc ▸ h),
    hn ▸ ha.known⟩

theorem wakeRecovered_calm (s : Pool) : Calm s s.wakeRecovered := by
  have hle : ∀ a st, ({ s with recovered := [] } : Pool).listed a st ≤ s.listed a st := by
    intro a st
    cases st with
    | recovered => exact Nat.zero_le _
    | waiters | opens | refills => exact le_rfl
  have hall : Stations s → ∀ a ∈ s.recovered, Away ({ s with recovered := [] } : Pool) a := by
    intro t a ha
    have hat : (s.acquires a).isAt .recovered = true := t.isAt (List.count_pos_iff.mpr ha)
    exact t.taken hat rfl rfl rfl (hle a)
  constructor
  · intro t
    exact (foldl_calm onRecover_cases _ (hall t) (t.shorter rfl hle rfl rfl)).1
  · intro a t ha
    exact (foldl_calm onRecover_cases _ (hall t) (t.shorter rfl hle rfl rfl)).2 a
      (ha.of_le (hle a) rfl rfl)

theorem failWaiters_calm (s : Pool) (e : PoolError) : Calm s (s.failWaiters e) := by
  have hle : ∀ a st, ({ s with waiters := [] } : Pool).listed a st ≤ s.listed a st := by
    intro a st
    cases st with
    | waiters => exact Nat.zero_le _
    | recovered | opens | refills => exact le_rfl
  have hall : Stations s → ∀ a ∈ s.waiters, Away ({ s with waiters := [] } : Pool) a := by
    intro t a ha
    have hat : (s.acquires a).isAt .waiters = true := t.isAt (List.count_pos_iff.mpr ha)
    exact t.taken hat rfl rfl rfl (hle a)
  constructor
  · intro t
    exact (foldl_calm (rejectWaiter_cases e) _ (hall t) (t.shorter rfl hle rfl rfl)).1
  · intro a t ha
    exact (foldl_calm (rejectWaiter_cases e) _ (hall t) (t.shorter rfl hle rfl rfl)).2 a
      (ha.of_le (hle a) rfl rfl)

theorem settleBreaker_calm (s : Pool) : Calm s s.settleBreaker := by
  have hdown : Calm s { s with down := false } := calm_of_eq rfl rfl rfl rfl rfl rfl rfl
  exact (hdown.trans (cancelProbeNap_calm _)).trans (wakeRecovered_calm _)

theorem trip_calm (cfg : PoolConfig) (s : Pool) (e : PoolError) : Calm s (s.trip cfg e) := by
  unfold trip
  split
  · have hbroken : Calm s { s with broken := some e } := calm_of_eq rfl rfl rfl rfl rfl rfl rfl
    exact hbroken.trans (settleBreaker_calm _)
  · split
    · exact .refl s
    · have hdown : Calm s { s with
          lastDownError := some e, lastProbeError := none, down := true
          nextProbe := s.nextProbe + 1 } := calm_of_eq rfl rfl rfl rfl rfl rfl rfl
      exact hdown.trans (probeTop_calm _ _)

/-! ### Acquires that wait for an open -/

theorem openFor_fields (cfg : PoolConfig) (s : Pool) (o : Opener) :
    (s.openFor cfg o).recovered = s.recovered ∧ (s.openFor cfg o).waiters = s.waiters ∧
      (s.openFor cfg o).openers.Perm (o :: s.openers) ∧
      (s.openFor cfg o).checkouts = s.checkouts ∧
      (s.openFor cfg o).nextAcquire = s.nextAcquire ∧
      (s.openFor cfg o).acquires = s.acquires := by
  unfold openFor
  split
  · refine ⟨rfl, rfl, ?_, rfl, rfl, rfl⟩
    simp only [openers, List.map_append, List.map_cons, List.map_nil, ← List.append_assoc]
    exact List.perm_append_singleton o _
  · refine ⟨rfl, rfl, ?_, rfl, rfl, rfl⟩
    simp only [openers, List.map_append, List.map_cons, List.map_nil, List.append_assoc]
    exact List.perm_middle

theorem listed_of_openers {o : Opener} (hr : s'.recovered = s.recovered)
    (hw : s'.waiters = s.waiters) (ho : s'.openers.Perm (o :: s.openers)) (b : AcquireId)
    (st : Station) : s'.listed b st = s.listed b st + if Opener.isFor o b st then 1 else 0 := by
  cases st with
  | recovered =>
    have hno : Opener.isFor o b .recovered = false := by cases o <;> simp [Opener.isFor]
    simp only [listed, hr, hno, Bool.false_eq_true, if_false, Nat.add_zero]
  | waiters =>
    have hno : Opener.isFor o b .waiters = false := by cases o <;> simp [Opener.isFor]
    simp only [listed, hw, hno, Bool.false_eq_true, if_false, Nat.add_zero]
  | opens =>
    simp only [listed, ho.count_eq, List.count_cons]
    cases o <;> simp [Opener.isFor]
  | refills =>
    simp only [listed, ho.count_eq, List.count_cons]
    cases o <;> simp [Opener.isFor]

theorem openFor_listed (cfg : PoolConfig) (s : Pool) (o : Opener) (b : AcquireId) (st : Station) :
    (s.openFor cfg o).listed b st = s.listed b st + if Opener.isFor o b st then 1 else 0 := by
  obtain ⟨hr, hw, ho, _⟩ := openFor_fields cfg s o
  exact listed_of_openers hr hw ho b st

theorem openFor_probe_calm (cfg : PoolConfig) (s : Pool) (p : ProbeId) :
    Calm s (s.openFor cfg (.probe p)) := by
  have hl := openFor_listed cfg s (.probe p)
  obtain ⟨_, _, _, hc, hn, hp⟩ := openFor_fields cfg s (.probe p)
  exact ⟨fun t => t.shorter hp (fun a st => (hl a st).le) hc hn,
    fun a _ ha => ha.of_le (fun st => (hl a st).le) hc hn⟩

/-- An acquire that is away starts an `open()`. -/
theorem Stations.openFor (t : Stations s) (ha : Away s a) (cfg : PoolConfig) {ph : AcquirePhase}
    {st₀ : Station} {o : Opener} (hph : ph.isAt st₀ = true)
    (ho : ∀ b st, o.isFor b st = true ↔ b = a ∧ st = st₀) :
    Stations ((s.setPhase a ph).openFor cfg o) := by
  obtain ⟨_, _, _, hc, hn, hp⟩ := openFor_fields cfg (s.setPhase a ph) o
  refine t.join ha hph hp hc hn fun b st => ?_
  rw [openFor_listed]
  simp only [ho]
  rfl

theorem Stations.waitForFree (t : Stations s) (ha : Away s a) : Stations (s.waitForFree a) := by
  refine t.join ha (show AcquirePhase.parked.isAt .waiters = true from rfl) rfl rfl rfl fun b st => ?_
  cases st with
  | waiters =>
    show (s.waiters ++ [a]).count b = s.waiters.count b + _
    rw [Ledger.count_snoc]
    exact congrArg _ (if_congr (by rw [and_iff_left rfl, eq_comm]) rfl rfl)
  | recovered | opens | refills =>
    rw [if_neg fun h => nomatch h.2]
    rfl

theorem takeIdle_calm (n : Nat) (s : Pool) : Calm s (takeIdle n s).1 := by
  induction n generalizing s with
  | zero => exact .refl s
  | succ n ih =>
    unfold takeIdle
    split
    · exact .refl s
    · rename_i c _
      dsimp only
      split
      · refine Calm.trans ?_ (ih _)
        exact calm_of_eq rfl rfl rfl rfl rfl rfl rfl
      · exact calm_of_eq rfl rfl rfl rfl rfl rfl rfl

theorem Stations.grab (t : Stations s) (ha : Away s a) (cfg : PoolConfig) :
    Stations (s.grab cfg a) := by
  have hcalm := takeIdle_calm s.idle.length s
  have ht := hcalm.stations t
  have haway := hcalm.away a t ha
  unfold Pool.grab
  split
  · rename_i s' c hr
    rw [hr] at ht haway
    exact ht.resolve haway c
  · rename_i s' hr
    rw [hr] at ht haway
    split
    · exact ht.openFor haway cfg (show AcquirePhase.opening.isAt .opens = true from rfl)
        (Opener.isFor_acquire a)
    · exact ht.waitForFree haway

theorem Stations.acquire (t : Stations s) (ha : Away s a) (cfg : PoolConfig) (isGuarded : Bool) :
    Stations (s.acquire cfg a isGuarded) := by
  unfold Pool.acquire
  split
  · exact t.setPhase ha _
  · split
    · exact t.setPhase ha _
    · split
      · exact t.setPhase ha _
      · split
        · have hat : AcquirePhase.recovering.isAt .recovered = true := rfl
          refine t.join ha hat rfl rfl rfl fun b st => ?_
          cases st with
          | recovered =>
            show (s.recovered ++ [a]).count b = s.recovered.count b + _
            rw [Ledger.count_snoc]
            exact congrArg _ (if_congr (by rw [and_iff_left rfl, eq_comm]) rfl rfl)
          | waiters | opens | refills =>
            rw [if_neg fun h => nomatch h.2]
            rfl
        · exact t.grab ha cfg

/-! ### Waiters that are shifted -/

theorem listed_pop {ws : List AcquireId} (h : s.waiters = w :: ws) (b : AcquireId) (st : Station) :
    s.listed b st = ({ s with waiters := ws } : Pool).listed b st +
      if w = b ∧ st = .waiters then 1 else 0 := by
  cases st with
  | waiters =>
    show s.waiters.count b = ws.count b + _
    rw [h, Ledger.count_cons_if]
    exact congrArg _ (if_congr (and_iff_left rfl).symm rfl rfl)
  | recovered | opens | refills =>
    rw [if_neg fun h => nomatch h.2]
    rfl

/-- The first waiter is taken from the line. -/
theorem Stations.pop (t : Stations s) {ws : List AcquireId} (h : s.waiters = w :: ws) :
    Stations { s with waiters := ws } ∧ Away { s with waiters := ws } w ∧
      s.acquires w = .parked := by
  have hle : ∀ b st, ({ s with waiters := ws } : Pool).listed b st ≤ s.listed b st := by
    intro b st
    rw [listed_pop h]
    exact Nat.le_add_right _ _
  have hat : (s.acquires w).isAt .waiters = true := by
    refine t.isAt ?_
    rw [listed_pop h, if_pos ⟨rfl, rfl⟩]
    exact Nat.succ_pos _
  have hzero : ({ s with waiters := ws } : Pool).listed w .waiters = 0 := by
    have h1 := t.listed w .waiters
    rw [if_pos hat, listed_pop h, if_pos ⟨rfl, rfl⟩] at h1
    omega
  refine ⟨t.shorter rfl hle rfl rfl, t.taken hat rfl rfl hzero (hle w), ?_⟩
  cases hp : s.acquires w <;> rw [hp] at hat <;> first | rfl | exact absurd hat Bool.false_ne_true

theorem Away.pop (ha : Away s a) {ws : List AcquireId} (h : s.waiters = w :: ws) :
    Away { s with waiters := ws } a ∧ a ≠ w := by
  constructor
  · refine ha.of_le (fun st => ?_) rfl rfl
    rw [listed_pop h]
    exact Nat.le_add_right _ _
  · rintro rfl
    have := ha.listed .waiters
    rw [listed_pop h, if_pos ⟨rfl, rfl⟩] at this
    omega

theorem Away.resolve (ha : Away s a) (hne : a ≠ w) (c : ConnId) : Away (s.resolve w c) a := by
  refine ⟨ha.listed, fun x hx => ?_, ha.known⟩
  rcases List.mem_append.mp hx with hx | hx
  · exact ha.loans x hx
  · exact hne (Prod.mk.inj (List.mem_singleton.mp hx)).1

theorem checkin_calm (cfg : PoolConfig) (s : Pool) (c : ConnId) : Calm s (s.checkin cfg c) := by
  unfold checkin
  split
  · exact (pushIdle_calm cfg s c).trans (settleBreaker_calm _)
  · split
    · exact pushIdle_calm cfg s c
    · rename_i w ws hws
      have hout : Calm { s with waiters := ws } { s with waiters := ws, out := s.out ++ [c] } :=
        calm_of_eq rfl rfl rfl rfl rfl rfl rfl
      constructor
      · intro t
        obtain ⟨ht, hw, _⟩ := t.pop hws
        exact (hout.stations ht).resolveWaiter (hout.away w ht hw) c
      · intro a t ha
        obtain ⟨ht, _, _⟩ := t.pop hws
        obtain ⟨ha', hne⟩ := ha.pop hws
        have haway := hout.away a ht ha'
        unfold resolveWaiter
        split
        · exact haway.resolve hne c
        · exact haway

theorem refillLoop_calm (cfg : PoolConfig) (n : Nat) (s : Pool) :
    Calm s (refillLoop cfg n s) := by
  induction n generalizing s with
  | zero => exact .refl s
  | succ n ih =>
    unfold refillLoop
    split
    · exact .refl s
    · rename_i w ws hws
      split
      · refine Calm.trans ⟨fun t => ?_, fun a t ha => ?_⟩ (ih _)
        · obtain ⟨ht, hw, hp⟩ := t.pop hws
          have hshift : ({ s with waiters := ws } : Pool).shift w =
              ({ s with waiters := ws } : Pool).setPhase w .refilled := if_pos hp
          rw [hshift]
          exact ht.openFor hw cfg (show AcquirePhase.refilled.isAt .refills = true from rfl)
            (Opener.isFor_refill w)
        · obtain ⟨ha', hne⟩ := ha.pop hws
          have hshift : Away (({ s with waiters := ws } : Pool).shift w) a := by
            unfold shift
            split
            · exact ha'.setPhase w _
            · exact ha'
          obtain ⟨_, _, _, hc, hn, _⟩ :=
            openFor_fields cfg (({ s with waiters := ws } : Pool).shift w) (.refill w)
          refine hshift.of_le (fun st => ?_) hc hn
          rw [openFor_listed, if_neg fun h => hne ((Opener.isFor_refill w a st).mp h).1]
          exact le_rfl
      · exact .refl s

theorem refill_calm (cfg : PoolConfig) (s : Pool) : Calm s (s.refill cfg) := by
  unfold refill
  split
  · exact .refl s
  · exact refillLoop_calm cfg _ s

theorem reclaim_calm (cfg : PoolConfig) (s : Pool) (c : ConnId) : Calm s (s.reclaim cfg c) := by
  have hdrop : Calm s { s with all := s.all.erase c } := calm_of_eq rfl rfl rfl rfl rfl rfl rfl
  unfold reclaim
  split
  · exact hdrop.trans (refill_calm cfg _)
  · split
    · exact calm_of_eq rfl rfl rfl rfl rfl rfl rfl
    · split
      · exact calm_of_eq rfl rfl rfl rfl rfl rfl rfl
      · exact checkin_calm cfg s c

theorem giveBack_calm (cfg : PoolConfig) (s : Pool) (a : AcquireId) (c : ConnId) :
    Calm s (s.giveBack cfg a c) := by
  have hsub : ∀ p, p ∈ s.checkouts.filter (· ≠ (a, c)) → p ∈ s.checkouts :=
    fun p hp => List.mem_of_mem_filter hp
  have hfilter : Calm s { s with checkouts := s.checkouts.filter (· ≠ (a, c)) } := by
    constructor
    · intro t
      exact ⟨t.listed, t.fresh, fun b x hb => t.loans b x (hsub _ hb)⟩
    · intro b _ hb
      exact ⟨hb.listed, fun x hx => hb.loans x (hsub _ hx), hb.known⟩
  refine hfilter.trans ?_
  unfold giveBack
  generalize ({ s with checkouts := s.checkouts.filter (· ≠ (a, c)) } : Pool) = s
  unfold release
  split
  · have hout : Calm s { s with out := s.out.erase c } := calm_of_eq rfl rfl rfl rfl rfl rfl rfl
    dsimp only
    split
    · exact calm_of_eq rfl rfl rfl rfl rfl rfl rfl
    · exact hout.trans (reclaim_calm cfg _ c)
  · exact .refl _

/-! ### The steps -/

/-- The open of an acquire has ended: the acquire is taken from its place. -/
theorem Stations.openEnds (t : Stations s) {o : Opener} (a : AcquireId) (st : Station)
    (ho : s.openers.Perm (o :: s'.openers)) (hr : s'.recovered = s.recovered)
    (hw : s'.waiters = s.waiters) (hc : s'.checkouts = s.checkouts)
    (hn : s'.nextAcquire = s.nextAcquire) (hp : s'.acquires = s.acquires) :
    Stations s' ∧ (o.isFor a st = true → Away s' a ∧ (s.acquires a).isAt st = true) := by
  have hl := listed_of_openers hr.symm hw.symm ho
  have hle : ∀ b st, s'.listed b st ≤ s.listed b st := by
    intro b st
    rw [hl]
    exact Nat.le_add_right _ _
  refine ⟨t.shorter hp hle hc hn, fun hfor => ?_⟩
  have hone := hl a st
  rw [if_pos hfor] at hone
  have hat : (s.acquires a).isAt st = true := t.isAt (by omega)
  have hmax := t.listed a st
  rw [if_pos hat] at hmax
  exact ⟨t.taken hat hc hn (by omega) (hle a), hat⟩

theorem openers_perm_opens {o : Opener} (h : (c, o) ∈ s.opens) :
    s.openers.Perm (o :: ({ s with opens := s.opens.erase (c, o) } : Pool).openers) :=
  ((List.perm_cons_erase h).map Prod.snd).append_right _

/-- An attempt that fails is handled by the call that made it. -/
theorem openers_perm_openFailed {o : Opener} (h : (c, o) ∈ s.opens) (cfg : PoolConfig)
    (e : PoolError) : ((s.step cfg (.openFailed c o e)).openers).Perm s.openers := by
  refine List.Perm.trans ?_ (openers_perm_opens h).symm
  show ((s.opens.erase (c, o)).map Prod.snd ++ (s.catching ++ [(o, e)]).map Prod.fst).Perm _
  rw [List.map_append, ← List.append_assoc]
  exact List.perm_append_singleton o _

theorem openers_perm_catching {o : Opener} {e : PoolError} (h : (o, e) ∈ s.catching) :
    s.openers.Perm (o :: ({ s with catching := s.catching.erase (o, e) } : Pool).openers) :=
  (((List.perm_cons_erase h).map Prod.fst).append_left _).trans List.perm_middle

theorem Stations.opened (t : Stations s) {o : Opener}
    (ho : ∀ a st, o.isFor a st = true → Away s a) (cfg : PoolConfig) (c : ConnId) :
    Stations (s.opened cfg c o) := by
  have hout : Calm s { s with out := s.out ++ [c] } := calm_of_eq rfl rfl rfl rfl rfl rfl rfl
  unfold Pool.opened
  split
  · rename_i a
    have ha := ho a .opens (by simp [Opener.isFor])
    exact (hout.stations t).resolve (hout.away a t ha) c
  · rename_i w
    have hw := ho w .refills (by simp [Opener.isFor])
    exact (hout.stations t).resolveWaiter (hout.away w t hw) c
  · rename_i p
    have hnew : Calm s { s with lastProbeError := none } := calm_of_eq rfl rfl rfl rfl rfl rfl rfl
    exact (((hnew.trans (pushIdle_calm cfg _ c)).trans (settleBreaker_calm _)).trans
      (setProbe_calm _ p .ended)).stations t

theorem Stations.unshift (t : Stations s) (hw : Away s w) (hp : s.acquires w = .refilled) :
    Stations (s.unshift w) := by
  unfold Pool.unshift
  rw [if_pos hp]
  refine t.join hw (show AcquirePhase.parked.isAt .waiters = true from rfl) rfl rfl rfl fun b st => ?_
  cases st with
  | waiters =>
    show (w :: s.waiters).count b = s.waiters.count b + _
    rw [Ledger.count_cons_if]
    exact congrArg _ (if_congr (by rw [and_iff_left rfl, eq_comm]) rfl rfl)
  | recovered | opens | refills =>
    rw [if_neg fun h => nomatch h.2]
    rfl

theorem Stations.caught (t : Stations s) {o : Opener}
    (ho : ∀ a st, o.isFor a st = true → Away s a)
    (hw : ∀ w, o = .refill w → cfg.rcEnabled = true → s.acquires w = .refilled) (e : PoolError) :
    Stations (s.caught cfg e o) := by
  unfold Pool.caught
  split
  · rename_i a
    have ha := ho a .opens (by simp [Opener.isFor])
    split
    · have htrip := (trip_calm cfg s e).stations t
      have haway := (trip_calm cfg s e).away a t ha
      dsimp only
      split
      · exact htrip.setPhase haway _
      · exact htrip.acquire haway cfg false
    · exact t.setPhase ha _
  · rename_i w
    have hfree := ho w .refills (by simp [Opener.isFor])
    split
    · rename_i hrc
      have htrip := (trip_calm cfg _ e).stations (t.unshift hfree (hw w rfl hrc))
      dsimp only
      split
      · exact (failWaiters_calm _ _).stations htrip
      · exact htrip
    · exact t.rejectWaiter hfree e
  · have herr : Calm s { s with lastProbeError := some e } := calm_of_eq rfl rfl rfl rfl rfl rfl rfl
    have hbroken : Calm s { s with lastProbeError := some e, broken := some e } :=
      calm_of_eq rfl rfl rfl rfl rfl rfl rfl
    dsimp only
    split
    · exact ((hbroken.trans (settleBreaker_calm _)).trans (setProbe_calm _ _ .ended)).stations t
    · exact (herr.trans (probeTop_calm _ _)).stations t

theorem endPool_calm (s : Pool) : Calm s s.endPool := by
  have hend : ∀ (l : List ConnId) (s : Pool), Calm s (l.foldl endClient s) := by
    intro l
    induction l with
    | nil => exact Calm.refl
    | cons c l ih =>
      intro s
      exact (endClient_calm s c).trans (ih _)
  have hclosed : Calm s { s with closed := true } := calm_of_eq rfl rfl rfl rfl rfl rfl rfl
  have hwake := ((hclosed.trans (cancelProbeNap_calm _)).trans (failWaiters_calm _ poolEnded)).trans
    (wakeRecovered_calm _)
  unfold endPool
  generalize (({ s with closed := true }.cancelProbeNap.failWaiters poolEnded).wakeRecovered) = s'
    at hwake
  have hclear : Calm s' { s' with idleTimers := [], all := [], idle := [], out := [] } :=
    calm_of_eq rfl rfl rfl rfl rfl rfl rfl
  exact (hwake.trans hclear).trans (hend _ _)

/-- The phase changes, and the place does not. -/
theorem Stations.rephase (t : Stations s) {ph : AcquirePhase}
    (hat : ∀ st, (s.acquires a).isAt st = true → ph.isAt st = true)
    (hnew : s.acquires a ≠ .new) (hres : ∀ c, s.acquires a ≠ .resolved c) :
    Stations (s.setPhase a ph) := by
  refine ⟨fun b st => ?_, fun b hb => ?_, fun b c hc => ?_⟩
  · show s.listed b st ≤ if (Function.update s.acquires a ph b).isAt st then 1 else 0
    by_cases hba : b = a
    · subst hba
      rw [Function.update_self]
      by_cases h : (s.acquires b).isAt st = true
      · rw [if_pos (hat st h)]
        exact (t.listed b st).trans_eq (if_pos h)
      · exact ((t.listed b st).trans_eq (if_neg h)).trans (Nat.zero_le _)
    · rw [Function.update_of_ne hba]
      exact t.listed b st
  · have hba : b ≠ a := by
      rintro rfl
      exact hnew (t.fresh b hb)
    exact (Function.update_of_ne hba _ _).trans (t.fresh b hb)
  · have hba : b ≠ a := by
      rintro rfl
      exact hres c (t.loans b c hc)
    exact (Function.update_of_ne hba _ _).trans (t.loans b c hc)

theorem listed_erase_waiters (a b : AcquireId) (st : Station) :
    ({ s with waiters := s.waiters.erase a } : Pool).listed b st ≤ s.listed b st := by
  cases st with
  | waiters => exact List.erase_sublist.count_le b
  | recovered | opens | refills => exact le_rfl

theorem listed_erase_recovered (a b : AcquireId) (st : Station) :
    ({ s with recovered := s.recovered.erase a } : Pool).listed b st ≤ s.listed b st := by
  cases st with
  | recovered => exact List.erase_sublist.count_le b
  | waiters | opens | refills => exact le_rfl

theorem count_erase_eq_zero {l : List AcquireId} (h : l.count a ≤ 1) :
    (l.erase a).count a = 0 := by
  rw [List.count_erase_self]
  omega

theorem Stations.acquireTimeout (t : Stations s) (ha : (s.acquires a).isWaiting = true)
    (e : PoolError) :
    Stations ({ s with waiters := s.waiters.erase a }.setPhase a (.rejected e)) := by
  have ht : Stations { s with waiters := s.waiters.erase a } :=
    t.shorter rfl (listed_erase_waiters a) rfl rfl
  cases hp : s.acquires a with
  | parked =>
    have hat : (s.acquires a).isAt .waiters = true := by rw [hp]; rfl
    have hone := t.listed a .waiters
    rw [if_pos hat] at hone
    exact ht.setPhase (t.taken hat rfl rfl (count_erase_eq_zero hone) (listed_erase_waiters a a)) _
  | refilled =>
    refine ht.rephase (fun st hst => ?_) (fun h => ?_) (fun c h => ?_)
    · rw [show _ = AcquirePhase.refilled from hp] at hst
      cases st <;> first | rfl | exact absurd hst Bool.false_ne_true
    · exact absurd (hp.symm.trans h) (by simp)
    · exact absurd (hp.symm.trans h) (by simp)
  | new | recovering | woken | opening | resolved | rejected =>
    rw [hp] at ha
    exact absurd ha Bool.false_ne_true

theorem Stations.step (t : Stations s) {d : Slips} (hd : ¬d.lost) {e : PoolEvent}
    (he : s.enabled cfg e = true) (hok : Allows d cfg s e) : Stations (s.step cfg e) := by
  cases e with
  | acquire isGuarded =>
    have ht : Stations { s with nextAcquire := s.nextAcquire + 1 } :=
      ⟨t.listed, fun a ha => t.fresh a (Nat.le_of_succ_le ha), t.loans⟩
    have hnew := t.fresh s.nextAcquire le_rfl
    refine ht.acquire (ht.away (fun st => ?_) (fun c h => ?_) (Nat.lt_succ_self _)) cfg isGuarded
    · show (s.acquires s.nextAcquire).isAt st = false
      rw [hnew, AcquirePhase.isAt_new]
    · exact absurd (hnew.symm.trans h) (by simp)
  | woken a =>
    have hw : s.acquires a = .woken := by simpa [enabled] using he
    refine t.grab (t.away (fun st => ?_) (fun c h => ?_) (t.known ?_)) cfg
    · rw [hw, AcquirePhase.isAt_woken]
    · exact absurd (hw.symm.trans h) (by simp)
    · rw [hw]
      simp
  | recoverTimeout a =>
    have hr : s.acquires a = .recovering := by simpa [enabled] using he
    have hat : (s.acquires a).isAt .recovered = true := by rw [hr]; rfl
    have hone := t.listed a .recovered
    rw [if_pos hat] at hone
    have ht : Stations { s with recovered := s.recovered.erase a } :=
      t.shorter rfl (listed_erase_recovered a) rfl rfl
    exact ht.setPhase
      (t.taken hat rfl rfl (count_erase_eq_zero hone) (listed_erase_recovered a a)) _
  | acquireTimeout a =>
    simp only [enabled, Bool.and_eq_true] at he
    exact t.acquireTimeout he.2 _
  | opened c o =>
    simp only [enabled, decide_eq_true_eq] at he
    have hend := fun a st => t.openEnds a st (openers_perm_opens he) rfl rfl rfl rfl rfl
    exact (hend 0 .opens).1.opened (fun a st h => ((hend a st).2 h).1) cfg c
  | openFailed c o e =>
    simp only [enabled, decide_eq_true_eq] at he
    refine SameLists.stations (s := s) ⟨rfl, rfl, ?_, rfl, rfl⟩ rfl t
    refine List.Perm.trans ?_ (openers_perm_opens he).symm
    show ((s.opens.erase (c, o)).map Prod.snd ++ (s.catching ++ [(o, e)]).map Prod.fst).Perm _
    rw [List.map_append, ← List.append_assoc]
    exact List.perm_append_singleton o _
  | caught o e =>
    simp only [enabled, decide_eq_true_eq] at he
    have hend := fun a st => t.openEnds a st (openers_perm_catching he) rfl rfl rfl rfl rfl
    refine (hend 0 .opens).1.caught (fun a st h => ((hend a st).2 h).1) (fun w ho hrc => ?_) e
    subst ho
    have hat := ((hend w .refills).2 (by simp [Opener.isFor])).2
    have hwait := (hok hrc).resolve_right hd
    show s.acquires w = .refilled
    cases hp : s.acquires w <;> rw [hp] at hat hwait <;>
      first | rfl | exact absurd hat Bool.false_ne_true | exact absurd hwait Bool.false_ne_true
  | napDone p => exact t.of_eq rfl rfl rfl rfl rfl rfl rfl
  | probe p =>
    show Stations (if _ then _ else _)
    split
    · exact (openFor_probe_calm cfg (s.setProbe p .opening) p).stations
        (t.of_eq rfl rfl rfl rfl rfl rfl rfl)
    · exact t.of_eq rfl rfl rfl rfl rfl rfl rfl
  | release a c => exact (giveBack_calm cfg s a c).stations t
  | cancelSettled c =>
    show Stations (if _ then _ else _)
    split
    · refine Calm.stations (Calm.trans ?_ (reclaim_calm cfg _ c)) t
      exact calm_of_eq rfl rfl rfl rfl rfl rfl rfl
    · exact t.of_eq rfl rfl rfl rfl rfl rfl rfl
  | rolledBack c =>
    refine Calm.stations (Calm.trans ?_ (checkin_calm cfg _ c)) t
    exact calm_of_eq rfl rfl rfl rfl rfl rfl rfl
  | rollbackFailed c =>
    refine Calm.stations (Calm.trans ?_ (refill_calm cfg _)) t
    exact calm_of_eq rfl rfl rfl rfl rfl rfl rfl
  | idleTimeout c =>
    show Stations (if _ then _ else _)
    split <;> exact t.of_eq rfl rfl rfl rfl rfl rfl rfl
  | submit | serve | answer | cancel | died =>
    exact t.of_eq rfl rfl rfl rfl rfl rfl rfl
  | endPool => exact (endPool_calm s).stations t

end Pool

end Minipg
