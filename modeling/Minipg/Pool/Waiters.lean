import Minipg.Pool.Checkout

/-!
# Waiters

An acquire that is parked at the maximum waits for a connection that comes back, for room to
open one, or for the end of an outage.  `Line` is what the pool knows when it serves its waiters,
and `Line.Served` is what must hold between two steps: while somebody waits, nothing is idle, and
the pool is full or down; an open that has failed counts as long as its caller has not noticed.

Every path that frees a connection or a place has to look at the waiters.  Some do not, and
`servesWaiters` says which steps take these paths (`parked`).
-/

namespace Minipg

/-- What concerns the waiters. -/
structure Line where
  waiters : List AcquireId
  idle : List ConnId
  size : Nat
  failed : Nat
  closed : Bool
  isBroken : Bool
  down : Bool

namespace Line

/-- While somebody waits, nothing is idle and the pool is neither broken nor closed. -/
def Open (v : Line) : Prop :=
  v.waiters ≠ [] → v.idle = [] ∧ v.isBroken = false ∧ v.closed = false

/-- And there is no room, or the pool is down. -/
def Served (max : Nat) (v : Line) : Prop :=
  v.Open ∧ (v.waiters ≠ [] → max ≤ v.size + v.failed ∨ v.down = true)

theorem Served.of_nil {max : Nat} {v : Line} (h : v.waiters = []) : v.Served max :=
  ⟨fun hw => absurd h hw, fun hw => absurd h hw⟩

/-- Fewer waiters, and no more room. -/
theorem Served.of_le {max : Nat} {v w : Line} (h : v.Served max) (hw : w.waiters ≠ [] → v.waiters ≠ [])
    (hi : w.idle = v.idle) (hc : w.closed = v.closed) (hb : w.isBroken = v.isBroken)
    (hs : v.size + v.failed ≤ w.size + w.failed) (hd : v.down = true → w.down = true) :
    w.Served max := by
  refine ⟨fun hne => ?_, fun hne => ?_⟩
  · rw [hi, hb, hc]
    exact h.1 (hw hne)
  · rcases h.2 (hw hne) with hfull | hdown
    · exact .inl (hfull.trans hs)
    · exact .inr (hd hdown)

/-- One failure has been noticed. -/
theorem Served.noticed {max : Nat} {v w : Line} (h : v.Served max)
    (hw : w.waiters = v.waiters) (hi : w.idle = v.idle) (hb : w.isBroken = v.isBroken)
    (hc : w.closed = v.closed)
    (hroom : v.waiters ≠ [] → max ≤ w.size + w.failed ∨ w.down = true) : w.Served max := by
  refine ⟨fun hne => ?_, fun hne => hroom (hw ▸ hne)⟩
  rw [hi, hb, hc]
  exact h.1 (hw ▸ hne)

end Line

namespace Pool

variable {cfg : PoolConfig} {s s' : Pool} {a w : AcquireId} {c : ConnId}

def line (s : Pool) : Line where
  waiters := s.waiters
  idle := s.idle
  size := s.all.length
  failed := s.catching.length
  closed := s.closed
  isBroken := s.broken.isSome
  down := s.down

/-! ### What does not concern the waiters -/

theorem rejectWaiter_line (e : PoolError) (s : Pool) (w : AcquireId) :
    (rejectWaiter e s w).line = s.line := by
  unfold rejectWaiter
  split <;> rfl

theorem foldl_line {α : Type} {f : Pool → α → Pool} (hf : ∀ s x, (f s x).line = s.line)
    (l : List α) (s : Pool) : (l.foldl f s).line = s.line := by
  induction l generalizing s with
  | nil => rfl
  | cons x l ih => exact (ih (f s x)).trans (hf s x)

theorem cancelProbeNap_line (s : Pool) : s.cancelProbeNap.line = s.line := by
  unfold cancelProbeNap
  split <;> rfl

theorem onRecover_line (s : Pool) (a : AcquireId) : (s.onRecover a).line = s.line := by
  unfold onRecover
  split
  · rfl
  · split <;> rfl

theorem wakeRecovered_line (s : Pool) : s.wakeRecovered.line = s.line :=
  foldl_line onRecover_line s.recovered { s with recovered := [] }

theorem settleBreaker_line (s : Pool) :
    s.settleBreaker.line = { s.line with down := false } := by
  unfold settleBreaker
  rw [wakeRecovered_line, cancelProbeNap_line]
  rfl

theorem failWaiters_line (s : Pool) (e : PoolError) :
    (s.failWaiters e).line = { s.line with waiters := [] } :=
  foldl_line (rejectWaiter_line e) s.waiters { s with waiters := [] }

theorem probeTop_line (s : Pool) (p : ProbeId) : (s.probeTop p).line = s.line := by
  unfold probeTop
  split <;> rfl

theorem armIdleTimer_line (cfg : PoolConfig) (s : Pool) (c : ConnId) :
    (s.armIdleTimer cfg c).line = s.line := by
  unfold armIdleTimer
  split <;> rfl

theorem pushIdle_line (cfg : PoolConfig) (s : Pool) (c : ConnId) :
    (s.pushIdle cfg c).line = { s.line with idle := s.idle ++ [c] } :=
  armIdleTimer_line cfg { s with idle := s.idle ++ [c] } c

theorem resolveWaiter_line (s : Pool) (w : AcquireId) (c : ConnId) :
    (s.resolveWaiter w c).line = s.line := by
  unfold resolveWaiter
  split <;> rfl

theorem shift_line (s : Pool) (w : AcquireId) : (s.shift w).line = s.line := by
  unfold shift
  split <;> rfl

theorem unshift_line (s : Pool) (w : AcquireId) :
    (s.unshift w).line = { s.line with waiters := w :: s.waiters } := by
  unfold unshift
  split <;> rfl

theorem trip_fatal_line {e : PoolError} (h : cfg.isFatal e = true) (s : Pool) :
    (s.trip cfg e).line = { s.line with isBroken := true, down := false } ∧
      (s.trip cfg e).broken = some e := by
  have htrip : s.trip cfg e = { s with broken := some e }.settleBreaker := if_pos h
  have hbroken : ∀ (s : Pool), s.settleBreaker.broken = s.broken := by
    intro s
    have hfold : ∀ (l : List AcquireId) (s : Pool), (l.foldl onRecover s).broken = s.broken := by
      intro l
      induction l with
      | nil => exact fun _ => rfl
      | cons a l ih =>
        intro s
        refine (ih _).trans ?_
        unfold onRecover
        split
        · rfl
        · split <;> rfl
    unfold settleBreaker wakeRecovered
    refine (hfold _ _).trans ?_
    unfold cancelProbeNap
    split <;> rfl
  rw [htrip]
  exact ⟨settleBreaker_line _, hbroken _⟩

/-- A failure that is not fatal takes the pool down, unless it is closed. -/
theorem trip_line {e : PoolError} (h : cfg.isFatal e = false) (s : Pool) :
    (s.trip cfg e).line = { s.line with down := s.down || !s.closed } ∧
      (s.trip cfg e).broken = s.broken := by
  unfold trip
  rw [if_neg (by simp [h])]
  split
  · rename_i hquiet
    have heq : (s.down || !s.closed) = s.down := by
      cases hd : s.down <;> cases hc : s.closed <;> simp_all
    rw [heq]
    exact ⟨rfl, rfl⟩
  · rename_i hup
    have heq : (s.down || !s.closed) = true := by
      cases hd : s.down <;> cases hc : s.closed <;> simp_all
    rw [heq]
    unfold startProbe
    rw [probeTop_line]
    refine ⟨rfl, ?_⟩
    unfold probeTop
    split <;> rfl

/-- An open adds a member, or a failure that nobody has noticed. -/
theorem openFor_line (cfg : PoolConfig) (s : Pool) (o : Opener) :
    ∃ n m, n + m = s.all.length + s.catching.length + 1 ∧
      (s.openFor cfg o).line = { s.line with size := n, failed := m } := by
  unfold openFor
  split
  · exact ⟨s.all.length, s.catching.length + 1, rfl, by simp [line]⟩
  · exact ⟨s.all.length + 1, s.catching.length, by omega, by simp [line]⟩

theorem openFor_served {max : Nat} (h : s.line.Served max) (o : Opener) :
    (s.openFor cfg o).line.Served max := by
  obtain ⟨n, m, hnm, hl⟩ := openFor_line cfg s o
  rw [hl]
  exact h.of_le id rfl rfl rfl (by simp only [line]; omega) id

/-! ### Acquiring -/

/-- Some idle connection lives. -/
def hasIdle (s : Pool) : Bool := s.idle.any fun c => !(s.clients c).isClosed

/-- The loop over `idle` finds nothing only if nothing idle lives. -/
theorem takeIdle_none {n : Nat} (hn : s.idle.length ≤ n) (h : takeIdle n s = (s', none)) :
    s.hasIdle = false ∧ s'.idle = [] ∧ s'.all.length ≤ s.all.length ∧
      s'.waiters = s.waiters ∧ s'.catching = s.catching ∧ s'.closed = s.closed ∧
      s'.broken = s.broken ∧ s'.down = s.down := by
  induction n generalizing s with
  | zero =>
    obtain rfl := (Prod.mk.inj h).1
    have hnil : s.idle = [] := List.length_eq_zero_iff.mp (Nat.le_zero.mp hn)
    exact ⟨by simp [hasIdle, hnil], hnil, le_rfl, rfl, rfl, rfl, rfl, rfl⟩
  | succ n ih =>
    unfold takeIdle at h
    cases hc : s.idle.getLast? with
    | none =>
      rw [hc] at h
      obtain rfl := (Prod.mk.inj h).1
      have hnil : s.idle = [] := List.getLast?_eq_none_iff.mp hc
      exact ⟨by simp [hasIdle, hnil], hnil, le_rfl, rfl, rfl, rfl, rfl, rfl⟩
    | some c =>
      rw [hc] at h
      have hlast : s.idle.dropLast ++ [c] = s.idle := List.dropLast_append_getLast? c hc
      by_cases hclosed : (s.clients c).isClosed = true
      · have hrest : takeIdle n { s with
            idle := s.idle.dropLast, idleTimers := s.idleTimers.filter (· ≠ c)
            all := s.all.erase c } = (s', none) := (if_pos hclosed).symm.trans h
        have hlen : s.idle.dropLast.length ≤ n := by
          rw [List.length_dropLast]
          omega
        obtain ⟨hidle, hnil, hall, hrest⟩ := ih hlen hrest
        refine ⟨?_, hnil, hall.trans List.length_erase_le, hrest⟩
        have hdead : s.idle.dropLast.any (fun c => !(s.clients c).isClosed) = false := hidle
        show s.idle.any _ = false
        rw [← hlast, List.any_append, hdead]
        simp [hclosed]
      · have hsome : (_, some c) = (s', none) := (if_neg hclosed).symm.trans h
        exact absurd (Prod.mk.inj hsome).2 (by simp)

theorem takeIdle_waiters (n : Nat) (s : Pool) : (takeIdle n s).1.waiters = s.waiters := by
  induction n generalizing s with
  | zero => rfl
  | succ n ih =>
    unfold takeIdle
    split
    · rfl
    · dsimp only
      split
      · exact ih _
      · rfl

/-- A pool that is broken or closed lets an acquire in only if it need not wait. -/
def letsIn (cfg : PoolConfig) (s : Pool) : Bool :=
  s.broken.isNone && !s.closed || s.all.length < cfg.max || s.hasIdle

theorem grab_served (h : s.line.Served cfg.max) (hin : s.letsIn cfg = true) (a : AcquireId) :
    (s.grab cfg a).line.Served cfg.max := by
  unfold grab
  split
  · rename_i s' c hr
    have hw : s'.waiters = s.waiters := by
      have := takeIdle_waiters s.idle.length s
      rw [hr] at this
      exact this
    by_cases hnil : s.waiters = []
    · exact .of_nil (hw.trans hnil)
    · -- nothing is idle while somebody waits
      have hidle : s.idle = [] := (h.1 hnil).1
      rw [hidle] at hr
      exact absurd (Prod.mk.inj hr).2 (by simp)
  · rename_i s' hr
    obtain ⟨hidle, hnil, hall, hw, hcat, hcl, hbr, hdn⟩ := takeIdle_none le_rfl hr
    split
    · by_cases hnone : s.waiters = []
      · obtain ⟨n, m, -, hl⟩ := openFor_line cfg (s'.setPhase a .opening) (.acquire a)
        rw [hl]
        exact .of_nil (hw.trans hnone)
      · have hs' : s' = s := by
          have hidle : s.idle = [] := (h.1 hnone).1
          rw [hidle] at hr
          exact (Prod.mk.inj hr).1.symm
        subst hs'
        exact openFor_served (s := s'.setPhase a .opening) h _
    · rename_i hfull
      refine ⟨fun _ => ⟨hnil, ?_, ?_⟩, fun _ => .inl ?_⟩
      · show s'.broken.isSome = false
        rw [hbr]
        simp only [letsIn, hidle, Bool.or_false, Bool.or_eq_true, Bool.and_eq_true,
          decide_eq_true_eq] at hin
        rcases hin with hin | hin
        · simpa using hin.1
        · omega
      · show s'.closed = false
        rw [hcl]
        simp only [letsIn, hidle, Bool.or_false, Bool.or_eq_true, Bool.and_eq_true,
          decide_eq_true_eq] at hin
        rcases hin with hin | hin
        · simpa using hin.2
        · omega
      · show cfg.max ≤ s'.all.length + s'.catching.length
        omega

theorem acquire_served (h : s.line.Served cfg.max) (a : AcquireId) (isGuarded : Bool) :
    (s.acquire cfg a isGuarded).line.Served cfg.max := by
  unfold acquire
  split
  · exact h
  · rename_i hclosed
    split
    · exact h
    · split
      · exact h
      · rename_i hbroken
        split
        · exact h
        · exact grab_served h (by simp [letsIn, hbroken, hclosed]) a

/-! ### Coming back -/

theorem checkin_served (h : s.line.Served cfg.max) (hok : s.down = true → s.waiters = [])
    (c : ConnId) : (s.checkin cfg c).line.Served cfg.max := by
  unfold checkin
  split
  · rename_i hdown
    rw [settleBreaker_line, pushIdle_line]
    exact .of_nil (hok hdown)
  · split
    · rename_i hnil
      rw [pushIdle_line]
      exact .of_nil hnil
    · rename_i w ws hws
      rw [resolveWaiter_line]
      refine h.of_le (fun _ hnil => ?_) rfl rfl rfl le_rfl id
      exact absurd (hws.symm.trans hnil) (by simp)

theorem refillLoop_served (h : s.line.Open) {n : Nat} (hn : s.waiters.length ≤ n) :
    (refillLoop cfg n s).line.Served cfg.max := by
  induction n generalizing s with
  | zero => exact .of_nil (List.length_eq_zero_iff.mp (Nat.le_zero.mp hn))
  | succ n ih =>
    unfold refillLoop
    split
    · rename_i hnil
      exact .of_nil hnil
    · rename_i w ws hws
      have hopen : s.line.waiters ≠ [] := by
        intro hnil
        exact absurd (hws.symm.trans hnil) (by simp)
      split
      · obtain ⟨i, j, -, hl⟩ := openFor_line cfg (({ s with waiters := ws } : Pool).shift w) (.refill w)
        rw [shift_line] at hl
        have hwaiters : ((({ s with waiters := ws } : Pool).shift w).openFor cfg
            (.refill w)).waiters = ws := congrArg Line.waiters hl
        refine ih (fun _ => ?_) ?_
        · rw [hl]
          exact h hopen
        · rw [hwaiters]
          rw [hws, List.length_cons] at hn
          omega
      · rename_i hfull
        refine ⟨h, fun _ => .inl ?_⟩
        show cfg.max ≤ s.all.length + s.catching.length
        omega

theorem refill_served (h : s.line.Open) : (s.refill cfg).line.Served cfg.max := by
  unfold refill
  split
  · rename_i hoff
    refine ⟨h, fun hne => .inr ?_⟩
    have hclosed : s.closed = false := (h hne).2.2
    rw [hclosed, Bool.or_false] at hoff
    exact hoff
  · exact refillLoop_served h le_rfl

/-- Checking a connection in while the pool is down forgets the waiters. -/
def forgetsWaiters (s : Pool) (c : ConnId) : Bool :=
  !(s.clients c).isClosed && !s.closed && !(s.clients c).inTransaction && s.down &&
    !s.waiters.isEmpty

theorem reclaim_served (h : s.line.Served cfg.max) (hok : s.forgetsWaiters c = false) :
    (s.reclaim cfg c).line.Served cfg.max := by
  unfold reclaim
  split
  · exact refill_served h.1
  · rename_i halive
    split
    · rename_i hclosed
      refine .of_nil ?_
      by_contra hne
      have hno : s.closed = false := (h.1 hne).2.2
      exact absurd (hclosed.symm.trans hno) (by simp)
    · rename_i hopen
      split
      · exact h
      · rename_i hidle
        refine checkin_served h (fun hdown => ?_) c
        simpa [forgetsWaiters, halive, hopen, hidle, hdown] using hok

theorem giveBack_served (h : s.line.Served cfg.max) (a : AcquireId)
    (hok : c ∈ s.out → (s.clients c).isCanceling = false → s.forgetsWaiters c = false) :
    (s.giveBack cfg a c).line.Served cfg.max := by
  unfold giveBack release
  split
  · rename_i hc
    dsimp only
    split
    · exact h
    · rename_i hcancel
      exact reclaim_served (s := { s with
        checkouts := s.checkouts.filter (· ≠ (a, c)), out := s.out.erase c }) h
        (hok hc (Bool.eq_false_iff.mpr hcancel))
  · exact h

/-! ### The ends of an open -/

/-- Whether an event serves the waiters, or finds none.  The paths that forget them: a broken or
closed pool lets an acquire park; a probe brings a connection; a fatal failure breaks the pool;
an open that failed leaves room, and the pool is up; the waiter of a failed refill is put back
into a closed pool, or beside an idle connection; a connection comes back while the pool is down. -/
def servesWaiters (cfg : PoolConfig) (s : Pool) : PoolEvent → Bool
  | .woken _ => s.letsIn cfg
  | .opened _ (.probe _) => s.waiters.isEmpty
  | .caught (.acquire _) e =>
    s.waiters.isEmpty ||
      if cfg.rcEnabled then !cfg.isFatal e else cfg.max < s.all.length + s.catching.length
  | .caught (.refill _) e =>
    if cfg.rcEnabled then cfg.isFatal e || s.broken.isSome || (!s.closed && s.idle.isEmpty)
    else s.waiters.isEmpty || cfg.max < s.all.length + s.catching.length
  | .caught (.probe _) e =>
    s.waiters.isEmpty ||
      (!cfg.isFatal e && (s.down || cfg.max < s.all.length + s.catching.length))
  | .release _ c => c ∉ s.out || (s.clients c).isCanceling || !s.forgetsWaiters c
  | .cancelSettled c => c ∉ s.draining || !s.forgetsWaiters c
  | .rolledBack _ => !s.down || s.waiters.isEmpty
  | _ => true

theorem opened_served (h : s.line.Served cfg.max) {o : Opener}
    (hok : s.servesWaiters cfg (.opened c o) = true) :
    (s.opened cfg c o).line.Served cfg.max := by
  unfold opened
  split
  · exact h
  · rw [resolveWaiter_line]
    exact h
  · show Line.Served _ (settleBreaker _).line
    rw [settleBreaker_line, pushIdle_line]
    have hnil : s.waiters = [] := by simpa [servesWaiters] using hok
    exact .of_nil hnil

/-- The failure of an open is noticed.  `n` is the number of those that are left. -/
theorem caught_served {o : Opener} {e : PoolError} (h : s.line.Served cfg.max)
    (hmem : (o, e) ∈ s.catching) (hok : s.servesWaiters cfg (.caught o e) = true) :
    (({ s with catching := s.catching.erase (o, e) } : Pool).caught cfg e o).line.Served
      cfg.max := by
  have hlen := List.length_erase_of_mem hmem
  have hpos := List.length_pos_of_mem hmem
  generalize hs' : ({ s with catching := s.catching.erase (o, e) } : Pool) = s'
  have hline : s'.line = { s.line with failed := (s.catching.erase (o, e)).length } := by
    rw [← hs']
    rfl
  have hnil : s.waiters = [] → s'.waiters = [] := by
    intro hw
    rw [← hs']
    exact hw
  -- after a failure that is not fatal a pool with waiters is down
  have htrip : cfg.isFatal e = false → (s'.trip cfg e).line.Served cfg.max := by
    intro hf
    rw [(trip_line hf s').1, hline]
    refine h.noticed rfl rfl rfl rfl fun hne => .inr ?_
    have hclosed : s'.closed = false := by
      rw [← hs']
      exact (h.1 hne).2.2
    show (s'.down || !s'.closed) = true
    rw [hclosed]
    simp
  have hkept : cfg.max < s.all.length + s.catching.length → s'.line.Served cfg.max := by
    intro hroom
    rw [hline]
    refine h.noticed rfl rfl rfl rfl fun _ => .inl ?_
    show cfg.max ≤ s.all.length + (s.catching.erase (o, e)).length
    omega
  unfold caught
  split
  · simp only [servesWaiters, Bool.or_eq_true, List.isEmpty_iff] at hok
    split
    · rename_i hrc
      rw [if_pos hrc] at hok
      cases hf : cfg.isFatal e with
      | false =>
        dsimp only
        split
        · exact htrip hf
        · exact acquire_served (htrip hf) _ false
      | true =>
        have hw := hok.resolve_right (by simp [hf])
        dsimp only
        split
        · show Line.Served _ (s'.trip cfg e).line
          rw [(trip_fatal_line hf s').1]
          exact .of_nil (hnil hw)
        · rename_i hnone
          exact absurd ((trip_fatal_line hf s').2.symm.trans hnone) (by simp)
    · rename_i hrc
      rw [if_neg hrc, decide_eq_true_eq] at hok
      rcases hok with hw | hroom
      · exact .of_nil (hnil hw)
      · exact hkept hroom
  · simp only [servesWaiters] at hok
    split
    · rename_i w hrc
      rw [if_pos hrc] at hok
      dsimp only
      split
      · rw [failWaiters_line]
        exact .of_nil rfl
      · rename_i hnone
        cases hf : cfg.isFatal e with
        | true => exact absurd ((trip_fatal_line hf _).2.symm.trans hnone) (by simp)
        | false =>
          rw [(trip_line hf _).2] at hnone
          have hbroken : s.broken = none := by
            rw [← hnone, ← hs']
            unfold unshift
            split <;> rfl
          simp only [hf, hbroken, Option.isSome_none, Bool.or_false, Bool.false_or,
            Bool.and_eq_true, Bool.not_eq_true', List.isEmpty_iff] at hok
          have hclosed : (s'.unshift w).closed = false := by
            rw [← hs']
            unfold unshift
            split <;> exact hok.1
          rw [(trip_line hf _).1, unshift_line, hline]
          refine ⟨fun _ => ⟨hok.2, ?_, hok.1⟩, fun _ => .inr ?_⟩
          · show s.broken.isSome = false
            rw [hbroken]
            rfl
          · show ((s'.unshift w).down || !(s'.unshift w).closed) = true
            rw [hclosed]
            simp
    · rename_i hrc
      rw [if_neg hrc, Bool.or_eq_true, List.isEmpty_iff, decide_eq_true_eq] at hok
      rw [rejectWaiter_line]
      rcases hok with hw | hroom
      · exact .of_nil (hnil hw)
      · exact hkept hroom
  · simp only [servesWaiters, Bool.or_eq_true, Bool.and_eq_true, Bool.not_eq_true',
      List.isEmpty_iff, decide_eq_true_eq] at hok
    dsimp only
    split
    · rename_i hf
      have hw := hok.resolve_right (by simp [hf])
      show Line.Served _ (settleBreaker _).line
      rw [settleBreaker_line]
      exact .of_nil (hnil hw)
    · rw [probeTop_line]
      rcases hok with hw | ⟨_, hdown | hroom⟩
      · exact .of_nil (hnil hw)
      · show s'.line.Served cfg.max
        rw [hline]
        exact h.noticed rfl rfl rfl rfl fun _ => .inr hdown
      · exact hkept hroom

theorem endPool_line (s : Pool) : s.endPool.waiters = [] := by
  have hend : ∀ (l : List ConnId) (s : Pool), (l.foldl endClient s).waiters = s.waiters := by
    intro l
    induction l with
    | nil => exact fun _ => rfl
    | cons c l ih => exact fun s => ih (s.endClient c)
  unfold endPool
  refine (hend _ _).trans ?_
  have hl := wakeRecovered_line (({ s with closed := true } : Pool).cancelProbeNap.failWaiters poolEnded)
  rw [failWaiters_line] at hl
  exact congrArg Line.waiters hl

/-- **A step that does not forget the waiters serves them.** -/
theorem step_served (h : s.line.Served cfg.max) {e : PoolEvent} (he : s.enabled cfg e = true)
    (hok : s.servesWaiters cfg e = true) : (s.step cfg e).line.Served cfg.max := by
  cases e with
  | acquire isGuarded =>
    exact acquire_served (s := { s with nextAcquire := s.nextAcquire + 1 }) h s.nextAcquire isGuarded
  | woken a => exact grab_served h hok a
  | acquireTimeout a =>
    refine h.of_le (fun hne hnil => hne ?_) rfl rfl rfl le_rfl id
    show s.waiters.erase a = []
    rw [show s.waiters = [] from hnil]
    rfl
  | opened c o => exact opened_served (s := { s with opens := s.opens.erase (c, o) }) h hok
  | openFailed c o e =>
    refine h.of_le id rfl rfl rfl ?_ id
    have hle : s.all.length - 1 ≤ (s.all.erase c).length := List.le_length_erase
    show s.all.length + s.catching.length ≤ (s.all.erase c).length + (s.catching ++ [(o, e)]).length
    rw [List.length_append, List.length_singleton]
    omega
  | caught o e =>
    simp only [enabled, decide_eq_true_eq] at he
    exact caught_served h he hok
  | probe p =>
    show (if _ then _ else _ : Pool).line.Served cfg.max
    split
    · exact openFor_served (s := s.setProbe p .opening) h _
    · exact h
  | release a c =>
    refine giveBack_served h a fun hc hcancel => ?_
    simpa [servesWaiters, hc, hcancel] using hok
  | cancelSettled c =>
    show (if _ then _ else _ : Pool).line.Served cfg.max
    split
    · rename_i hc
      refine reclaim_served (s := { s.modClient c fun k => { k with isCanceling := false } with
        draining := s.draining.erase c }) h ?_
      have hdraining : c ∈ s.draining := hc
      simp only [servesWaiters, hdraining, not_true_eq_false, decide_false, Bool.false_or,
        Bool.not_eq_true'] at hok
      simpa [forgetsWaiters, modClient] using hok
    · exact h
  | rolledBack c =>
    refine checkin_served (s := { s with rolling := s.rolling.erase c }) h (fun hdown => ?_) c
    have hd : s.down = true := hdown
    simpa [servesWaiters, hd] using hok
  | rollbackFailed c => exact refill_served (s := _) h.1
  | idleTimeout c =>
    show (if _ then _ else _ : Pool).line.Served cfg.max
    split
    · rename_i hc
      refine .of_nil ?_
      by_contra hne
      have hnil : s.idle = [] := (h.1 hne).1
      have hmem : c ∈ s.idle := hc
      exact absurd (hnil ▸ hmem) (by simp)
    · exact h
  | recoverTimeout | napDone | submit | serve | answer | cancel | died => exact h
  | endPool => exact .of_nil (endPool_line s)

end Pool

end Minipg
