import Minipg.Pool.Stations
import Minipg.Pool.Watch

/-!
# The loops that probe

`startProbe` runs a loop that ends when it finds the pool up or closed, and it looks only after its
nap and after a failed `open()`.  In between the flag can be cleared and set again.  A loop that is
started while the one before waits for its `open()` gives two loops; without that there is one at
most, and one while the pool is down.
-/

namespace Minipg

namespace Pool

variable {cfg : PoolConfig} {s s' : Pool} {a : AcquireId} {c : ConnId} {p : ProbeId}

def watch (s : Pool) : Watch where
  probes := s.probes
  nextProbe := s.nextProbe
  nap := s.nap
  down := s.down
  closed := s.closed
  flights p := s.openers.count (.probe p)

/-! ### What the operations of a pool do to the loops -/

theorem rejectWaiter_watch (e : PoolError) (s : Pool) (w : AcquireId) :
    (rejectWaiter e s w).watch = s.watch := by
  unfold rejectWaiter
  split <;> rfl

theorem resolveWaiter_watch (s : Pool) (w : AcquireId) (c : ConnId) :
    (s.resolveWaiter w c).watch = s.watch := by
  unfold resolveWaiter
  split <;> rfl

theorem foldl_watch {α : Type} {f : Pool → α → Pool} (hf : ∀ s x, (f s x).watch = s.watch)
    (l : List α) (s : Pool) : (l.foldl f s).watch = s.watch := by
  induction l generalizing s with
  | nil => rfl
  | cons x l ih => exact (ih (f s x)).trans (hf s x)

theorem onRecover_watch (s : Pool) (a : AcquireId) : (s.onRecover a).watch = s.watch := by
  unfold onRecover
  split
  · rfl
  · split <;> rfl

theorem wakeRecovered_watch (s : Pool) : s.wakeRecovered.watch = s.watch :=
  foldl_watch onRecover_watch s.recovered { s with recovered := [] }

theorem failWaiters_watch (s : Pool) (e : PoolError) : (s.failWaiters e).watch = s.watch :=
  foldl_watch (rejectWaiter_watch e) s.waiters { s with waiters := [] }

theorem cancelProbeNap_watch (s : Pool) : s.cancelProbeNap.watch = s.watch.wake := by
  unfold cancelProbeNap Watch.wake
  rw [show s.watch.nap = s.nap from rfl]
  cases s.nap <;> rfl

theorem settleBreaker_watch (s : Pool) : s.settleBreaker.watch = s.watch.settle := by
  unfold settleBreaker
  rw [wakeRecovered_watch, cancelProbeNap_watch]
  rfl

theorem probeTop_watch (s : Pool) (p : ProbeId) : (s.probeTop p).watch = s.watch.top p := by
  unfold probeTop Watch.top
  show _ = if s.down && !s.closed then _ else _
  split <;> rfl

theorem armIdleTimer_watch (cfg : PoolConfig) (s : Pool) (c : ConnId) :
    (s.armIdleTimer cfg c).watch = s.watch := by
  unfold armIdleTimer
  split <;> rfl

theorem pushIdle_watch (cfg : PoolConfig) (s : Pool) (c : ConnId) :
    (s.pushIdle cfg c).watch = s.watch := armIdleTimer_watch cfg { s with idle := s.idle ++ [c] } c

theorem takeIdle_watch (n : Nat) (s : Pool) : (takeIdle n s).1.watch = s.watch := by
  induction n generalizing s with
  | zero => rfl
  | succ n ih =>
    unfold takeIdle
    split
    · rfl
    · dsimp only
      split
      · exact ih _
      · rfl

theorem openFor_watch (cfg : PoolConfig) (s : Pool) {o : Opener} (ho : ∀ p, o ≠ .probe p) :
    (s.openFor cfg o).watch = s.watch := by
  obtain ⟨-, -, hopeners, -⟩ := openFor_fields cfg s o
  have hflights : (s.openFor cfg o).watch.flights = s.watch.flights := by
    funext p
    exact (hopeners.count_eq _).trans (List.count_cons_of_ne (ho p))
  unfold openFor at hflights ⊢
  split at hflights <;> exact Watch.ext rfl rfl rfl rfl rfl hflights

theorem openFor_probe_watch (cfg : PoolConfig) (s : Pool) (p : ProbeId) :
    (s.openFor cfg (.probe p)).watch = s.watch.takeOff p := by
  obtain ⟨-, -, hopeners, -⟩ := openFor_fields cfg s (.probe p)
  have hflights : (s.openFor cfg (.probe p)).watch.flights = (s.watch.takeOff p).flights := by
    funext q
    refine (hopeners.count_eq _).trans ?_
    show _ = Function.update s.watch.flights p (s.watch.flights p + 1) q
    by_cases hqp : q = p
    · subst hqp
      rw [List.count_cons_self, Function.update_self]
      rfl
    · have hne : Opener.probe p ≠ .probe q := fun h => hqp (Opener.probe.inj h).symm
      rw [List.count_cons_of_ne hne, Function.update_of_ne hqp]
      rfl
  unfold openFor at hflights ⊢
  split at hflights <;> exact Watch.ext rfl rfl rfl rfl rfl hflights

theorem grab_watch (cfg : PoolConfig) (s : Pool) (a : AcquireId) :
    (s.grab cfg a).watch = s.watch := by
  have htake := takeIdle_watch s.idle.length s
  unfold grab
  split
  · next h =>
    rw [h] at htake
    exact htake
  · next h =>
    rw [h] at htake
    split
    · rw [openFor_watch cfg _ (by simp)]
      exact htake
    · exact htake

theorem acquire_watch (cfg : PoolConfig) (s : Pool) (a : AcquireId) (isGuarded : Bool) :
    (s.acquire cfg a isGuarded).watch = s.watch := by
  unfold acquire
  split
  · rfl
  split
  · rfl
  split
  · rfl
  split
  · rfl
  · exact grab_watch cfg s a

theorem shift_watch (s : Pool) (w : AcquireId) : (s.shift w).watch = s.watch := by
  unfold shift
  split <;> rfl

theorem unshift_watch (s : Pool) (w : AcquireId) : (s.unshift w).watch = s.watch := by
  unfold unshift
  split <;> rfl

theorem refillLoop_watch (cfg : PoolConfig) (n : Nat) (s : Pool) :
    (refillLoop cfg n s).watch = s.watch := by
  induction n generalizing s with
  | zero => rfl
  | succ n ih =>
    unfold refillLoop
    split
    · rfl
    · split
      · rw [ih, openFor_watch cfg _ (by simp), shift_watch]
        rfl
      · rfl

theorem refill_watch (cfg : PoolConfig) (s : Pool) : (s.refill cfg).watch = s.watch := by
  unfold refill
  split
  · rfl
  · exact refillLoop_watch cfg _ s

theorem checkin_move (cfg : PoolConfig) (s : Pool) (c : ConnId) :
    s.watch.Move (s.checkin cfg c).watch := by
  unfold checkin
  split
  · rw [settleBreaker_watch, pushIdle_watch]
    exact .settle
  · split
    · rw [pushIdle_watch]
      exact .stay
    · rw [resolveWaiter_watch]
      exact .stay

theorem reclaim_move (cfg : PoolConfig) (s : Pool) (c : ConnId) :
    s.watch.Move (s.reclaim cfg c).watch := by
  unfold reclaim
  split
  · rw [refill_watch]
    exact .stay
  split
  · exact .stay
  split
  · exact .stay
  · exact checkin_move cfg s c

theorem giveBack_move (cfg : PoolConfig) (s : Pool) (a : AcquireId) (c : ConnId) :
    s.watch.Move (s.giveBack cfg a c).watch := by
  show s.watch.Move (if _ then _ else _ : Pool).watch
  split
  · dsimp only
    split
    · exact .stay
    · exact reclaim_move cfg { s with
        checkouts := s.checkouts.filter (· ≠ (a, c)), out := s.out.erase c } c
  · exact .stay

/-! ### The steps -/

theorem watch_of_perm {o : Opener} (ho : ∀ p, o ≠ .probe p)
    (h : s.openers.Perm (o :: s'.openers))
    (hw : { s'.watch with flights := s.watch.flights } = s.watch) : s'.watch = s.watch := by
  have hflights : s'.watch.flights = s.watch.flights := by
    funext p
    exact ((h.count_eq _).trans (List.count_cons_of_ne (ho p))).symm
  rw [← hw, ← hflights]

theorem land_of_perm (h : s.openers.Perm (.probe p :: s'.openers))
    (hw : { s'.watch with flights := s.watch.flights } = s.watch) :
    0 < s.watch.flights p ∧ s'.watch = s.watch.land p := by
  have hp : s.watch.flights p = s'.watch.flights p + 1 :=
    (h.count_eq _).trans List.count_cons_self
  have hflights : s'.watch.flights = (s.watch.land p).flights := by
    funext q
    show _ = Function.update s.watch.flights p (s.watch.flights p - 1) q
    by_cases hqp : q = p
    · rw [hqp, Function.update_self, hp]
      rfl
    · have hne : Opener.probe p ≠ .probe q := fun h => hqp (Opener.probe.inj h).symm
      rw [Function.update_of_ne hqp]
      exact ((h.count_eq _).trans (List.count_cons_of_ne hne)).symm
  refine ⟨by omega, ?_⟩
  have hw' : s'.watch = { s.watch with flights := s'.watch.flights } := by rw [← hw]
  rw [hw', hflights]
  rfl

theorem trip_watch {e : PoolError} (s : Pool) : (s.trip cfg e).watch =
    if cfg.isFatal e then s.watch.settle
    else if s.down || s.closed then s.watch else s.watch.start := by
  unfold trip
  split
  · rw [settleBreaker_watch]
    rfl
  · split
    · rfl
    · unfold startProbe
      rw [probeTop_watch]
      rfl

/-- The error that trips the breaker. -/
def starts (cfg : PoolConfig) (s : Pool) : PoolEvent → Bool
  | .caught (.acquire _) e | .caught (.refill _) e =>
    cfg.rcEnabled && !cfg.isFatal e && !s.down && !s.closed
  | _ => false

theorem endPool_watch (s : Pool) : s.endPool.watch = { s.watch with closed := true }.wake := by
  unfold endPool
  have hend : ∀ s c, (endClient s c).watch = s.watch := fun _ _ => rfl
  rw [foldl_watch hend]
  show (wakeRecovered _).watch = _
  rw [wakeRecovered_watch, failWaiters_watch, cancelProbeNap_watch]
  rfl

theorem caught_watch (e : PoolError) {o : Opener} (ho : ∀ p, o ≠ .probe p) (s : Pool) :
    (s.caught cfg e o).watch = if cfg.rcEnabled then (s.trip cfg e).watch else s.watch := by
  cases o with
  | acquire a =>
    simp only [caught]
    split
    · split
      · rfl
      · exact acquire_watch cfg _ a false
    · rfl
  | refill w =>
    have htrip : ((s.unshift w).trip cfg e).watch = (s.trip cfg e).watch := by
      have hw := unshift_watch s w
      rw [trip_watch, trip_watch, hw, show (s.unshift w).down = s.down from congrArg Watch.down hw,
        show (s.unshift w).closed = s.closed from congrArg Watch.closed hw]
    simp only [caught]
    split
    · split
      · rw [failWaiters_watch, htrip]
      · exact htrip
    · exact rejectWaiter_watch e s w
  | probe p => exact absurd rfl (ho p)

/-- **A step that starts no loop.** -/
theorem step_move {e : PoolEvent} (he : s.enabled cfg e = true) (hs : s.starts cfg e = false) :
    s.watch.Move (s.step cfg e).watch := by
  cases e with
  | acquire isGuarded =>
    show s.watch.Move (Pool.acquire cfg _ _ _).watch
    rw [acquire_watch]
    exact .stay
  | woken a =>
    show s.watch.Move (s.grab cfg a).watch
    rw [grab_watch]
    exact .stay
  | opened c o =>
    simp only [enabled, decide_eq_true_eq] at he
    have hperm := openers_perm_opens he
    cases o with
    | acquire a =>
      have hw := watch_of_perm (by simp) hperm rfl
      show s.watch.Move (Pool.watch { s with opens := s.opens.erase (c, .acquire a) })
      rw [hw]
      exact .stay
    | refill w =>
      have hw := watch_of_perm (by simp) hperm rfl
      show s.watch.Move (Pool.resolveWaiter _ w c).watch
      rw [resolveWaiter_watch]
      show s.watch.Move (Pool.watch { s with opens := s.opens.erase (c, .refill w) })
      rw [hw]
      exact .stay
    | probe p =>
      obtain ⟨hp, hw⟩ := land_of_perm hperm rfl
      have hmove := Watch.Move.landed p hp
      rw [← hw] at hmove
      refine cast ?_ hmove
      congr 1
      show _ = (Pool.watch _).set p .ended
      rw [settleBreaker_watch, pushIdle_watch]
      rfl
  | openFailed c o e =>
    simp only [enabled, decide_eq_true_eq] at he
    have hperm := openers_perm_openFailed he cfg e
    have hw : (s.step cfg (.openFailed c o e)).watch = s.watch :=
      Watch.ext rfl rfl rfl rfl rfl (funext fun p => hperm.count_eq _)
    rw [hw]
    exact .stay
  | caught o e =>
    simp only [enabled, decide_eq_true_eq] at he
    have hperm := openers_perm_catching he
    have hother : ∀ o', o' = o → (∀ p, o' ≠ .probe p) → (cfg.rcEnabled && !cfg.isFatal e &&
        !s.down && !s.closed) = false → s.watch.Move (s.step cfg (.caught o e)).watch := by
      rintro _ rfl ho hs
      have hw := watch_of_perm ho hperm rfl
      show s.watch.Move (Pool.caught cfg _ e _).watch
      rw [caught_watch e ho, trip_watch, hw]
      split
      · split
        · exact .settle
        · split
          · exact .stay
          · simp_all
      · exact .stay
    cases o with
    | acquire a => exact hother _ rfl (by simp) hs
    | refill w => exact hother _ rfl (by simp) hs
    | probe p =>
      obtain ⟨hp, hw⟩ := land_of_perm hperm rfl
      show s.watch.Move (if _ then _ else _ : Pool).watch
      split
      · have hmove := Watch.Move.landed p hp
        rw [← hw] at hmove
        refine cast ?_ hmove
        congr 1
        show _ = (Pool.watch _).set p .ended
        rw [settleBreaker_watch]
        rfl
      · have hmove := Watch.Move.failed p hp
        rw [← hw] at hmove
        rw [probeTop_watch]
        exact hmove
  | napDone p =>
    simp only [enabled, beq_iff_eq] at he
    exact .nap p he
  | probe p =>
    simp only [enabled, beq_iff_eq] at he
    show s.watch.Move (if _ then _ else _ : Pool).watch
    split
    · next h =>
      rw [openFor_probe_watch]
      simp only [Bool.and_eq_true, Bool.not_eq_true'] at h
      exact .fly p he h.1 h.2
    · next h =>
      simp only [Bool.and_eq_true, Bool.not_eq_true'] at h
      exact .leave p he h
  | release a c => exact giveBack_move cfg s a c
  | cancelSettled c =>
    show s.watch.Move (if _ then _ else _ : Pool).watch
    have hmove : ∀ s' : Pool, s'.watch = s.watch → s.watch.Move (s'.reclaim cfg c).watch :=
      fun s' h => h ▸ reclaim_move cfg s' c
    split
    · exact hmove _ rfl
    · exact .stay
  | rolledBack c => exact checkin_move cfg { s with rolling := s.rolling.erase c } c
  | rollbackFailed c =>
    show s.watch.Move (Pool.refill cfg _).watch
    rw [refill_watch]
    exact .stay
  | idleTimeout c =>
    show s.watch.Move (if _ then _ else _ : Pool).watch
    split <;> exact .stay
  | recoverTimeout | acquireTimeout | submit | serve | answer | cancel | died => exact .stay
  | endPool =>
    show s.watch.Move s.endPool.watch
    rw [endPool_watch]
    exact .close

/-- **A step that starts one.** -/
theorem step_start {e : PoolEvent} (he : s.enabled cfg e = true) (hs : s.starts cfg e = true) :
    s.watch.down = false ∧ s.watch.closed = false ∧ (s.step cfg e).watch = s.watch.start := by
  have hother : ∀ (o : Opener) (e : PoolError), (o, e) ∈ s.catching → (∀ p, o ≠ .probe p) →
      (cfg.rcEnabled && !cfg.isFatal e && !s.down && !s.closed) = true →
      s.down = false ∧ s.closed = false ∧ (s.step cfg (.caught o e)).watch = s.watch.start := by
    intro o e he ho hs
    have hw := watch_of_perm ho (openers_perm_catching he) rfl
    simp only [Bool.and_eq_true, Bool.not_eq_true'] at hs
    obtain ⟨⟨⟨hrc, hfatal⟩, hdown⟩, hclosed⟩ := hs
    refine ⟨hdown, hclosed, ?_⟩
    show (Pool.caught cfg _ e _).watch = _
    rw [caught_watch e ho, trip_watch, hw, if_pos hrc, hfatal]
    show (if (s.down || s.closed) = true then _ else _) = _
    rw [hdown, hclosed]
    rfl
  cases e with
  | caught o e =>
    simp only [enabled, decide_eq_true_eq] at he
    cases o with
    | acquire a => exact hother _ e he (by simp) hs
    | refill w => exact hother _ e he (by simp) hs
    | probe p => cases hs
  | _ => cases hs

/-! ### Runs -/

/-- At most one loop is live, and there is one while the pool is down. -/
structure SingleFlight (s : Pool) : Prop where
  atMostOne : ∀ p q, s.probes p ≠ .ended → s.probes q ≠ .ended → p = q
  probing : s.down = true → s.closed = false → ∃ p, s.probes p ≠ .ended

/-- No loop of an outage before waits for its `open()`, or was woken and has not looked yet. -/
def noneLeft (s : Pool) : Bool :=
  (List.range s.nextProbe).all fun p => s.probes p != .awake && s.probes p != .opening

/-- The breaker trips only when no loop is left. -/
def tripsAlone (cfg : PoolConfig) (s : Pool) (e : PoolEvent) : Prop :=
  s.starts cfg e = true → s.noneLeft = true

instance (s : Pool) (e : PoolEvent) : Decidable (s.tripsAlone cfg e) :=
  inferInstanceAs (Decidable (_ → _))

theorem noneLeft_iff : s.noneLeft = true ↔
    ∀ p, p < s.nextProbe → s.probes p ≠ .awake ∧ s.probes p ≠ .opening := by
  simp [noneLeft]

theorem singleFlight_of_lone {ph : ProbePhase} (h : s.watch.Lone p ph) : SingleFlight s where
  atMostOne _ _ hq hr := (h.eq hq).trans (h.eq hr).symm
  probing hd hc := ⟨p, fun hended => h.live hd hc (h.phase.symm.trans hended)⟩

/-- One loop may be live. -/
def IsLone (s : Pool) : Prop := ∃ p ph, s.watch.Lone p ph

theorem step_lone {e : PoolEvent} (h : IsLone s) (he : s.enabled cfg e = true)
    (hok : s.tripsAlone cfg e) : IsLone (s.step cfg e) := by
  obtain ⟨p, ph, h⟩ := h
  cases hs : s.starts cfg e with
  | false => exact ⟨p, h.moves (step_move he hs)⟩
  | true =>
    obtain ⟨hdown, hclosed, hstart⟩ := step_start he hs
    have hleft := noneLeft_iff.mp (hok hs)
    have hended : ph = .ended := by
      by_contra hph
      have hp := hleft p (h.known hph)
      rw [show s.probes p = ph from h.phase] at hp
      cases ph with
      | napping =>
        rw [(h.napping rfl).1] at hdown
        cases hdown
      | awake => exact hp.1 rfl
      | opening => exact hp.2 rfl
      | ended => exact hph rfl
    subst hended
    rw [IsLone, hstart]
    exact ⟨_, _, h.start hclosed⟩

theorem new_lone : Watch.Lone (watch {}) 0 .ended where
  probes q := by simp [watch]
  known h := absurd rfl h
  nap := rfl
  napping := by simp
  flights q := by simp [watch, openers]
  live h := by cases h

theorem reachable_lone (h : ReachableIf cfg (tripsAlone cfg) s) : SingleFlight s := by
  have hlone : IsLone s := by
    refine Machine.Reach.invariant ?_ ?_ h
    · rintro _ rfl
      exact ⟨0, .ended, new_lone⟩
    · intro s e hs he hok
      exact step_lone hs he hok
  obtain ⟨p, ph, h⟩ := hlone
  exact singleFlight_of_lone h

/-- Two loops are live after a step that trips the breaker too early. -/
theorem tripsAlone_of_flight {e : PoolEvent} (he : s.enabled cfg e = true)
    (hone : SingleFlight (s.step cfg e)) : s.tripsAlone cfg e := by
  intro hs
  obtain ⟨-, hclosed, hstart⟩ := step_start he hs
  have hprobes : (s.step cfg e).probes = Function.update s.probes s.nextProbe .napping := by
    have hp := congrArg Watch.probes hstart
    unfold Watch.start Watch.top at hp
    simp only [hclosed] at hp
    exact hp
  rw [noneLeft_iff]
  intro p hp
  by_contra hleft
  have hne : p ≠ s.nextProbe := hp.ne
  refine hne (hone.atMostOne p s.nextProbe ?_ ?_)
  · rw [hprobes, Function.update_of_ne hne]
    intro hended
    exact hleft (by simp [hended])
  · rw [hprobes, Function.update_self]
    simp

theorem runs_alone (es : List PoolEvent) : ∀ {s : Pool}, (machine cfg).Runs Machine.Free s es →
    (∀ es', es' <+: es → SingleFlight ((machine cfg).exec s es')) →
    (machine cfg).Runs (tripsAlone cfg) s es := by
  induction es with
  | nil => exact fun _ _ => trivial
  | cons e es ih =>
    intro s hruns hflight
    obtain ⟨he, -, hrest⟩ := hruns
    have hstep : SingleFlight (s.step cfg e) := hflight [e] (by simp)
    refine ⟨he, tripsAlone_of_flight he hstep, ih hrest ?_⟩
    intro es' hes'
    exact hflight (e :: es') (by simpa using hes')

/-- **One loop probes**, in every state of a run, exactly when no failed `open()` trips the breaker
while a loop of an outage before has not ended. -/
theorem single_flight_iff {es : List PoolEvent} (h : (machine cfg).Runs Machine.Free {} es) :
    (∀ es', es' <+: es → SingleFlight (run cfg es')) ↔
      (machine cfg).Runs (tripsAlone cfg) {} es := by
  constructor
  · exact runs_alone es h
  · intro halone es' hes'
    exact reachable_lone (reachable_run (halone.initial hes'))

/-- An outage in which a connection fails to open, and the loop succeeds. -/
def oneOutage : List PoolEvent :=
  [.acquire false, .openFailed 0 (.acquire 0) {}, .caught (.acquire 0) {}, .napDone 0, .probe 0,
    .opened 1 (.probe 0)]

theorem single_flight_outage : (machine {}).Runs Machine.Free {} oneOutage ∧
    ∀ es', es' <+: oneOutage → SingleFlight (run {} es') :=
  ⟨by decide, (single_flight_iff (by decide)).mpr (by decide)⟩

/-- A connection comes back while the loop waits for its `open()`.  The next failure starts another
loop, and then the first one goes on. -/
def twoOutages : List PoolEvent :=
  [.acquire false, .opened 0 (.acquire 0), .acquire false, .openFailed 1 (.acquire 1) {},
    .caught (.acquire 1) {}, .napDone 0, .probe 0, .release 0 0, .woken 1, .acquire false,
    .openFailed 3 (.acquire 2) {}, .caught (.acquire 2) {}, .openFailed 2 (.probe 0) {},
    .caught (.probe 0) {}]

theorem single_flight_fails : (machine {}).Runs Machine.Free {} twoOutages ∧
    (run {} twoOutages).down = true ∧ (run {} twoOutages).closed = false ∧
    ¬SingleFlight (run {} twoOutages) := by
  refine ⟨by decide, by decide, by decide, fun h => ?_⟩
  exact absurd (h.atMostOne 0 1 (by decide) (by decide)) (by decide)

end Pool

end Minipg
