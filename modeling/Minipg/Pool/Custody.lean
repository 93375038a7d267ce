import Minipg.Lib.Ledger
import Minipg.Pool.State

/-!
# The pool keeps a ledger

A pool is a keeper of resources: `Pool.ledger` reads a ledger off its state, and every step of
the pool is a sequence of moves of that ledger (`step_moves`).  A connection on its way from one
place to another is in the hand of the code that moves it.

`Allows` says which steps make a slip: `lost` when an acquire timed out while a connection
was opened for it, `excess` when a probe opens one at the maximum, `again` when a checkout that was
released is released again while its connection is out.
-/

namespace Minipg

namespace Pool

def ledger (s : Pool) (h : List ConnId) : Ledger ConnId AcquireId where
  known := {c | c < s.nextConn}
  owned := s.all
  opening := s.opens.map Prod.fst
  idle := s.idle
  out := s.out
  returning := s.draining ++ s.rolling
  loans := s.checkouts
  hand := h

/-! ### What leaves every connection in its place -/

section Frame

variable (cfg : PoolConfig) (s : Pool) (h : List ConnId)

@[simp] theorem setPhase_ledger (a : AcquireId) (ph : AcquirePhase) :
    (s.setPhase a ph).ledger h = s.ledger h := rfl

@[simp] theorem setProbe_ledger (p : ProbeId) (ph : ProbePhase) :
    (s.setProbe p ph).ledger h = s.ledger h := rfl

@[simp] theorem modClient_ledger (c : ConnId) (f : Client → Client) :
    (s.modClient c f).ledger h = s.ledger h := rfl

@[simp] theorem endClient_ledger (c : ConnId) : (s.endClient c).ledger h = s.ledger h := rfl

@[simp] theorem clearIdleTimer_ledger (c : ConnId) :
    (s.clearIdleTimer c).ledger h = s.ledger h := rfl

@[simp] theorem armIdleTimer_ledger (c : ConnId) :
    (s.armIdleTimer cfg c).ledger h = s.ledger h := by
  unfold armIdleTimer
  split <;> rfl

@[simp] theorem rejectWaiter_ledger (e : PoolError) (w : AcquireId) :
    (rejectWaiter e s w).ledger h = s.ledger h := by
  unfold rejectWaiter
  split <;> rfl

theorem foldl_ledger {α : Type} {f : Pool → α → Pool}
    (hf : ∀ s x, (f s x).ledger h = s.ledger h) (l : List α) (s : Pool) :
    (l.foldl f s).ledger h = s.ledger h := by
  induction l generalizing s with
  | nil => rfl
  | cons x l ih => exact (ih (f s x)).trans (hf s x)

@[simp] theorem failWaiters_ledger (e : PoolError) :
    (s.failWaiters e).ledger h = s.ledger h :=
  foldl_ledger h (fun s w => rejectWaiter_ledger s h e w) s.waiters { s with waiters := [] }

@[simp] theorem cancelProbeNap_ledger : s.cancelProbeNap.ledger h = s.ledger h := by
  unfold cancelProbeNap
  split <;> rfl

@[simp] theorem onRecover_ledger (a : AcquireId) : (s.onRecover a).ledger h = s.ledger h := by
  unfold onRecover
  split
  · rfl
  · split <;> rfl

@[simp] theorem wakeRecovered_ledger : s.wakeRecovered.ledger h = s.ledger h :=
  foldl_ledger h (fun s a => onRecover_ledger s h a) s.recovered { s with recovered := [] }

@[simp] theorem settleBreaker_ledger : s.settleBreaker.ledger h = s.ledger h := by
  unfold settleBreaker
  rw [wakeRecovered_ledger, cancelProbeNap_ledger]
  rfl

@[simp] theorem probeTop_ledger (p : ProbeId) : (s.probeTop p).ledger h = s.ledger h := by
  unfold probeTop
  split <;> rfl

@[simp] theorem trip_ledger (e : PoolError) : (s.trip cfg e).ledger h = s.ledger h := by
  unfold trip
  split
  · rw [settleBreaker_ledger]
    rfl
  · split
    · rfl
    · unfold startProbe
      rw [probeTop_ledger]
      rfl

@[simp] theorem waitForFree_ledger (a : AcquireId) :
    (s.waitForFree a).ledger h = s.ledger h := rfl

@[simp] theorem shift_ledger (w : AcquireId) : (s.shift w).ledger h = s.ledger h := by
  unfold shift
  split <;> rfl

@[simp] theorem unshift_ledger (w : AcquireId) : (s.unshift w).ledger h = s.ledger h := by
  unfold unshift
  split <;> rfl

end Frame

/-! ### Opening and lending -/

section Moves

open Ledger

variable {d : Slips} {cfg : PoolConfig} {s : Pool} {h : List ConnId} {c : ConnId}

theorem openFor_moves (o : Opener) (ho : s.all.length < cfg.max ∨ d.excess) :
    Moves d cfg.max (s.ledger h) ((s.openFor cfg o).ledger h) := by
  unfold openFor
  split
  · exact .refl
  · have hfresh : s.nextConn ∉ (s.ledger h).known := fun hm => Nat.lt_irrefl _ hm
    have hmove := Move.opens hfresh ho
    have hknown : insert s.nextConn (s.ledger h).known = {c | c < s.nextConn + 1} := by
      ext c
      exact (Nat.lt_succ_iff_lt_or_eq.trans or_comm).symm
    rw [hknown] at hmove
    have heq : (s.ledger h).opening ++ [s.nextConn] =
        (s.opens ++ [(s.nextConn, o)]).map Prod.fst := by
      rw [List.map_append]
      rfl
    rw [heq] at hmove
    exact .single hmove

theorem pushIdle_moves : Moves d cfg.max (s.ledger (c :: h)) ((s.pushIdle cfg c).ledger h) := by
  unfold pushIdle
  rw [armIdleTimer_ledger]
  exact .single (Move.putIdle rfl)

theorem lend_moves (a : AcquireId) : Moves d cfg.max (s.ledger (c :: h))
    (({ s with out := s.out ++ [c] }.resolve a c).ledger h) :=
  .single (Move.lend a rfl)

theorem resolveWaiter_moves {w : AcquireId} (hw : (s.acquires w).isWaiting ∨ d.lost) :
    Moves d cfg.max (s.ledger (c :: h))
      (({ s with out := s.out ++ [c] }.resolveWaiter w c).ledger h) := by
  unfold resolveWaiter
  split
  · exact lend_moves w
  · rename_i hno
    exact .single (Move.lose (hw.resolve_left hno) rfl)

theorem drop_moves :
    Moves d cfg.max (s.ledger (c :: h)) (({ s with all := s.all.erase c } : Pool).ledger h) :=
  .single (Move.drop rfl)

/-- The last idle connection is taken into the hand. -/
theorem takeLast_moves (hc : s.idle.getLast? = some c) :
    Moves d cfg.max (s.ledger h) (({ s with idle := s.idle.dropLast } : Pool).ledger (c :: h)) := by
  refine .single (Move.takeIdle (l := s.ledger h) ?_)
  have hne : s.idle.dropLast ++ [c] = s.idle := List.dropLast_append_getLast? c hc
  show s.idle.Perm (c :: s.idle.dropLast)
  rw [← hne, List.dropLast_concat]
  exact List.perm_append_singleton c _

/-- What the loop over `idle` does, when its result goes to the acquire `a`. -/
theorem takeIdle_moves (a : AcquireId) (n : Nat) :
    Moves d cfg.max (s.ledger h)
      (match takeIdle n s with
        | (s', some c) => (s'.resolve a c).ledger h
        | (s', none) => s'.ledger h) := by
  induction n generalizing s with
  | zero => exact .refl
  | succ n ih =>
    unfold takeIdle
    cases hc : s.idle.getLast? with
    | none => exact .refl
    | some c =>
      have htake : Moves d cfg.max (s.ledger h)
          (({ s with idle := s.idle.dropLast }.clearIdleTimer c).ledger (c :: h)) :=
        takeLast_moves hc
      dsimp only
      by_cases hclosed : (({ s with idle := s.idle.dropLast }.clearIdleTimer c).clients c).isClosed
      · rw [if_pos hclosed]
        exact (htake.trans drop_moves).trans ih
      · rw [if_neg hclosed]
        exact htake.trans (lend_moves a)

theorem grab_moves (a : AcquireId) : Moves d cfg.max (s.ledger h) ((s.grab cfg a).ledger h) := by
  have htake := @takeIdle_moves d cfg s h a s.idle.length
  unfold grab
  split
  · rename_i hr
    rw [hr] at htake
    exact htake
  · rename_i s' hr
    rw [hr] at htake
    split
    · rename_i hmax
      exact htake.trans (openFor_moves (s := s'.setPhase a .opening) (.acquire a) (.inl hmax))
    · exact htake

theorem acquire_moves (a : AcquireId) (isGuarded : Bool) :
    Moves d cfg.max (s.ledger h) ((s.acquire cfg a isGuarded).ledger h) := by
  unfold acquire
  split
  · exact .refl
  · split
    · exact .refl
    · split
      · exact .refl
      · split
        · exact .refl
        · exact grab_moves a

/-! ### Coming back -/

/-- The waiters that a connection can go to still wait. -/
def Awaiting (d : Slips) (s : Pool) : Prop := ∀ w ∈ s.waiters, (s.acquires w).isWaiting ∨ d.lost

theorem checkin_moves (hw : Awaiting d s) :
    Moves d cfg.max (s.ledger (c :: h)) ((s.checkin cfg c).ledger h) := by
  unfold checkin
  split
  · rw [settleBreaker_ledger]
    exact pushIdle_moves
  · split
    · exact pushIdle_moves
    · rename_i w ws hws
      have hhead := hw w (hws ▸ List.mem_cons_self)
      exact resolveWaiter_moves (s := { s with waiters := ws }) hhead

theorem refillLoop_moves (n : Nat) :
    Moves d cfg.max (s.ledger h) ((refillLoop cfg n s).ledger h) := by
  induction n generalizing s with
  | zero => exact .refl
  | succ n ih =>
    unfold refillLoop
    split
    · exact .refl
    · rename_i w ws _
      split
      · rename_i hmax
        have hshift : (({ s with waiters := ws }.shift w).ledger h) = s.ledger h :=
          shift_ledger _ h w
        have hall : ({ s with waiters := ws }.shift w).all.length < cfg.max :=
          (congrArg (fun l => l.owned.length) hshift).trans_lt hmax
        have hopen := openFor_moves (d := d) (h := h) (.refill w) (.inl hall)
        rw [hshift] at hopen
        exact hopen.trans ih
      · exact .refl

theorem refill_moves : Moves d cfg.max (s.ledger h) ((s.refill cfg).ledger h) := by
  unfold refill
  split
  · exact .refl
  · exact refillLoop_moves _

theorem reclaim_moves (hw : Awaiting d s) :
    Moves d cfg.max (s.ledger (c :: h)) ((s.reclaim cfg c).ledger h) := by
  unfold reclaim
  split
  · exact drop_moves.trans refill_moves
  · split
    · exact drop_moves
    · split
      · refine .single (Move.putReturning rfl ?_)
        show (s.draining ++ (s.rolling ++ [c])).Perm (c :: (s.draining ++ s.rolling))
        rw [← List.append_assoc]
        exact List.perm_append_singleton c _
      · exact checkin_moves hw

theorem discard_moves : Moves d cfg.max (s.ledger (c :: h)) ((s.discard cfg c).ledger h) :=
  drop_moves.trans (refill_moves (s := { s with all := s.all.erase c }.endClient c))

theorem giveBack_moves {a : AcquireId} (hw : Awaiting d s)
    (ha : c ∈ s.out → (a, c) ∈ s.checkouts ∨ d.again) :
    Moves d cfg.max (s.ledger h) ((s.giveBack cfg a c).ledger h) := by
  unfold giveBack release
  split
  · rename_i hc
    have hgive : Moves d cfg.max (s.ledger h) (({ s with
        checkouts := s.checkouts.filter (· ≠ (a, c)), out := s.out.erase c } : Pool).ledger (c :: h)) :=
      .single (Move.giveBack (l := s.ledger h) (ha hc) hc)
    dsimp only
    split
    · refine hgive.tail (Move.putReturning rfl ?_)
      show (s.draining ++ [c] ++ s.rolling).Perm (c :: (s.draining ++ s.rolling))
      rw [List.append_assoc]
      exact List.perm_middle
    · exact hgive.trans (reclaim_moves hw)
  · rename_i hc
    exact .single (Move.forget (l := s.ledger h) hc)

theorem takeRolling_moves (hc : c ∈ s.rolling) : Moves d cfg.max (s.ledger h)
    (({ s with rolling := s.rolling.erase c } : Pool).ledger (c :: h)) := by
  refine .single (Move.takeReturning (l := s.ledger h) ?_)
  have hperm := (List.perm_cons_erase hc).append_left s.draining
  exact hperm.trans List.perm_middle

/-! ### The steps -/

/-- The slips that a step makes are among those of `d`. -/
def Allows (d : Slips) (cfg : PoolConfig) (s : Pool) : PoolEvent → Prop
  | .release a c => c ∈ s.out → (a, c) ∈ s.checkouts ∨ d.again
  | .opened _ (.refill w) => (s.acquires w).isWaiting ∨ d.lost
  | .caught (.refill w) _ => cfg.rcEnabled → (s.acquires w).isWaiting ∨ d.lost
  | .probe _ => s.down && !s.closed → s.all.length < cfg.max ∨ d.excess
  | _ => True

theorem opened_moves {o : Opener} (ho : ∀ w, o = .refill w → (s.acquires w).isWaiting ∨ d.lost) :
    Moves d cfg.max (s.ledger (c :: h)) ((s.opened cfg c o).ledger h) := by
  unfold opened
  split
  · exact lend_moves _
  · exact resolveWaiter_moves (ho _ rfl)
  · rw [setProbe_ledger, settleBreaker_ledger]
    exact pushIdle_moves (s := { s with lastProbeError := none })

theorem caught_moves (e : PoolError) (o : Opener) :
    Moves d cfg.max (s.ledger h) ((s.caught cfg e o).ledger h) := by
  unfold caught
  split
  · split
    · dsimp only
      split
      · rw [setPhase_ledger, trip_ledger]
      · have hmoves := @acquire_moves d cfg (s.trip cfg e) h ‹_› false
        rw [trip_ledger] at hmoves
        exact hmoves
    · exact .refl
  · split
    · dsimp only
      split
      · rw [failWaiters_ledger, trip_ledger, unshift_ledger]
      · rw [trip_ledger, unshift_ledger]
    · rw [rejectWaiter_ledger]
  · dsimp only
    split
    · rw [setProbe_ledger, settleBreaker_ledger]
      exact .refl
    · rw [probeTop_ledger]
      exact .refl

theorem endPool_moves : Moves d cfg.max (s.ledger h) (s.endPool.ledger h) := by
  unfold endPool
  dsimp only
  rw [foldl_ledger h fun s c => endClient_ledger s h c]
  have hquiet : (({ s with closed := true }.cancelProbeNap.failWaiters poolEnded).wakeRecovered).ledger
      h = s.ledger h := by
    rw [wakeRecovered_ledger, failWaiters_ledger, cancelProbeNap_ledger]
    rfl
  rw [← hquiet]
  exact .single Move.clear

/-- Every member of a list that is erased from it was there. -/
theorem map_perm_of_mem {o : Opener} (hc : (c, o) ∈ s.opens) :
    (s.opens.map Prod.fst).Perm (c :: (s.opens.erase (c, o)).map Prod.fst) :=
  (List.perm_cons_erase hc).map Prod.fst

/-- **Every step of the pool is a sequence of moves of its ledger.** -/
theorem step_moves {e : PoolEvent} (hw : Awaiting d s) (he : s.enabled cfg e)
    (hok : Allows d cfg s e) :
    Moves d cfg.max (s.ledger []) ((s.step cfg e).ledger []) := by
  cases e with
  | acquire isGuarded =>
    exact acquire_moves (s := { s with nextAcquire := s.nextAcquire + 1 }) s.nextAcquire isGuarded
  | woken a => exact grab_moves a
  | recoverTimeout | acquireTimeout | napDone | submit | serve | answer | cancel | died => exact .refl
  | opened c o =>
    simp only [enabled, decide_eq_true_eq] at he
    have hopen : Moves d cfg.max (s.ledger [])
        (({ s with opens := s.opens.erase (c, o) } : Pool).ledger [c]) :=
      .single (Move.opened (map_perm_of_mem he))
    refine hopen.trans (opened_moves (s := { s with opens := s.opens.erase (c, o) }) ?_)
    rintro w rfl
    exact hok
  | openFailed c o e =>
    simp only [enabled, decide_eq_true_eq] at he
    have hopen : Moves d cfg.max (s.ledger [])
        (({ s with opens := s.opens.erase (c, o) } : Pool).ledger [c]) :=
      .single (Move.opened (map_perm_of_mem he))
    exact hopen.trans drop_moves
  | caught o e => exact caught_moves (s := { s with catching := s.catching.erase (o, e) }) e o
  | probe p =>
    show Moves d cfg.max _ ((if _ then _ else _ : Pool).ledger [])
    split
    · rename_i hlive
      exact openFor_moves (s := s.setProbe p .opening) _ (hok hlive)
    · exact .refl
  | release a c => exact giveBack_moves hw hok
  | cancelSettled c =>
    show Moves d cfg.max _ ((if _ then _ else _ : Pool).ledger [])
    split
    · rename_i hc
      have htake : Moves d cfg.max (s.ledger [])
          (({ s with draining := s.draining.erase c } : Pool).ledger [c]) := by
        refine .single (Move.takeReturning (l := s.ledger []) ?_)
        exact (List.perm_cons_erase hc).append_right s.rolling
      exact htake.trans (reclaim_moves (s := { s.modClient c fun k => { k with isCanceling := false } with
        draining := s.draining.erase c }) hw)
    · exact .refl
  | rolledBack c =>
    simp only [enabled, Bool.and_eq_true, decide_eq_true_eq] at he
    exact (takeRolling_moves he.1).trans (checkin_moves hw)
  | rollbackFailed c =>
    simp only [enabled, decide_eq_true_eq] at he
    exact (takeRolling_moves he).trans discard_moves
  | idleTimeout c =>
    show Moves d cfg.max _ ((if _ then _ else _ : Pool).ledger [])
    split
    · rename_i hc
      have htake : Moves d cfg.max (s.ledger [])
          (({ s with idle := s.idle.erase c } : Pool).ledger [c]) :=
        .single (Move.takeIdle (l := s.ledger []) (List.perm_cons_erase hc))
      exact htake.trans drop_moves
    · exact .refl
  | endPool => exact endPool_moves

end Moves

end Pool

end Minipg
