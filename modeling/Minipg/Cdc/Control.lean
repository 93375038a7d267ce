import Minipg.Cdc.Step

/-!
# The plain steps of a session

Most of what `run` does between two waits decides only where it waits next.  `Plain s s'` says
that nothing else has changed that matters to a baseline or to a batch: the slot, the calls of the
consumer, the acknowledgements and `doStop` are the same, and `run` waits neither in the window of
a new slot nor for the handler of a batch.  Every way out of a session is plain.
-/

namespace Minipg

namespace Cdc

/-- A handler is called after the window. -/
theorem batchOf_window {a : Await} {b : Batch} (h : batchOf a = some b) : windowOf a = none := by
  cases a with
  | calling k => cases k <;> first | rfl | exact nomatch h
  | pending k i => cases k <;> first | rfl | exact nomatch h
  | handlerDelay => rfl
  | handlerSleep => rfl
  | _ => exact nomatch h

theorem windowOf_batch {a : Await} {n : CreationId} (h : windowOf a = some n) :
    batchOf a = none := by
  cases hb : batchOf a with
  | none => rfl
  | some b => exact nomatch (batchOf_window hb).symm.trans h

/-- `run` waits neither in a window nor for a handler. -/
def isPlain (a : Await) : Bool := (windowOf a).isNone && (batchOf a).isNone

/-- What a control step leaves alone. -/
structure Control (s s' : Cdc) : Prop where
  stopping : s'.stopping = s.stopping
  repl : s'.repl = s.repl
  handling : s'.handling = s.handling
  current : s'.current = s.current
  pendingAckLsn : s'.pendingAckLsn = s.pendingAckLsn
  stopAt : s'.stopAt = s.stopAt
  results : s'.results = s.results
  nextCall : s'.nextCall = s.nextCall
  slot : s'.slot = s.slot
  baselines : s'.baselines = s.baselines
  calls : s'.calls = s.calls
  acks : s'.acks = s.acks
  starts : s'.starts = s.starts

theorem Control.refl (s : Cdc) : Control s s := by
  constructor <;> rfl

theorem Control.trans {s s' s'' : Cdc} (h : Control s s') (g : Control s' s'') : Control s s'' :=
  ⟨g.stopping.trans h.stopping, g.repl.trans h.repl, g.handling.trans h.handling, g.current.trans h.current,
    g.pendingAckLsn.trans h.pendingAckLsn, g.stopAt.trans h.stopAt, g.results.trans h.results,
    g.nextCall.trans h.nextCall, g.slot.trans h.slot, g.baselines.trans h.baselines,
    g.calls.trans h.calls, g.acks.trans h.acks, g.starts.trans h.starts⟩

/-- No callback is pending, and no window open. -/
structure Plain (s s' : Cdc) : Prop where
  control : Control s s'
  plain : isPlain s'.runAt = true
  idle : ∀ k i, s'.runAt ≠ .pending k i

variable {o : ReplicateOptions} {s s' : Cdc}

theorem Plain.after {t : Cdc} (h : Plain s' t) (g : Control s s') : Plain s t :=
  ⟨g.trans h.control, h.plain, h.idle⟩

/-! ### The ways out -/

theorem settleReady_control (s : Cdc) (r : Option CdcError) : Control s (s.settleReady r) := by
  constructor <;> rfl

theorem fireFatal_control (o : ReplicateOptions) (s : Cdc) (e : CdcError) :
    Control s (s.fireFatal o e) := by
  unfold fireFatal
  split <;> constructor <;> rfl

theorem giveUp_control (o : ReplicateOptions) (s : Cdc) (e : CdcError) :
    Control s (s.giveUp o e) := by
  have h := fireFatal_control o s e
  exact ⟨h.stopping, h.repl, h.handling, h.current, h.pendingAckLsn, h.stopAt, h.results, h.nextCall,
    h.slot, h.baselines, h.calls, h.acks, h.starts⟩

theorem giveUp_plain (o : ReplicateOptions) (s : Cdc) (e : CdcError) : Plain s (s.giveUp o e) :=
  ⟨giveUp_control o s e, rfl, fun _ _ h => nomatch h⟩

theorem catchSession_plain (o : ReplicateOptions) (s : Cdc) (e : CdcError) :
    Plain s (s.catchSession o e) := by
  unfold catchSession
  split
  · exact ⟨by constructor <;> rfl, rfl, fun _ _ h => nomatch h⟩
  · dsimp only
    split
    · exact (giveUp_plain o _ _).after (settleReady_control s _)
    · exact ⟨by constructor <;> rfl, rfl, fun _ _ h => nomatch h⟩

/-- A stopped session is over. -/
theorem catchSession_stopping (o : ReplicateOptions) (h : s.stopping = true) (e : CdcError) :
    (s.catchSession o e).runAt = .done := by
  unfold catchSession
  rw [if_pos h]

/-- After the failure of a session with `e` there is another one, unless `retryDelayMs` is against
it. -/
def survives (o : ReplicateOptions) (s : Cdc) (e : CdcError) : Bool :=
  !s.stopping && !(isPermanentFailure (sessionError o e) && !o.isRecreatable (sessionError o e))

theorem catchSession_done (e : CdcError) (h : survives o s e = false) :
    (s.catchSession o e).runAt = .done := by
  unfold catchSession
  by_cases hs : s.stopping
  · rw [if_pos hs]
  · have hperm : (isPermanentFailure (sessionError o e) &&
        !o.isRecreatable (sessionError o e)) = true := by
      simpa [survives, hs] using h
    rw [if_neg hs]
    dsimp only
    rw [if_pos hperm]
    rfl

theorem unlessStopping_plain {next : Cdc} (h : Plain s next) : Plain s (s.unlessStopping o next) := by
  unfold unlessStopping
  split
  · exact catchSession_plain o s _
  · exact h

/-- Stopped, or at the next wait. -/
theorem unlessStopping_runAt (o : ReplicateOptions) (s next : Cdc) :
    (s.unlessStopping o next).runAt = .done ∧ s.stopping = true ∨
      s.unlessStopping o next = next := by
  unfold unlessStopping
  split
  · rename_i h
    exact .inl ⟨catchSession_stopping o h _, h⟩
  · exact .inr rfl

theorem unlessStopping_control {next : Cdc} (h : Control s next) :
    Control s (s.unlessStopping o next) := by
  unfold unlessStopping
  split
  · exact (catchSession_plain o s _).control
  · exact h

/-- `run` waits somewhere else. -/
theorem moved_plain {a : Await} (h : isPlain a = true) (hi : ∀ k i, a ≠ .pending k i) :
    Plain s { s with runAt := a } :=
  ⟨by constructor <;> rfl, h, hi⟩

/-! ### The slot -/

theorem connect_plain (s : Cdc) : Plain s s.connect :=
  ⟨by constructor <;> rfl, rfl, fun _ _ h => nomatch h⟩

theorem beginSlot_plain (s : Cdc) : Plain s s.beginSlot := by
  unfold beginSlot
  split <;> exact ⟨by constructor <;> rfl, rfl, fun _ _ h => nomatch h⟩

theorem durableFailed_plain (o : ReplicateOptions) (s : Cdc) (e : CdcError) :
    Plain s (s.durableFailed o e) := by
  unfold durableFailed
  split
  · have hset : Control s { s with recreate := some e } := by constructor <;> rfl
    exact unlessStopping_plain ((beginSlot_plain _).after hset)
  · exact catchSession_plain o s e

theorem beginSession_plain (o : ReplicateOptions) (s : Cdc) : Plain s (s.beginSession o) := by
  unfold beginSession
  split
  · exact moved_plain rfl fun _ _ h => nomatch h
  · exact unlessStopping_plain (beginSlot_plain s)

theorem identified_plain (o : ReplicateOptions) (name : String) (s : Cdc) (system : String × Nat) :
    Plain s (s.identified o name system) := by
  have hset : Control s { s with lastSystem := some system } := by constructor <;> rfl
  unfold identified
  split
  · exact durableFailed_plain o s _
  · dsimp only
    split
    · exact (durableFailed_plain o _ _).after hset
    · refine Plain.after (moved_plain rfl ?_) hset
      intro _ _ h
      cases h

theorem resume_plain (o : ReplicateOptions) (s : Cdc) (r : Resumed) : Plain s (s.resume o r) := by
  unfold resume
  refine unlessStopping_plain ?_
  split
  · exact moved_plain rfl fun _ _ h => nomatch h
  · exact moved_plain rfl fun _ _ h => nomatch h

theorem readHealth_plain (o : ReplicateOptions) (name : String) (s : Cdc) (evictions : Nat)
    (row : Option SlotHealthRow) : Plain s (s.readHealth o name evictions row) := by
  have hsaw : Control s { s with sawSlot := true } := by constructor <;> rfl
  unfold readHealth
  split
  · exact durableFailed_plain o s _
  · split
    · split
      · exact durableFailed_plain o s _
      · exact unlessStopping_plain (beginSlot_plain s)
    · dsimp only
      split
      · exact (durableFailed_plain o _ _).after hsaw
      · split
        · exact (durableFailed_plain o _ _).after hsaw
        · split
          · split
            · exact (durableFailed_plain o _ _).after hsaw
            · split
              · exact (durableFailed_plain o _ _).after hsaw
              · refine Plain.after (moved_plain rfl ?_) hsaw
                intro _ _ h
                cases h
          · exact (resume_plain o _ _).after hsaw

theorem polled_plain (o : ReplicateOptions) (name : String) (s : Cdc) (evictions : Nat) (pid : Pid)
    (isActive : Option Bool) (isPastDeadline : Bool) :
    Plain s (s.polled o name evictions pid isActive isPastDeadline) := by
  unfold polled
  split
  · exact durableFailed_plain o s _
  · split
    · exact durableFailed_plain o s _
    · exact moved_plain rfl fun _ _ h => nomatch h
  · split
    · exact durableFailed_plain o s _
    · exact moved_plain rfl fun _ _ h => nomatch h

theorem dropped_plain (o : ReplicateOptions) (s : Cdc) : Plain s (s.dropped o) :=
  unlessStopping_plain (moved_plain rfl fun _ _ h => nomatch h)

theorem dropFailed_plain (o : ReplicateOptions) (s : Cdc) (e : CdcError) (isPastDeadline : Bool) :
    Plain s (s.dropFailed o e isPastDeadline) := by
  unfold dropFailed
  split
  · exact dropped_plain o s
  · split
    · exact moved_plain rfl fun _ _ h => nomatch h
    · exact catchSession_plain o s e

theorem connected_plain (o : ReplicateOptions) (s : Cdc) : Plain s.openRepl (s.connected o) := by
  unfold connected
  refine unlessStopping_plain ?_
  split
  · have hset : Control s.openRepl { s.openRepl with derivedKeepAlive := true } := by
      constructor <;> rfl
    exact (beginSession_plain o _).after hset
  · exact moved_plain rfl fun _ _ h => nomatch h

theorem probed_plain (o : ReplicateOptions) (s : Cdc) (ms : Option Nat) : Plain s (s.probed o ms) := by
  unfold probed
  refine unlessStopping_plain ?_
  split
  · exact moved_plain rfl fun _ _ h => nomatch h
  · have hset : Control s { s with
        derivedKeepAlive := ms == some 0 && !o.setsKeepAlive } := by constructor <;> rfl
    exact (beginSession_plain o _).after hset

theorem failed_plain (o : ReplicateOptions) (s : Cdc) (e : CdcError) : Plain s (s.failed o e) := by
  unfold failed
  split
  · exact durableFailed_plain o s e
  · exact durableFailed_plain o s e
  · exact durableFailed_plain o s e
  · exact durableFailed_plain o s _
  · exact catchSession_plain o s e

theorem delayed_plain {next : Await} (h : isPlain next = true) (hi : ∀ k i, next ≠ .pending k i)
    (d : Option Nat) (e : CdcError) : Plain s (s.delayed o d e next) := by
  unfold delayed
  split
  · exact giveUp_plain o s e
  · exact moved_plain h hi

/-- Given up, or at the next wait. -/
theorem delayed_cases (o : ReplicateOptions) (s : Cdc) (d : Option Nat) (e : CdcError)
    (next : Await) : Control s (s.delayed o d e next) ∧
      ((s.delayed o d e next).runAt = .done ∧ d = none ∨ (s.delayed o d e next).runAt = next) := by
  unfold delayed
  split
  · exact ⟨giveUp_control o s e, .inl ⟨rfl, rfl⟩⟩
  · exact ⟨by constructor <;> rfl, .inr rfl⟩

/-! ### Callbacks -/

/-- `run` after `onResume`. -/
theorem resumeDone_plain (o : ReplicateOptions) (s : Cdc) (isRecreate : Bool) (r : Resumed) :
    Plain s (s.callbackDone o isRecreate (.onResume r)) := by
  show Plain s (if _ then _ else _)
  split
  · have hset : Control s { s with recreate := some recreateVerdict } := by constructor <;> rfl
    exact (beginSlot_plain _).after hset
  · exact moved_plain rfl fun _ _ h => nomatch h

/-- A new slot: `run` is in its window, or at its end. -/
theorem created_cases (o : ReplicateOptions) (s : Cdc) : Control (s.createSlot o) (s.created o) ∧
    ((s.created o).runAt = .done ∨ (s.created o).runAt = .calling (.backfill s.nextCreation)) := by
  have hsaw : Control (s.createSlot o) { s.createSlot o with
      sawSlot := s.sawSlot || o.durableName.isSome } := by constructor <;> rfl
  unfold created
  dsimp only
  refine ⟨?_, ?_⟩
  · refine hsaw.trans (unlessStopping_control ?_)
    constructor <;> rfl
  · refine (unlessStopping_runAt o _ _).imp (fun h => h.1) fun h => ?_
    rw [h]

/-- A batch: its handler is called, or the run is at its end. -/
theorem receiveBatch_cases (o : ReplicateOptions) (s : Cdc) (b : Batch) :
    Control s (s.receiveBatch o b) ∧ (s.receiveBatch o b).runAt = .done ∨
      s.receiveBatch o b = { s with
        handling := true
        pendingAckLsn := b.done
        calls := s.calls ++ s.repl.toList.map fun r => { repl := r, batch := b }
        runAt := .calling (.onTransaction b) } := by
  unfold receiveBatch unlessStopping
  split
  · rename_i hs
    exact .inl ⟨(catchSession_plain o s stopError).control, catchSession_stopping o hs stopError⟩
  · exact .inr rfl

/-- What `ackPending` acknowledges. -/
def acked (s : Cdc) : List (ReplId × Lsn) :=
  match s.repl, s.pendingAckLsn with
  | some r, some lsn => [(r, lsn)]
  | _, _ => []

theorem ackPending_eq :
    ∀ s : Cdc, s.ackPending = { s with acks := s.acks ++ s.acked, pendingAckLsn := none }
  | { repl := some _, pendingAckLsn := some _, .. } => rfl
  | { repl := none, pendingAckLsn := some _, .. } => by simp [ackPending, ack, acked]
  | { repl := some _, pendingAckLsn := none, .. } => by simp [ackPending, acked]
  | { repl := none, pendingAckLsn := none, .. } => by simp [ackPending, acked]

/-- After the handler of a batch. -/
theorem handlerDone_eq (s : Cdc) : ∃ n, s.handlerDone = { s with
    acks := s.acks ++ s.acked, pendingAckLsn := none, attempt := n, handling := false
    runAt := .streaming } := by
  unfold handlerDone
  dsimp only
  by_cases hp : s.pendingAckLsn.isSome
  · rw [if_pos hp, ackPending_eq]
    exact ⟨0, rfl⟩
  · have hnone : s.pendingAckLsn = none := Option.not_isSome_iff_eq_none.mp hp
    have hnil : s.acked = [] := by
      unfold acked
      rw [hnone]
      cases s.repl <;> rfl
    rw [if_neg hp, hnil, List.append_nil, ← hnone]
    exact ⟨s.attempt, rfl⟩

end Cdc

end Minipg
