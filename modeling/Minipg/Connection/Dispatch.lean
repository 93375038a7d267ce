import Minipg.Connection.Callbacks
import Minipg.Connection.Desk

/-!
# No queued task is stranded

A task stays in the queue of a ready connection only while somebody is going to call
`processQueue`: a task is in flight, the current socket is to drain, or a pending cancel is
to be answered or given up.  `attended` proves it of every run in which two things do not
happen.

The listeners that `flushWrites` leaves on a socket clear the one gate of the connection.
When the socket ends they do so without looking whether it is still the current one, and
without running the queue: `strands` is the moment where this leaves tasks behind.  And a
socket of an attempt that was superseded must not end the attempt that runs: the gate of a
connection without a socket is nobody's to open.
-/

namespace Minipg

/-- The answer to the cancel request, or its timer, is still to come. -/
def PendingCancel.isOutstanding (r : PendingCancel) : Bool :=
  !r.isConfirmed && !r.hasFailed || r.timer

namespace Conn

open Desk

variable {cfg : Config}

/-- Somebody is going to run the queue. -/
def isAttended (c : Conn) : Bool :=
  !c.inflight.isEmpty ||
    c.writeBackedUp && c.socket.any (fun s => decide (s ∈ c.drainWaiters)) ||
    c.pendingCancel.any (fun p => (c.cancels p).isOutstanding)

/-- A ready connection does not leave its queue alone. -/
def Attended (c : Conn) : Prop := c.state = .ready → c.queue ≠ [] → c.isAttended = true

/-- The queue waits for the drain of a socket only. -/
def waitsForDrain (c : Conn) : Bool :=
  c.state == .ready && !c.queue.isEmpty && c.inflight.isEmpty && c.pendingCancel.isNone

/-- The end of a socket with listeners of `flushWrites` on it clears the gate, and leaves the
connection ready. -/
def strands (c : Conn) : Event → Bool
  | .socketError s => decide (s ∈ c.drainWaiters) && c.waitsForDrain
  | .socketClose s _ =>
    decide (s ∈ c.drainWaiters) && c.waitsForDrain && !(c.socket == some s)
  | _ => false

/-- A socket is heard by an attempt that has none yet. -/
def overhears (c : Conn) : Event → Bool
  | .data _ _ => c.connecting && c.socket.isNone
  | _ => false

/-- What holds between the callbacks. -/
structure Staffed (c : Conn) : Prop where
  manned : c.desk.Manned none
  served : c.desk.Served

theorem staffed_new : Staffed {} where
  manned := {
    gate := by intro _ h; cases h
    idle := by intro h; cases h
    housed := by intro h; cases h
    cancel := by intro _ h; cases h }
  served := .of_not_ready (by simp [desk])

/-- A staffed connection attends to its queue. -/
theorem Staffed.attends {c : Conn} (h : Staffed c) : c.Attended := by
  intro hr hq
  unfold isAttended
  by_cases hi : c.inflight = []
  · rcases h.served.queued hr hq with hn | hb | hp
    · exact absurd hi hn
    · cases hs : c.socket with
      | none => exact absurd hs (h.manned.housed hr)
      | some s =>
        have hw : s ∈ c.drainWaiters := h.manned.gate s hs hb
        have hb : c.writeBackedUp = true := hb
        simp [hb, hw]
    · cases hc : c.pendingCancel with
      | none => exact absurd hc hp
      | some p =>
        rcases h.manned.cancel p hc with ⟨t, -, ht | ht⟩ | ⟨-, hret | hw⟩
        · have ht : t ∈ c.inflight := ht
          rw [hi] at ht
          cases ht
        · cases ht
        · exact absurd hi (h.served.retiring hr hret)
        · have hw : (c.cancels p).isWaiting = true := hw
          simp only [PendingCancel.isWaiting, Bool.and_eq_true] at hw
          simp [PendingCancel.isOutstanding, hw.2]
  · simp [hi]

/-- Nothing that the gates look at has changed. -/
theorem Staffed.same {c c' : Conn} (h : Staffed c) (hd : c'.desk = c.desk) : Staffed c' := by
  refine ⟨?_, ?_⟩
  · rw [hd]
    exact h.manned
  · rw [hd]
    exact h.served

theorem staffed_processQueue {c : Conn} (hm : c.desk.Manned none) : Staffed (c.processQueue cfg) := by
  obtain ⟨hm', hs, -⟩ := @processQueue_manned cfg _ _ hm
  exact ⟨hm', hs⟩

/-! ### The end of a task -/

theorem checkLateCancel_desk (c : Conn) (t : TaskId) (late : LateCancel) :
    (c.checkLateCancel t late).desk = c.desk ∨ ∃ cancels, (c.checkLateCancel t late).desk =
      { c.desk with cancels := cancels, pendingCancel := none, isRetiring := false } := by
  unfold checkLateCancel
  dsimp only
  split
  · split
    · obtain ⟨cancels, h⟩ := clearPendingCancel_desk (c.markLateCancel t)
      exact .inr ⟨cancels, h⟩
    · exact .inl rfl
  · exact .inl rfl

theorem noteLate_desk (c : Conn) (t : TaskId) : (c.noteLate t).desk = c.desk ∨
    ∃ cancels, (c.noteLate t).desk =
      { c.desk with cancels := cancels, pendingCancel := none, isRetiring := false } := by
  unfold noteLate
  split
  · split
    · exact checkLateCancel_desk ..
    · exact .inl rfl
  · exact .inl rfl

/-- A canceled head that ended: the connection retires or runs its queue, or goes on waiting. -/
theorem resolveCanceledHead_manned {c : Conn} {p : CancelId} {held : Option TaskId}
    (hg : c.desk.Gated) (hp : c.pendingCancel = some p) (hh : (c.cancels p).head = none) :
    ((c.resolveCanceledHead cfg p).desk.Manned held ∧
        (c.resolveCanceledHead cfg p).desk.Served ∧
        c.desk.Stays (c.resolveCanceledHead cfg p).desk) ∨
      c.resolveCanceledHead cfg p = c ∧ (c.isRetiring = true ∨
        (c.cancels p).isConfirmed = false ∧ (c.cancels p).hasFailed = false) := by
  unfold resolveCanceledHead
  split
  · rename_i hr
    exact .inr ⟨rfl, .inl hr⟩
  · split
    · have hr : ({ c with isRetiring := true } : Conn).desk.Gated := hg.same rfl rfl rfl rfl rfl
      refine .inl (processQueue_manned ⟨hr, fun q hq => ?_⟩)
      rw [Option.some.inj (hq.symm.trans hp)]
      exact .inr ⟨hh, .inl rfl⟩
    · rename_i hf
      split
      · obtain ⟨cancels, hc⟩ := clearPendingCancel_desk c
        have hcl : c.clearPendingCancel.desk.Manned held := by
          rw [hc]
          exact hg.clear cancels
        have hpq := @processQueue_manned cfg _ _ hcl
        rw [hc] at hpq
        exact .inl hpq
      · rename_i hcf
        simp only [Bool.or_eq_true, not_or, Bool.not_eq_true] at hf hcf
        exact .inr ⟨rfl, .inr ⟨hcf, hf.1⟩⟩

/-- The timer of a pending cancel is set. -/
theorem armCancel_manned {c : Conn} {held : Option TaskId} (hm : c.desk.Manned held) (p : CancelId) :
    (c.setCancel p fun r => { r with timer := true }).desk.Manned held := by
  refine ⟨hm.toGated.same rfl rfl rfl rfl rfl, fun q hq => ?_⟩
  have hkeep : ∀ r : PendingCancel, r.isWaiting = true →
      ({ r with timer := true } : PendingCancel).isWaiting = true := by
    intro r hr
    simp only [PendingCancel.isWaiting, Bool.and_eq_true] at hr ⊢
    exact ⟨hr.1, trivial⟩
  have hold := hm.cancel q hq
  unfold Awaits at hold ⊢
  by_cases hqp : q = p
  · subst hqp
    simp only [desk, setCancel, Function.update_self] at hold ⊢
    rcases hold with h | ⟨h, hr | hr⟩
    · exact .inl h
    · exact .inr ⟨h, .inl hr⟩
    · exact .inr ⟨h, .inr (hkeep _ hr)⟩
  · simp only [desk, setCancel, Function.update_of_ne hqp] at hold ⊢
    exact hold

theorem noteSuspects_desk (c : Conn) (t : TaskId) (p : CancelId) : (c.noteSuspects t p).desk =
    { c.desk with
      cancels := Function.update c.cancels p { c.cancels p with head := none } } := by
  obtain ⟨_, h, -⟩ := noteSuspects_shape c t p
  rw [h]
  rfl

/-- **The canceled head ends**: from now on the cancel waits for its answer or its timer. -/
theorem endCanceledHead_manned {c : Conn} {t : TaskId} {p : CancelId}
    (hm : c.desk.Manned (some t)) (hp : c.pendingCancel = some p) :
    (c.endCanceledHead cfg t p).desk.Manned none ∧
      c.desk.Stays (c.endCanceledHead cfg t p).desk := by
  have hd := noteSuspects_desk c t p
  unfold endCanceledHead
  dsimp only
  generalize c.noteSuspects t p = c' at hd ⊢
  have hg : c'.desk.Gated := by
    rw [hd]
    exact hm.toGated.same rfl rfl rfl rfl rfl
  have hst : c.desk.Stays c'.desk := .of_eq (by rw [hd]) (by rw [hd])
  have hp' : c'.pendingCancel = some p := (congrArg Desk.pendingCancel hd).trans hp
  have hh : (c'.cancels p).head = none := by
    have hc : c'.cancels = Function.update c.cancels p { c.cancels p with head := none } :=
      congrArg Desk.cancels hd
    rw [hc, Function.update_self]
  split
  · rename_i hr
    refine ⟨⟨hg, fun q hq => ?_⟩, hst⟩
    rw [Option.some.inj (hq.symm.trans hp')]
    exact .inr ⟨hh, .inl hr⟩
  · rename_i hr
    split
    · obtain ⟨cancels, hc⟩ := clearPendingCancel_desk c'
      rw [hc]
      exact ⟨hg.clear cancels, hst⟩
    · rcases @resolveCanceledHead_manned cfg c' p none hg hp' hh with ⟨hm', -, hst'⟩ | ⟨heq, hw⟩
      · split
        · exact ⟨armCancel_manned hm' p, hst.trans hst'⟩
        · exact ⟨hm', hst.trans hst'⟩
      · rw [heq, if_pos ⟨hp', hr⟩]
        refine ⟨?_, hst⟩
        have hg' : (c'.setCancel p fun r => { r with timer := true }).desk.Gated :=
          hg.same rfl rfl rfl rfl rfl
        refine ⟨hg', fun q hq => ?_⟩
        rw [Option.some.inj (hq.symm.trans hp')]
        obtain ⟨hcf, hf⟩ := hw.resolve_left hr
        refine .inr ?_
        simp [desk, setCancel, PendingCancel.isWaiting, hh, hcf, hf]

theorem noteLate_manned {c : Conn} {t : TaskId} (hm : c.desk.Manned (some t)) :
    (c.noteLate t).desk.Manned (some t) ∧ c.desk.Stays (c.noteLate t).desk := by
  rcases noteLate_desk c t with h | ⟨cancels, h⟩
  · rw [h]
    exact ⟨hm, .refl _⟩
  · rw [h]
    exact ⟨hm.toGated.clear cancels, .of_eq rfl rfl⟩

theorem noteEnded_manned {c : Conn} {t : TaskId} (hm : c.desk.Manned (some t)) :
    (c.noteEnded cfg t).desk.Manned none ∧ c.desk.Stays (c.noteEnded cfg t).desk := by
  obtain ⟨hl, hst⟩ := noteLate_manned hm
  unfold noteEnded
  dsimp only
  generalize c.noteLate t = c' at hl hst ⊢
  cases hp : c'.pendingCancel with
  | none =>
    refine ⟨⟨hl.toGated, fun q hq => ?_⟩, hst⟩
    have hq : c'.pendingCancel = some q := hq
    rw [hp] at hq
    cases hq
  | some p =>
    dsimp only
    split
    · obtain ⟨hm', hst'⟩ := @endCanceledHead_manned cfg _ _ _ hl hp
      exact ⟨hm', hst.trans hst'⟩
    · rename_i hh
      refine ⟨⟨hl.toGated, fun q hq => ?_⟩, hst⟩
      have hqp : q = p := Option.some.inj (hq.symm.trans hp)
      rcases hl.cancel q hq with ⟨t', ht', hi | hi⟩ | hw
      · exact .inl ⟨t', ht', .inl hi⟩
      · rw [hqp, ← Option.some.inj hi] at ht'
        exact absurd ht' hh
      · exact .inr hw

theorem noteParseFailure_desk (c : Conn) (t : TaskId) : (c.noteParseFailure t).desk = c.desk := by
  obtain ⟨_, _, h⟩ := noteParseFailure_shape c t
  rw [h]
  rfl

theorem dropInvalidated_desk (c : Conn) (t : TaskId) : (c.dropInvalidated t).desk = c.desk := by
  obtain ⟨_, _, h⟩ := dropInvalidated_shape c t
  rw [h]
  rfl

theorem settleFinished_desk (c : Conn) (t : TaskId) :
    ((c.clearTimers t).settleFinished t).desk = c.desk := by
  obtain ⟨_, _, h, -⟩ := settleFinished_shape (c.clearTimers t) t
  rw [h]
  rfl

/-- **A task ends**, and the queue is run. -/
theorem finishTask_staffed {c : Conn} (hm : c.desk.Manned none) :
    Staffed (c.finishTask cfg) ∧ c.desk.Stays (c.finishTask cfg).desk := by
  unfold finishTask
  cases hi : c.inflight with
  | nil =>
    obtain ⟨hm', hs, hst⟩ := @processQueue_manned cfg _ _ hm
    exact ⟨⟨hm', hs⟩, hst⟩
  | cons t rest =>
    dsimp only
    have hpop : (c.popHead t rest).desk.Manned (some t) := by
      refine ⟨hm.toGated.same rfl rfl rfl rfl rfl, fun q hq => ?_⟩
      rcases hm.cancel q hq with ⟨t', ht', h | h⟩ | hw
      · have h : t' ∈ c.inflight := h
        rw [hi] at h
        rcases List.mem_cons.mp h with rfl | h
        · exact .inl ⟨t', ht', .inr rfl⟩
        · exact .inl ⟨t', ht', .inl h⟩
      · cases h
      · exact .inr hw
    obtain ⟨he, hst⟩ := @noteEnded_manned cfg _ _ hpop
    have hst : c.desk.Stays ((c.popHead t rest).noteEnded cfg t).desk := hst
    generalize (c.popHead t rest).noteEnded cfg t = c' at he hst ⊢
    have hd : ((c'.noteParseFailure t).dropInvalidated t).desk = c'.desk := by
      rw [dropInvalidated_desk, noteParseFailure_desk]
    generalize (c'.noteParseFailure t).dropInvalidated t = c'' at hd ⊢
    rw [← hd] at he hst
    split
    · obtain ⟨hm', hs, hst'⟩ := @processQueue_manned cfg (c''.requeue t) none (Manned.queue he _)
      exact ⟨⟨hm', hs⟩, hst.trans hst'⟩
    · rw [← settleFinished_desk c'' t] at he hst
      obtain ⟨hm', hs, hst'⟩ := @processQueue_manned cfg _ _ he
      exact ⟨⟨hm', hs⟩, hst.trans hst'⟩

/-! ### Data -/

/-- The attempt that runs, if any, has its socket. -/
def Attached (c : Conn) : Prop := c.connecting = true → c.socket ≠ none

theorem Attached.stays {c c' : Conn} (h : c.Attached) (hst : c.desk.Stays c'.desk) :
    c'.Attached := by
  intro hc
  obtain ⟨hc, hs⟩ := hst hc
  have hs : c'.socket = c.socket := hs
  rw [hs]
  exact h hc

/-- **A ReadyForQuery** ends an attempt on its socket, or the head of the pipeline. -/
theorem ready_staffed {c : Conn} (hm : c.desk.Manned none) (ha : c.Attached) (status : Option Char) :
    Staffed (c.ready cfg status) ∧ (c.ready cfg status).Attached := by
  unfold ready
  dsimp only
  split
  · rename_i hc
    show Staffed ((c.attemptDone (status.getD 'I')).processQueue cfg) ∧
      ((c.attemptDone (status.getD 'I')).processQueue cfg).Attached
    have hd : (c.attemptDone (status.getD 'I')).desk =
        { c.desk with connecting := false, state := .ready } := by
      obtain ⟨_, _, h, -⟩ := attemptDone_shape c (status.getD 'I')
      rw [h]
      rfl
    have hm' : (c.attemptDone (status.getD 'I')).desk.Manned none := by
      rw [hd]
      exact {
        gate := hm.gate
        idle := by intro h; cases h
        housed := fun _ => ha hc
        cancel := hm.cancel }
    obtain ⟨hm'', hs, hst⟩ := @processQueue_manned cfg _ _ hm'
    refine ⟨⟨hm'', hs⟩, fun h => ?_⟩
    rw [hd] at hst
    cases (hst h).1
  · obtain ⟨hs, hst⟩ := @finishTask_staffed cfg { c with txStatus := status.getD 'I' } hm
    exact ⟨hs, ha.stays hst⟩

/-- A message that concerns no gate, or ends the attempt that runs. -/
theorem handle_desk (c : Conn) {m : BackendMsg} (hz : ∀ s, m ≠ .readyForQuery s) :
    (c.handle cfg m).1.desk = c.desk ∨
      ∃ e, (c.handle cfg m).1 = (c.receive m).failAttempt e := by
  have hr := receive_desk c m
  have hh : ((c.receive m).hearHead cfg m).desk = c.desk := by rw [hearHead_desk, hr]
  cases m with
  | authentication r =>
    cases r with
    | ok => exact .inl hh
    | respond =>
      refine .inl ?_
      unfold handle
      dsimp only
      split
      · exact hr
      · rename_i s _
        obtain ⟨_, h, -⟩ := writeTo_shape ((c.receive (.authentication .respond)).hearHead cfg
          (.authentication .respond)) s [⟨.link, .password⟩]
        rw [h]
        exact hh
    | refuse e => exact .inr ⟨e, rfl⟩
  | backendKeyData key =>
    cases key with
    | none => exact .inl hr
    | some k => exact .inl hh
  | readyForQuery status => exact absurd rfl (hz status)
  | copyInResponse =>
    refine .inl ?_
    unfold handle
    dsimp only
    split
    · rw [writeSocket_desk, hr]
    · split
      · rw [pumpCopy_desk]
        exact hh
      · rw [writeSocket_desk]
        exact hh
  | copyBothResponse =>
    refine .inl ?_
    unfold handle
    dsimp only
    rw [writeSocket_desk]
    exact hh
  | parameterDescription oids =>
    cases oids with
    | none => exact .inl hr
    | some _ => exact .inl hh
  | rowDescription fs =>
    cases fs with
    | none => exact .inl hr
    | some _ =>
      refine .inl ?_
      unfold handle
      dsimp only
      rw [cacheCurrent_desk]
      exact hh
  | noData =>
    refine .inl ?_
    unfold handle
    dsimp only
    rw [cacheCurrent_desk]
    exact hh
  | errorResponse e =>
    unfold handle
    dsimp only
    split
    · exact .inr ⟨e, rfl⟩
    · exact .inl hh
  | _ => exact .inl hh

/-- The end of an attempt leaves a ready connection as it is. -/
theorem failAttempt_staffed {c : Conn} (hs : Staffed c) (e : JsError) :
    Staffed (c.failAttempt e) ∧ c.desk.Stays (c.failAttempt e).desk := by
  by_cases hc : c.connecting = true
  · have hl := failAttempt_leaves hs.manned e hc
    refine ⟨⟨hs.manned.leaves hl, .of_not_ready hl.state⟩, fun h => ?_⟩
    rw [failAttempt_desk e hc] at h
    cases h
  · have heq : c.failAttempt e = c := by
      unfold failAttempt
      simp [hc]
    rw [heq]
    exact ⟨hs, .refl _⟩

theorem handle_staffed {c : Conn} (hs : Staffed c) (ha : c.Attached) (m : BackendMsg) :
    Staffed (c.handle cfg m).1 ∧ (c.handle cfg m).1.Attached := by
  have hsame : ∀ {c' : Conn}, c'.desk = c.desk → Staffed c' ∧ c'.Attached := by
    intro c' hd
    exact ⟨hs.same hd, ha.stays (.of_eq (congrArg Desk.connecting hd) (congrArg Desk.socket hd))⟩
  by_cases hz : ∃ s, m = .readyForQuery s
  · obtain ⟨status, rfl⟩ := hz
    obtain ⟨hr, har⟩ := hsame (receive_desk c (.readyForQuery status))
    exact ready_staffed hr.manned har status
  · rcases @handle_desk cfg c m (fun s h => hz ⟨s, h⟩) with h | ⟨e, h⟩
    · exact hsame h
    · rw [h]
      obtain ⟨hr, har⟩ := hsame (receive_desk c m)
      obtain ⟨hf, hst⟩ := failAttempt_staffed hr e
      exact ⟨hf, har.stays hst⟩

theorem takeDown_staffed {c : Conn} (hs : Staffed c) (e : JsError) : Staffed (c.takeDown cfg e) := by
  have hn : (c.note (.thrown c.state c.connecting)).desk.Manned none := hs.manned
  obtain ⟨hm, hoff, -⟩ := @onSocketDown_manned cfg _ _ hn e
  exact ⟨hm, .of_not_ready hoff⟩

/-- **One chunk**, on the socket of the attempt that runs. -/
theorem onData_staffed (ms : List BackendMsg) : ∀ {c : Conn}, Staffed c → c.Attached →
    Staffed (c.onData cfg ms) := by
  induction ms with
  | nil => exact fun hs _ => hs
  | cons m ms ih =>
    intro c hs ha
    obtain ⟨hs', ha'⟩ := @handle_staffed cfg _ hs ha m
    unfold onData
    cases hr : c.handle cfg m with
    | mk c' err =>
      rw [hr] at hs' ha'
      cases err with
      | none => exact ih hs' ha'
      | some e => exact takeDown_staffed hs' e

/-! ### Cancels -/

/-- A canceled head that is in flight is whom the cancel waits for. -/
theorem sendCancelRequest_staffed {c : Conn} (hs : Staffed c) {t : TaskId} (ht : t ∈ c.inflight) :
    Staffed (c.sendCancelRequest cfg t) := by
  have hi : c.inflight ≠ [] := List.ne_nil_of_mem ht
  rcases @sendCancelRequest_shape cfg c t with h | h
  · rw [h]
    exact hs
  · rw [h]
    refine ⟨⟨hs.manned.toGated.same rfl rfl rfl rfl rfl, fun p hp => ?_⟩,
      fun _ _ => hi, fun _ _ => .inl hi⟩
    have hp : some c.nextCancel = some p := hp
    refine .inl ⟨t, ?_, .inl ht⟩
    rw [← Option.some.inj hp]
    simp [desk]

theorem rejectTask_desk (c : Conn) (t : TaskId) (e : JsError) : (c.rejectTask t e).desk = c.desk :=
  (rejectTask_settles c t e).desk

/-- A shorter queue. -/
theorem Staffed.dequeue {c : Conn} (hs : Staffed c) {q : List TaskId} (hq : q ≠ [] → c.queue ≠ []) :
    Staffed { c with queue := q } where
  manned := hs.manned.queue q
  served := ⟨hs.served.retiring, fun hr h => hs.served.queued hr (hq h)⟩

theorem cancelTask_staffed {c : Conn} (hs : Staffed c) (t : TaskId) (reason : JsError) :
    Staffed (c.cancelTask cfg t reason) := by
  unfold cancelTask
  dsimp only
  split
  · exact hs
  · have hset : Staffed (c.modTask t fun k => { k with settled := true, timer := false }) :=
      hs.same rfl
    split
    · rename_i hi
      have hd := rejectTask_desk (c.modTask t fun k => { k with settled := true, timer := false })
        t reason
      have hrej := hset.same hd
      generalize ((c.modTask t fun k => { k with settled := true, timer := false }).rejectTask
        t reason) = c' at hd hrej ⊢
      have hi : t ∈ c'.inflight := by
        have hi' : c'.inflight = c.inflight := congrArg Desk.inflight hd
        rw [hi']
        exact hi
      split
      · split
        · exact hrej.same rfl
        · exact (@sendCancelRequest_staffed cfg _ hrej t hi).same rfl
      · exact hrej
    · have hq : Staffed { c.modTask t fun k => { k with settled := true, timer := false } with
          queue := c.queue.erase t } := by
        refine hset.dequeue fun hne hn => hne ?_
        have hn : c.queue = [] := hn
        rw [hn]
        rfl
      exact (hq.same rfl).same (rejectTask_desk _ t reason)

/-- The answer to the pending cancel. -/
theorem cancelAnswered_staffed {c : Conn} (hs : Staffed c) (p : CancelId) (b : Bool) :
    Staffed (c.cancelAnswered cfg p b) := by
  have hg : (c.setCancel p fun r => r.answer b).desk.Gated :=
    hs.manned.toGated.same rfl rfl rfl rfl rfl
  have hhead : ((c.setCancel p fun r => r.answer b).cancels p).head = (c.cancels p).head := by
    cases b with
    | false => simp [setCancel, PendingCancel.answer]
    | true => simp [setCancel, PendingCancel.answer]
  -- the pending cancel, unless this is its answer and its head has ended
  have hkeep : (∀ q, c.pendingCancel = some q → q = p → (c.cancels p).head ≠ none ∨
      c.isRetiring = true) → Staffed (c.setCancel p fun r => r.answer b) := by
    intro hq
    refine ⟨⟨hg, fun q hp => ?_⟩, hs.served.retiring, hs.served.queued⟩
    have hold := hs.manned.cancel q hp
    by_cases hqp : q = p
    · subst hqp
      rcases hold with ⟨t, ht, hi⟩ | ⟨hn, hr⟩
      · exact .inl ⟨t, hhead.trans ht, hi⟩
      · refine .inr ⟨hhead.trans hn, .inl ?_⟩
        exact (hq q hp rfl).resolve_left fun h => h hn
    · unfold Awaits at hold ⊢
      simp only [desk, setCancel, Function.update_of_ne hqp] at hold ⊢
      exact hold
  unfold cancelAnswered
  dsimp only
  split
  · rename_i h
    rcases @resolveCanceledHead_manned cfg _ p none hg h.1 h.2 with ⟨hm, hsv, -⟩ | ⟨heq, hr | hw⟩
    · exact ⟨hm, hsv⟩
    · rw [heq]
      exact hkeep fun q _ _ => .inr hr
    · exfalso
      cases b with
      | false => simp [setCancel, PendingCancel.answer] at hw
      | true => simp [setCancel, PendingCancel.answer] at hw
  · rename_i h
    refine hkeep fun q hq hqp => .inl fun hn => h ⟨?_, hhead.trans hn⟩
    rw [← hqp]
    exact hq

theorem cancelTimeout_staffed {c : Conn} (hs : Staffed c) (p : CancelId) :
    Staffed (c.cancelTimeout cfg p) := by
  have hg : (c.setCancel p fun r => { r with timer := false }).desk.Gated :=
    hs.manned.toGated.same rfl rfl rfl rfl rfl
  unfold cancelTimeout
  dsimp only
  split
  · rename_i hp
    have hp : c.pendingCancel = some p := hp
    have hm : ({ c.setCancel p fun r => { r with timer := false } with
        isRetiring := true } : Conn).desk.Manned none := by
      refine ⟨hg.same rfl rfl rfl rfl rfl, fun q hq => ?_⟩
      rcases hs.manned.cancel q hq with ⟨t, ht, hi⟩ | ⟨hn, -⟩
      · refine .inl ⟨t, ?_, hi⟩
        by_cases hqp : q = p
        · subst hqp
          simpa [desk, setCancel] using ht
        · simpa [desk, setCancel, Function.update_of_ne hqp] using ht
      · refine .inr ⟨?_, .inl rfl⟩
        by_cases hqp : q = p
        · subst hqp
          simpa [desk, setCancel] using hn
        · simpa [desk, setCancel, Function.update_of_ne hqp] using hn
    exact staffed_processQueue hm
  · rename_i hp
    refine ⟨⟨hg, fun q hq => ?_⟩, hs.served.retiring, hs.served.queued⟩
    have hqp : q ≠ p := by
      rintro rfl
      exact hp hq
    have hold := hs.manned.cancel q hq
    unfold Awaits at hold ⊢
    simp only [desk, setCancel, Function.update_of_ne hqp] at hold ⊢
    exact hold

/-! ### The ends of sockets and attempts -/

theorem resumeOnce_staffed {c : Conn} (hs : Staffed c) : Staffed (c.resumeOnce cfg) := by
  unfold resumeOnce
  split
  · exact staffed_processQueue ⟨hs.manned.toGated.opened _, hs.manned.cancel⟩
  · exact hs

/-- **A socket drains**: its listeners are gone, and the first of them opens the gate. -/
theorem resumeWrites_staffed {c : Conn} (hs : Staffed c) (s : SocketId) :
    Staffed (c.resumeWrites cfg s) := by
  have hloop : ∀ n (c : Conn), Staffed c → Staffed ((resumeOnce cfg)^[n] c) := by
    intro n
    induction n with
    | zero => exact fun _ h => h
    | succ n ih => exact fun c h => ih _ (resumeOnce_staffed h)
  unfold resumeWrites
  dsimp only
  cases hn : c.drainWaiters.count s with
  | zero =>
    have hmem : s ∉ c.drainWaiters := List.count_eq_zero.mp hn
    have hf : c.drainWaiters.filter (· ≠ s) = c.drainWaiters := by
      refine List.filter_eq_self.mpr fun a ha => ?_
      simp only [ne_eq, decide_not, Bool.not_eq_true', decide_eq_false_iff_not]
      rintro rfl
      exact hmem ha
    rw [hf]
    exact hs
  | succ n =>
    rw [Function.iterate_succ_apply]
    refine hloop n _ ?_
    unfold resumeOnce
    split
    · exact staffed_processQueue ⟨hs.manned.toGated.opened _, hs.manned.cancel⟩
    · rename_i hb
      refine ⟨⟨⟨fun _ _ h => absurd h hb, hs.manned.idle, hs.manned.housed⟩, hs.manned.cancel⟩, ?_⟩
      exact ⟨hs.served.retiring, hs.served.queued⟩

/-- **A socket ends**: the gate is cleared, and the queue is not run. -/
theorem stopWrites_staffed {c : Conn} (hs : Staffed c) {s : SocketId}
    (hw : s ∈ c.drainWaiters → c.waitsForDrain = false) : Staffed (c.stopWrites s) := by
  unfold stopWrites
  split
  · rename_i hm
    refine ⟨⟨hs.manned.toGated.opened _, hs.manned.cancel⟩, hs.served.retiring, fun hr hq => ?_⟩
    have hr : c.state = .ready := hr
    have hq : c.queue ≠ [] := hq
    have hw := hw hm
    simp only [waitsForDrain, hr, beq_self_eq_true, Bool.true_and, Bool.and_eq_false_iff,
      Bool.not_eq_false', List.isEmpty_iff, List.isEmpty_eq_false_iff, Option.isNone_eq_false_iff]
      at hw
    rcases hw with (hw | hw) | hw
    · exact absurd hw hq
    · exact .inl hw
    · refine .inr (.inr fun hn => ?_)
      have hn : c.pendingCancel = none := hn
      rw [hn] at hw
      cases hw
  · exact hs

theorem waitsForDrain_ready {c : Conn} (h : c.state ≠ .ready) : c.waitsForDrain = false := by
  simp [waitsForDrain, h]

theorem wakePumps_desk (c : Conn) (s : SocketId) (f : Bool → PumpPhase) :
    (c.wakePumps s f).desk = c.desk := rfl

theorem socketClose_staffed {c : Conn} (hs : Staffed c) {s : SocketId} (e : JsError)
    (h : c.strands (.socketClose s e) = false) : Staffed (c.socketClose cfg s e) := by
  have hd : Staffed (c.destroy s) := hs.same rfl
  unfold socketClose
  dsimp only
  split
  · obtain ⟨hm, hoff, -⟩ := @onSocketDown_manned cfg _ _ hd.manned e
    have hdown : Staffed ((c.destroy s).onSocketDown cfg e) := ⟨hm, .of_not_ready hoff⟩
    refine Staffed.same (stopWrites_staffed hdown fun _ => ?_) (wakePumps_desk ..)
    exact waitsForDrain_ready hoff
  · rename_i hk
    refine Staffed.same (stopWrites_staffed hd fun hm => ?_) (wakePumps_desk ..)
    have hm : s ∈ c.drainWaiters := hm
    have hk : ¬ c.socket = some s := hk
    show c.waitsForDrain = false
    simpa [strands, hm, hk] using h

theorem socketError_staffed {c : Conn} (hs : Staffed c) {s : SocketId}
    (h : c.strands (.socketError s) = false) :
    Staffed (((c.destroy s).stopWrites s).wakePumps s fun _ => .failed socketClosedError) := by
  have hd : Staffed (c.destroy s) := hs.same rfl
  refine Staffed.same (stopWrites_staffed hd fun hm => ?_) (wakePumps_desk ..)
  have hm : s ∈ c.drainWaiters := hm
  show c.waitsForDrain = false
  simpa [strands, hm] using h

theorem flushWrites_staffed {c : Conn} (hs : Staffed c) : Staffed c.flushWrites := by
  refine ⟨hs.manned.fills (flushWrites_fills c), ?_⟩
  rcases flushWrites_desk c with h | ⟨s, -, -, h⟩
  · rw [h]
    exact hs.served
  · rw [h]
    exact ⟨hs.served.retiring, fun _ _ => .inr (.inl rfl)⟩

/-- An attempt begins: the connection is not ready meanwhile. -/
theorem establish_staffed {c : Conn} (hs : Staffed c) (owner : AttemptOwner) :
    Staffed (c.establish owner) := by
  have hoff : (c.establish owner).desk.state ≠ .ready := by
    show (if c.everConnected then ConnState.reconnecting else .connecting) ≠ .ready
    split
    · simp
    · simp
  refine ⟨hs.manned.stops hoff rfl (fun h => h) rfl (.inr ⟨rfl, rfl, rfl, rfl⟩), .of_not_ready hoff⟩

/-- A connection that closes. -/
theorem Staffed.close {c c' : Conn} (hs : Staffed c)
    (h : c'.desk = { c.desk with state := .closed, queue := [] }) : Staffed c' := by
  have hoff : c'.desk.state ≠ .ready := by
    rw [h]
    simp
  refine ⟨hs.manned.stops hoff ?_ ?_ ?_ (.inr ?_), .of_not_ready hoff⟩
  · rw [h]
  · rw [h]
    exact fun hb => hb
  · rw [h]
  · rw [h]
    exact ⟨rfl, rfl, rfl, rfl⟩

theorem connect_staffed {c : Conn} (hs : Staffed c) : Staffed c.connect := by
  unfold connect
  split
  · exact hs
  · have hc : Staffed { c with connectCalled := true } := hs.same rfl
    exact establish_staffed hc _

theorem connectCatch_staffed {c : Conn} (hs : Staffed c) : Staffed c.connectCatch := by
  unfold connectCatch
  split
  · exact hs
  · dsimp only
    split
    · exact hs.same rfl
    · refine hs.close ?_
      rw [rejectQueue_desk]
      rfl

theorem loopWake_staffed {c : Conn} (hs : Staffed c) (l : LoopId) : Staffed (c.loopWake l) := by
  unfold loopWake
  split
  · split
    · exact hs.same rfl
    · have hl : ∀ loops, Staffed { c with loops := loops } := fun _ => hs.same rfl
      exact establish_staffed (hl _) _
  · exact hs

theorem loopCatch_staffed {c : Conn} (hs : Staffed c) (l : LoopId) :
    Staffed (c.loopCatch cfg l) := by
  unfold loopCatch
  split
  · rename_i attempt e _
    split
    · refine hs.close ?_
      rw [rejectQueue_desk]
      rfl
    · rcases @loopTop_desk cfg c l (attempt + 1) e with h | h
      · exact hs.same h
      · exact hs.close h
  · exact hs

theorem dialed_staffed {c : Conn} (hs : Staffed c) (d : DialId) : Staffed (c.dialed d) := by
  unfold dialed
  dsimp only
  split
  · exact hs.same rfl
  · rename_i hc
    have hc : c.connecting = true := by simpa using hc
    obtain ⟨sent, h, -⟩ := writeTo_shape { c with
      nextSocket := c.nextSocket + 1, dials := c.dials.erase d
      socket := some c.nextSocket, writeBackedUp := false } c.nextSocket [⟨.link, .startup⟩]
    rw [h]
    have hoff : c.state ≠ .ready := hs.manned.idle hc
    refine ⟨⟨⟨?_, hs.manned.idle, fun hr => absurd hr hoff⟩, hs.manned.cancel⟩, .of_not_ready hoff⟩
    intro _ _ hb
    cases hb

theorem endConn_staffed {c : Conn} (hs : Staffed c) : Staffed c.endConn := by
  unfold endConn
  split
  · exact hs
  · dsimp only
    have hw : (writeSocket { c with ended := true }.clearConnTimer [⟨.link, .terminate⟩]).desk =
        c.desk := by
      rw [writeSocket_desk, clearConnTimer_desk]
      rfl
    generalize writeSocket { c with ended := true }.clearConnTimer [⟨.link, .terminate⟩] = d
      at hw ⊢
    have hend : ∀ d' : Conn, (d'.desk = { c.desk with state := .closed } ∨
        d'.desk = { c.desk with state := .closed, connecting := false }) →
          Staffed ((d'.settlePending endError).clearPendingCancel) := by
      intro d' hd'
      obtain ⟨cancels, hc⟩ := clearPendingCancel_desk (d'.settlePending endError)
      have hsp : (d'.settlePending endError).desk = { d'.desk with queue := [], inflight := [] } := by
        unfold settlePending
        rw [dropQueue_desk, dropInflight_desk]
        rfl
      rw [hsp] at hc
      have hoff : ((d'.settlePending endError).clearPendingCancel).desk.state ≠ .ready := by
        rw [hc]
        rcases hd' with h | h
        · rw [h]
          simp
        · rw [h]
          simp
      refine ⟨hs.manned.stops hoff ?_ ?_ ?_ (.inl ?_), .of_not_ready hoff⟩
      · rw [hc]
        rcases hd' with h | h
        · rw [h]
        · rw [h]
      · rw [hc]
        rcases hd' with h | h
        · rw [h]
          exact fun hb => hb
        · rw [h]
          exact fun hb => hb
      · rw [hc]
        rcases hd' with h | h
        · rw [h]
        · rw [h]
      · rw [hc]
    have hcl : ({ d with state := .closed } : Conn).desk = { c.desk with state := .closed } := by
      rw [← hw]
      rfl
    split
    · refine hend _ (.inr ?_)
      rw [rejectAttempt_desk]
      show { ({ d with state := .closed } : Conn).desk with connecting := false } = _
      rw [hcl]
    · exact hend _ (.inl hcl)

/-! ### Every callback -/

theorem submit_staffed {c : Conn} (hs : Staffed c) (r : Request) (aborted : Option JsError) :
    Staffed (c.submit cfg r aborted) := by
  unfold submit
  dsimp only
  split
  · exact hs.same rfl
  · split
    · exact hs.same (rejectTask_desk _ _ _)
    · exact staffed_processQueue (hs.manned.queue _)

theorem streamReturn_staffed {c : Conn} (hs : Staffed c) (t : TaskId) :
    Staffed (c.streamReturn cfg t) := by
  have hd : Staffed (c.modTask t fun k => { k with cancelled := true }) := hs.same rfl
  unfold streamReturn
  dsimp only
  split
  · exact cancelTask_staffed hd t _
  · exact hd

/-- **One callback** keeps the connection staffed, unless it strands tasks. -/
theorem step_staffed {c : Conn} {e : Event} (hs : Staffed c) (hst : c.strands e = false)
    (ho : c.overhears e = false) : Staffed (c.step cfg e) := by
  cases e with
  | submit r aborted => exact submit_staffed hs r aborted
  | connect => exact connect_staffed hs
  | connectCatch => exact connectCatch_staffed hs
  | dialed d => exact dialed_staffed hs d
  | dialFailed d e =>
    have hd : Staffed { c with dials := c.dials.erase d } := hs.same rfl
    exact (failAttempt_staffed hd e).1
  | connTimeout d =>
    have hd : Staffed { c with armedTimers := c.armedTimers.erase d } := hs.same rfl
    exact (failAttempt_staffed hd _).1
  | data s chunk =>
    refine onData_staffed chunk hs fun hc hk => ?_
    simp [overhears, hc, hk] at ho
  | badFrame s e => exact takeDown_staffed hs e
  | drain s => exact (resumeWrites_staffed hs s).same (wakePumps_desk ..)
  | socketError s => exact socketError_staffed hs hst
  | socketClose s e => exact socketClose_staffed hs e hst
  | sockRoom n => exact hs.same rfl
  | flush =>
    have hf : Staffed { c with flushScheduled := false } := hs.same rfl
    exact flushWrites_staffed hf
  | abort t reason =>
    have hl : Staffed (c.modTask t fun k => { k with listening := false }) := hs.same rfl
    exact cancelTask_staffed hl t reason
  | timeout t =>
    have ht : Staffed (c.modTask t fun k => { k with timer := false }) := hs.same rfl
    exact cancelTask_staffed ht t _
  | grace t => exact hs.same (destroySocket_desk _)
  | streamReturn t => exact streamReturn_staffed hs t
  | cancelAnswered p b => exact cancelAnswered_staffed hs p b
  | cancelTimeout p => exact cancelTimeout_staffed hs p
  | loopWake l => exact loopWake_staffed hs l
  | loopCatch l => exact loopCatch_staffed hs l
  | pumpNext p step => exact hs.same (pumpNext_desk c p step)
  | pumpResume p => exact hs.same (pumpResume_desk c p)
  | endConn => exact endConn_staffed hs
  | endDone => exact hs.same (destroySocket_desk c)

/-- Tasks that wait for the drain of a socket are left behind when its end clears the gate. -/
theorem strands_unattended {c : Conn} {e : Event} (h : c.strands e = true) :
    ¬ (c.step cfg e).Attended := by
  have hend : ∀ s, s ∈ c.drainWaiters → c.waitsForDrain = true →
      ¬ (((c.destroy s).stopWrites s).wakePumps s
        fun _ => PumpPhase.failed socketClosedError).Attended := by
    intro s hm hw ha
    simp only [waitsForDrain, Bool.and_eq_true, beq_iff_eq, Bool.not_eq_true', List.isEmpty_iff,
      List.isEmpty_eq_false_iff, Option.isNone_iff_eq_none] at hw
    obtain ⟨⟨⟨hr, hq⟩, hi⟩, hp⟩ := hw
    have hm' : s ∈ (c.destroy s).drainWaiters := hm
    unfold stopWrites at ha
    rw [if_pos hm'] at ha
    have hat := ha hr hq
    simp [isAttended, wakePumps, destroy, hi, hp] at hat
  cases e with
  | socketError s =>
    simp only [strands, Bool.and_eq_true, decide_eq_true_eq] at h
    exact hend s h.1 h.2
  | socketClose s e =>
    simp only [strands, Bool.and_eq_true, decide_eq_true_eq, Bool.not_eq_true', beq_eq_false_iff_ne]
      at h
    have hk : ¬ (c.destroy s).socket = some s := h.2
    show ¬ (c.socketClose cfg s e).Attended
    unfold socketClose
    dsimp only
    rw [if_neg hk]
    exact hend s h.1.1 h.1.2
  | _ => cases h

/-- Callbacks that leave nobody behind, and data for an attempt on its own socket. -/
def Calm (c : Conn) (e : Event) : Prop := c.strands e = false ∧ c.overhears e = false

instance (c : Conn) (e : Event) : Decidable (c.Calm e) := inferInstanceAs (Decidable (_ ∧ _))

/-- **No queued task is stranded** in a run of calm callbacks, and a callback that strands a task
does so at once. -/
theorem attended {c : Conn} (h : (machine cfg).Reach Calm (· = {}) c) :
    c.Attended ∧ ∀ e, c.overhears e = false →
      ((c.step cfg e).Attended ↔ c.strands e = false) := by
  have hs : Staffed c := by
    refine h.invariant (I := Staffed) ?_ ?_
    · rintro _ rfl
      exact staffed_new
    · intro c e hs _ hc
      exact step_staffed hs hc.1 hc.2
  refine ⟨hs.attends, fun e ho => ⟨fun ha => ?_, fun hst => (step_staffed hs hst ho).attends⟩⟩
  rw [← Bool.not_eq_true]
  exact fun hst => strands_unattended hst ha

/-- A socket that is full from the start: one query runs, the next one waits for the drain. -/
def fullSocket : List Event :=
  [.connect, .dialed 0, .data 0 [.readyForQuery (some 'I')], .submit { sql := "SELECT 1" } none,
    .flush, .submit { sql := "SELECT 2" } none,
    .data 0 [.commandComplete "SELECT 1", .readyForQuery (some 'I')]]

theorem attended_fullSocket : (run {} fullSocket).Attended ∧
    (((run {} fullSocket).step {} (.drain 0)).Attended ↔
      (run {} fullSocket).strands (.drain 0) = false) :=
  have hnew : (machine {}).Reach Calm (· = {}) {} := .start rfl
  have hrun : (machine {}).Reach Calm (· = {}) (run {} fullSocket) := hnew.exec (by decide)
  have h := attended hrun
  ⟨h.1, h.2 (.drain 0) (by decide)⟩

/-- The parser gives up the first socket while it is full, and the connection reconnects.  The
second socket is full too when the first one is closed at last; the drain that follows finds
the gate open. -/
def staleClose : List Event :=
  [.connect, .dialed 0, .data 0 [.readyForQuery (some 'I')], .submit { sql := "SELECT 1" } none,
    .flush, .submit { sql := "SELECT 2" } none, .badFrame 0 rangeError, .loopWake 0, .dialed 1,
    .data 1 [.readyForQuery (some 'I')], .flush, .submit { sql := "SELECT 3" } none,
    .data 1 [.commandComplete "SELECT 1", .readyForQuery (some 'I')],
    .socketClose 0 terminatedError, .drain 1]

theorem attended_fails : ¬ ∀ (cfg : Config) (c : Conn), Reachable cfg c → c.Attended := by
  intro h
  have hrun := h { reconnect := true } (run { reconnect := true } staleClose)
    (reachable_run (by decide))
  exact absurd (hrun (by decide) (by decide)) (by decide)

end Conn

end Minipg
