import Minipg.Connection.Persist

/-!
# Whole callbacks

Every callback is a path of moves (`step_moves`), and the messages along the path are the
ones it consumed from its chunk: all of them, unless one of them took the connection down.

Two places need `Basic`.  A task that is re-run joins the queue of a connection whose
state is the one it had when the task ended: the only way to close the connection in
between is through the end of a canceled head, and that task is settled.  And the messages
of a chunk come one after the other, each at a point that the ones before have left.
-/

namespace Minipg

namespace Conn

variable {cfg : Config} {P : Conn → Conn → Prop}

/-! ### The end of a task -/

theorem noteLate_state (c : Conn) (t : TaskId) : (c.noteLate t).state = c.state := by
  unfold noteLate
  split
  · rename_i late _
    split
    · rcases checkLateCancel_shape c t late with ⟨-, -, _, _, _, h, -⟩ | ⟨-, h⟩
      · rw [h]
        rfl
      · rw [h]
    · rfl
  · rfl

/-- A task that is not settled ends without touching the state of the connection. -/
theorem noteEnded_state {c : Conn} {t : TaskId} {st : ConnState} (hb : Basic (c, some (t, st)))
    (hs : ((c.noteEnded cfg t).tasks t).settled = false) : (c.noteEnded cfg t).state = c.state := by
  have hb' : Basic (c.noteLate t, some (t, st)) := (@noteLate_moves cfg PumpMove c t st).basic hb
  unfold noteEnded at hs ⊢
  dsimp only at hs ⊢
  split at hs
  · rename_i p hp
    split at hs
    · rename_i hh
      -- a canceled head is settled, and stays so
      exfalso
      obtain ⟨hlt, hset⟩ := hb'.heads p t hp hh
      have hpe := (@endCanceledHead_moves cfg PumpMove _ _ st _ hp hh).persists
      have := (hpe.task hlt).settled hset
      dsimp only at this
      rw [this] at hs
      cases hs
    · rename_i hh
      rw [if_neg hh]
      exact noteLate_state c t
  · exact noteLate_state c t

theorem records_state (c : Conn) (t : TaskId) :
    ((c.noteParseFailure t).dropInvalidated t).state = c.state ∧
      ((c.noteParseFailure t).dropInvalidated t).tasks = c.tasks := by
  obtain ⟨_, _, h⟩ := noteParseFailure_shape c t
  obtain ⟨_, _, h'⟩ := dropInvalidated_shape (c.noteParseFailure t) t
  rw [h', h]
  exact ⟨rfl, rfl⟩

theorem ready_moves (hP : ∀ c c', P c c' → PumpMove c c') {c : Conn} (hb : Basic (c, none))
    (status : Option Char) :
    Moves cfg P [.readyForQuery status] (c, none)
      ((c.receive (.readyForQuery status)).ready cfg status, none) := by
  unfold ready
  dsimp only
  split
  · rename_i hc
    rw [receive_connecting] at hc
    have hdone : Moves cfg P [.readyForQuery status] (c, none)
        ((c.receive (.readyForQuery status)).attemptDone (status.getD 'I'), none) :=
      (Move.attemptDone status hc).moves
    exact hdone.silent (processQueue_moves _)
  · rename_i hc
    rw [Bool.not_eq_true, receive_connecting] at hc
    unfold finishTask
    dsimp only
    split
    · rename_i hi
      rw [receive_inflight] at hi
      have hidle : Moves cfg P [.readyForQuery status] (c, none)
          ({ c.receive (.readyForQuery status) with txStatus := status.getD 'I' }, none) :=
        (Move.idle status hc hi).moves
      exact hidle.silent (processQueue_moves _)
    · rename_i t rest hi
      rw [receive_inflight] at hi
      have hpop : Moves cfg P [.readyForQuery status] (c, none)
          ({ c.receive (.readyForQuery status) with txStatus := status.getD 'I' }.popHead t rest,
            some (t, c.state)) :=
        (Move.pop status t rest hc hi).moves
      have hb' := (hpop.mono hP).basic hb
      have hst : ({ c.receive (.readyForQuery status) with
          txStatus := status.getD 'I' }.popHead t rest).state = c.state := receive_state c _
      generalize Conn.popHead { c.receive (.readyForQuery status) with
        txStatus := status.getD 'I' } t rest = c1 at hpop hb' hst ⊢
      have hend := @noteEnded_state cfg _ _ _ hb'
      have hpath := ((hpop.silent (noteEnded_moves c1 t c.state)).then .parseFailed).then
        .invalidated
      obtain ⟨hst', hts⟩ := records_state (c1.noteEnded cfg t) t
      generalize c1.noteEnded cfg t = c2 at hend hpath hst' hts ⊢
      split
      · rename_i hr
        have hset : (c2.tasks t).settled = false := by
          rw [hts] at hr
          simp only [retries, Bool.and_eq_true, Bool.not_eq_true'] at hr
          exact hr.1.1.1.1.1.2
        have hstate : ((c2.noteParseFailure t).dropInvalidated t).state = c.state :=
          hst'.trans ((hend hset).trans hst)
        exact (hpath.then (.requeue hstate hr)).silent (processQueue_moves _)
      · rename_i hr
        rw [Bool.not_eq_true] at hr
        exact (hpath.then (.finish hr)).silent (processQueue_moves _)

/-! ### Messages -/

/-- A CopyInResponse changes nothing that a COPY depends on. -/
theorem noteCopyIn_copySource {c : Conn} {t : TaskId} (hi : c.current = some t) :
    ((c.noteCopyIn cfg t).tasks t).copySource = (c.tasks t).copySource := by
  obtain ⟨_, _, h, -, ht, -⟩ := @noteCopyIn_shape cfg c t
  rw [h]
  dsimp only
  rw [ht t hi]
  exact (listened_persists _ _).copySource

theorem copyIn_moves (c : Conn) :
    Moves cfg PumpMove [.copyInResponse] (c, none) ((c.handle cfg .copyInResponse).1, none) := by
  unfold handle
  dsimp only
  rw [receive_current]
  split
  · rename_i hi
    exact (Move.copyNone (List.head?_eq_none_iff.mp hi)).moves
  · rename_i t hi
    change Moves cfg PumpMove _ _ ((ite (((c.noteCopyIn cfg t).tasks t).copySource = true)
      ((c.noteCopyIn cfg t).pumpCopy t, none) _ : Attempted).1, none)
    rw [noteCopyIn_copySource hi]
    split
    · rename_i hk
      have hopen : Moves cfg PumpMove [.copyInResponse] (c, none) ((c.noteCopyIn cfg t).openPump t, none) :=
        (Move.copyPump t hi hk).moves
      exact hopen.silent (pumpLoop_moves (.inl (by simp [openPump, Conn.modTask])))
    · rename_i hk
      rw [Bool.not_eq_true] at hk
      exact (Move.copyPlain t hi hk).moves

theorem copyBoth_moves (c : Conn) :
    Moves cfg P [.copyBothResponse] (c, none) ((c.handle cfg .copyBothResponse).1, none) := by
  unfold handle
  dsimp only
  rw [receive_current]
  exact Move.copyBoth.moves

/-- **One message** that starts no pump, and what the connection makes of it. -/
theorem heard_moves (hP : ∀ c c', P c c' → PumpMove c c') {c : Conn} (hb : Basic (c, none))
    {m : BackendMsg} (hg : m ≠ .copyInResponse) :
    Moves cfg P [m] (c, none) ((c.handle cfg m).1, none) := by
  have hlisten : (∀ s, m ≠ .readyForQuery s) → m ≠ .copyInResponse →
      Moves cfg P [m] (c, none) (c.listen cfg m, none) := fun hz hg => (Move.listen m hz hg).moves
  have hmiss : (∀ s, m ≠ .readyForQuery s) → m ≠ .copyInResponse →
      Moves cfg P [m] (c, none) (c.receive m, none) := fun hz hg => (Move.miss m hz hg).moves
  cases m with
  | authentication r =>
    cases r with
    | ok => exact hlisten (by simp) (by simp)
    | respond =>
      have hl := hlisten (by simp) (by simp)
      have hm := hmiss (by simp) (by simp)
      unfold handle
      dsimp only
      rw [receive_socket]
      split
      · exact hm
      · rename_i s hs
        refine hl.then (.emit s .password ?_ (.inr rfl))
        obtain ⟨_, h, -⟩ := @listen_shape cfg c (.authentication .respond)
        rw [h, ← hs]
    | refuse e => exact (hmiss (by simp) (by simp)).then (.link (.failAttempt e))
  | backendKeyData key =>
    cases key with
    | none => exact hmiss (by simp) (by simp)
    | some k => exact (hlisten (by simp) (by simp)).then (.gate (.backendKey k))
  | readyForQuery status =>
    exact ready_moves hP hb status
  | copyInResponse => exact absurd rfl hg
  | copyBothResponse => exact copyBoth_moves c
  | parameterDescription oids =>
    cases oids with
    | none => exact hmiss (by simp) (by simp)
    | some oids => exact hlisten (by simp) (by simp)
  | rowDescription fs =>
    cases fs with
    | none => exact hmiss (by simp) (by simp)
    | some fs => exact (hlisten (by simp) (by simp)).then .cache
  | noData => exact (hlisten (by simp) (by simp)).then .cache
  | errorResponse e =>
    have hl := hlisten (by simp) (by simp)
    have hm := hmiss (by simp) (by simp)
    unfold handle
    dsimp only
    rw [receive_connecting]
    split
    · exact hm.then (.link (.failAttempt e))
    · exact hl
  | parameterStatus | copyOutResponse | copyData | copyDone | dataRow | commandComplete
  | emptyQuery | noticeResponse | notificationResponse | parseComplete | bindComplete
  | closeComplete | portalSuspended => exact hlisten (by simp) (by simp)

/-- **One message**, and what the connection makes of it. -/
theorem handle_moves {c : Conn} (hb : Basic (c, none)) (m : BackendMsg) :
    Moves cfg PumpMove [m] (c, none) ((c.handle cfg m).1, none) := by
  by_cases hg : m = .copyInResponse
  · rw [hg]
    exact copyIn_moves c
  · exact heard_moves (fun _ _ h => h) hb hg

/-- **One chunk**: its messages in order, up to one that takes the connection down. -/
theorem onData_moves (ms : List BackendMsg) : ∀ {c : Conn}, Basic (c, none) →
    ∃ consumed, consumed <+: ms ∧ Moves cfg PumpMove consumed (c, none) (c.onData cfg ms, none) := by
  induction ms with
  | nil => exact fun _ => ⟨[], List.prefix_rfl, .refl⟩
  | cons m ms ih =>
    intro c hb
    have hm := @handle_moves cfg _ hb m
    unfold onData
    cases hr : c.handle cfg m with
    | mk c' err =>
      rw [hr] at hm
      cases err with
      | none =>
        obtain ⟨consumed, hp, hms⟩ := ih (hm.basic hb)
        exact ⟨m :: consumed, List.prefix_cons_inj m |>.mpr hp, hm.trans hms⟩
      | some e => exact ⟨[m], List.prefix_cons_inj m |>.mpr List.nil_prefix, hm.then (.link (.takeDown e))⟩

/-! ### One callback -/

/-- The messages that come with a callback. -/
def messages : Event → List BackendMsg
  | .data _ chunk => chunk
  | _ => []

theorem streamReturn_moves (c : Conn) (t : TaskId) :
    Moves cfg P [] (c, none) (c.streamReturn cfg t, none) := by
  have hd : Moves cfg P [] (c, none) (c.modTask t fun k => { k with cancelled := true }, none) :=
    (Move.discard t).moves
  unfold streamReturn
  dsimp only
  split
  · exact hd.silent (cancelTask_moves _ t _)
  · exact hd

theorem stopWrites_destroyed (c : Conn) (s : SocketId) :
    (c.stopWrites s).destroyed = c.destroyed := by
  unfold stopWrites
  split
  · rfl
  · rfl

/-- An error of a socket, up to the pumps that wait for it. -/
theorem socketFailed_moves {c : Conn} {s : SocketId} (hlt : s < c.nextSocket) :
    Moves cfg P [] (c, none) ((c.destroy s).stopWrites s, none) := by
  have hd : Moves cfg P [] (c, none) (c.destroy s, none) :=
    (Move.link (.destroy s (.inl hlt))).moves
  exact hd.silent (stopWrites_moves _ s)

/-- The end of a socket, up to the pumps that wait for it. -/
def socketGone (cfg : Config) (c : Conn) (s : SocketId) (e : JsError) : Conn :=
  (if (c.destroy s).socket = some s then (c.destroy s).onSocketDown cfg e
    else c.destroy s).stopWrites s

theorem socketGone_moves {c : Conn} {s : SocketId} (hlt : s < c.nextSocket) (e : JsError) :
    Moves cfg P [] (c, none) (c.socketGone cfg s e, none) := by
  have hd : Moves cfg P [] (c, none) (c.destroy s, none) :=
    (Move.link (.destroy s (.inl hlt))).moves
  unfold socketGone
  split
  · rename_i h
    exact (hd.then (.link (.socketDown e s h))).silent (stopWrites_moves _ s)
  · exact hd.silent (stopWrites_moves _ s)

theorem socketGone_destroyed (c : Conn) (s : SocketId) (e : JsError) :
    (c.socketGone cfg s e).destroyed s = true := by
  have hs : (c.destroy s).destroyed s = true := Function.update_self ..
  unfold socketGone
  rw [stopWrites_destroyed]
  split
  · exact (onSocketDown_relinks _ e).destroyed s hs
  · exact hs

theorem destroySocket_moves (c : Conn) : Moves cfg P [] (c, none) (c.destroySocket, none) := by
  unfold destroySocket
  split
  · exact .refl
  · rename_i s hs
    exact (Move.link (.destroy s (.inr hs))).moves

/-- A callback that reaches no pump is a path of moves without pumps. -/
theorem calm_moves {c : Conn} {e : Event} (hd : e.isDialing = false)
    (hp : e.reachesPumps = false) (he : c.enabled e = true) :
    Moves cfg P [] (c, none) (c.step cfg e, none) := by
  cases e with
  | submit r aborted => exact submit_moves c r aborted
  | connect | loopWake l | dialed d => cases hd
  | connectCatch => exact (Move.link .connectCatch).moves
  | dialFailed d e =>
    have ht : Moves cfg P [] (c, none) ({ c with dials := c.dials.erase d }, none) :=
      (Move.gate (.timers _ c.armedTimers List.erase_sublist)).moves
    exact ht.then (.link (.failAttempt e))
  | connTimeout d =>
    have ht : Moves cfg P [] (c, none) ({ c with armedTimers := c.armedTimers.erase d }, none) :=
      (Move.gate (.timers c.dials (c.armedTimers.erase d) (.refl _))).moves
    exact ht.then (.link (.failAttempt _))
  | badFrame s e => exact (Move.link (.takeDown e)).moves
  | sockRoom n => exact (Move.gate (.room n)).moves
  | flush =>
    have hf : Moves cfg P [] (c, none) ({ c with flushScheduled := false }, none) :=
      (Move.gate (.schedule false)).moves
    exact hf.then .flush
  | abort t reason =>
    exact (stopListening_settles c t).moves.silent (cancelTask_moves _ t reason)
  | timeout t =>
    have ht : Settles c (c.modTask t fun k => { k with timer := false }) :=
      Settles.modTask ⟨false, (c.tasks t).graceTimer, (c.tasks t).listening, [], by simp⟩
    exact ht.moves.silent (cancelTask_moves _ t _)
  | grace t =>
    have ht : Settles c (c.modTask t fun k => { k with graceTimer := false }) :=
      Settles.modTask ⟨(c.tasks t).timer, false, (c.tasks t).listening, [], by simp⟩
    exact ht.moves.silent (destroySocket_moves _)
  | streamReturn t => exact streamReturn_moves c t
  | cancelAnswered p b =>
    simp only [enabled, Bool.and_eq_true, Bool.not_eq_true'] at he
    exact cancelAnswered_moves b he.1.2 he.2
  | cancelTimeout p => exact cancelTimeout_moves c p
  | loopCatch l => exact (Move.link (.loopCatch l)).moves
  | endConn => exact (Move.link .endConn).moves
  | endDone => exact destroySocket_moves c
  | data | drain | socketError | socketClose | pumpNext | pumpResume => cases hp

/-- **A callback is a path of moves**, unless it begins an attempt or brings it a socket; it
consumes its chunk, or the part before a message that takes the connection down. -/
theorem step_moves {c : Conn} {e : Event} (hd : e.isDialing = false) (hb : Basic (c, none))
    (he : c.enabled e = true) : ∃ consumed, consumed <+: messages e ∧
      Moves cfg PumpMove consumed (c, none) (c.step cfg e, none) := by
  have hsilent : ∀ {c'}, Moves cfg PumpMove [] (c, none) (c', none) →
      ∃ consumed, consumed <+: messages e ∧ Moves cfg PumpMove consumed (c, none) (c', none) :=
    fun h => ⟨[], List.nil_prefix, h⟩
  by_cases hp : e.reachesPumps = false
  · exact hsilent (calm_moves hd hp he)
  · cases e with
    | data s chunk => exact onData_moves chunk hb
    | drain s => exact hsilent ((resumeWrites_moves c s).then (.pump (.drained s)))
    | socketError s =>
      refine hsilent ((socketFailed_moves (by simpa [enabled] using he)).then
        (.pump (.undrained s ?_)))
      rw [stopWrites_destroyed]
      exact Function.update_self ..
    | socketClose s e =>
      exact hsilent ((socketGone_moves (by simpa [enabled] using he) e).then
        (.pump (.undrained s (socketGone_destroyed c s e))))
    | pumpNext p step =>
      simp only [enabled, Bool.and_eq_true, beq_iff_eq] at he
      exact hsilent (pumpNext_moves step he.1)
    | pumpResume p => exact hsilent (pumpResume_moves c p)
    | _ => exact absurd rfl hp

theorem dialing_persists {c : Conn} {e : Event} (hd : e.isDialing = true) :
    Persists c (c.step cfg e) := by
  cases e with
  | connect => exact (connect_relinks c).persists
  | loopWake l => exact (loopWake_relinks c l).persists
  | dialed d => exact dialed_persists c d
  | _ => cases hd

theorem dialing_basic {c : Conn} {e : Event} (hd : e.isDialing = true) (hb : Basic (c, none)) :
    Basic (c.step cfg e, none) := by
  cases e with
  | connect => exact hb.relinks (connect_relinks c)
  | loopWake l => exact hb.relinks (loopWake_relinks c l)
  | dialed d =>
    have hpe := dialed_persists c d
    change Basic (c.dialed d, none)
    obtain ⟨_, _, _, _, _, h, -⟩ := dialed_shape c d
    rw [h] at hpe ⊢
    exact hb.same hpe rfl rfl rfl rfl rfl
  | _ => cases hd

/-- A task keeps its outcome through every callback. -/
theorem step_persists {c : Conn} {e : Event} (hb : Basic (c, none)) (he : c.enabled e = true) :
    Persists c (c.step cfg e) := by
  by_cases hd : e.isDialing = true
  · exact dialing_persists hd
  · rw [Bool.not_eq_true] at hd
    obtain ⟨_, -, hm⟩ := @step_moves cfg _ _ hd hb he
    exact hm.persists

theorem step_basic {c : Conn} {e : Event} (hb : Basic (c, none)) (he : c.enabled e = true) :
    Basic (c.step cfg e, none) := by
  by_cases hd : e.isDialing = true
  · exact dialing_basic hd hb
  · rw [Bool.not_eq_true] at hd
    obtain ⟨_, -, hm⟩ := @step_moves cfg _ _ hd hb he
    exact hm.basic hb

/-- `Basic` holds between the callbacks of every run. -/
theorem reachable_basic {ok : Conn → Event → Prop} {c : Conn}
    (h : (machine cfg).Reach ok (· = {}) c) : Basic (c, none) := by
  refine h.invariant (I := fun c => Basic (c, none)) (by rintro _ rfl; exact basic_new) ?_
  intro c e hb he _
  exact step_basic hb he

/-- **The invariant rule for runs**: what every move keeps, and every callback that is none, given
`Basic`, holds between the callbacks of every run. -/
theorem reachable_invariant {ok : Conn → Event → Prop} {I : Point → Prop} (h0 : I ({}, none))
    (hD : ∀ c e, e.isDialing = true → Basic (c, none) → I (c, none) → I (c.step cfg e, none))
    (hI : ∀ l p q, Basic p → Move cfg PumpMove l p q → I p → I q) {c : Conn}
    (h : (machine cfg).Reach ok (· = {}) c) : I (c, none) := by
  refine h.invariant_with (J := fun c => Basic (c, none)) (I := fun c => I (c, none))
    (fun _ => reachable_basic) (by rintro _ rfl; exact h0) ?_
  intro c e hb hc he _
  by_cases hd : e.isDialing = true
  · exact hD c e hd hb hc
  · rw [Bool.not_eq_true] at hd
    obtain ⟨_, -, hm⟩ := @step_moves cfg _ _ hd hb he
    have hboth := hm.keep (I := fun p => Basic p ∧ I p)
      (fun l p q hm ⟨hb, hp⟩ => ⟨hm.basic hb, hI l p q hb hm hp⟩) ⟨hb, hc⟩
    exact hboth.2

end Conn

end Minipg
