import Minipg.Connection.Callbacks

/-!
# The life of a connection

Seven fields and the socket say where a connection is between its first `connect()` and its
end: `link` reads them off.  `Linked` lists the combinations that occur as long as no
handler throws after the death of the socket was noticed: at most one attempt runs, it
belongs to `connect()` or to the only loop that has not ended, and a connection that is
ready or closed runs none.

The comment in `onSocketDown` says that further events from a dead socket are ignored.  A
chunk that takes the connection down is still read to its end, though, and a handler that
throws in the rest of it calls `onSocketDown` once more.  `Moment.isClaimed` excludes just
these throws.
-/

namespace Minipg

/-- A throw while an attempt runs, or while the connection is ready or closed. -/
def Moment.isClaimed : Moment → Bool
  | .thrown state connecting => connecting || state == .ready || state == .closed
  | _ => true

/-- Where a connection is in its life. -/
structure Link where
  state : ConnState
  socket : Option SocketId
  connecting : Bool
  everConnected : Bool
  connectCalled : Bool
  connectFailed : Option JsError
  attempt : Option AttemptOwner
  loops : LoopId → LoopPhase

/-- No loop is left, or only one. -/
def noLoop : LoopId → LoopPhase := fun _ => .ended

def oneLoop (l : LoopId) (ph : LoopPhase) : LoopId → LoopPhase := Function.update noLoop l ph

/-- A loop that does not wait for an attempt. -/
def LoopPhase.isEstablishing : LoopPhase → Bool
  | .establishing _ => true
  | _ => false

/-- The stations of a connection. -/
inductive Linked : Link → Prop
  | fresh {st : ConnState} (hs : st = .idle ∨ st = .closed) :
      Linked ⟨st, none, false, false, false, none, none, noLoop⟩
  | first (s : Option SocketId) :
      Linked ⟨.connecting, s, true, false, true, none, some .connect, noLoop⟩
  | failed (e : JsError) : Linked ⟨.connecting, none, false, false, true, some e, none, noLoop⟩
  | ready (s : Option SocketId) : Linked ⟨.ready, s, false, true, true, none, none, noLoop⟩
  | waiting (l : LoopId) {ph : LoopPhase} (hp : ph.isEstablishing = false) :
      Linked ⟨.reconnecting, none, false, true, true, none, none, oneLoop l ph⟩
  | trying (l : LoopId) (a : Nat) (s : Option SocketId) :
      Linked ⟨.reconnecting, s, true, true, true, none, some (.loop l), oneLoop l (.establishing a)⟩
  | closed (s : Option SocketId) (ever : Bool) (failed : Option JsError)
      {loops : LoopId → LoopPhase} (hp : ∀ l, (loops l).isEstablishing = false) :
      Linked ⟨.closed, s, false, ever, true, failed, none, loops⟩

/-- What an attempt that is rejected does to its owner. -/
def Link.reject (k : Link) (e : JsError) : Link :=
  match k.attempt with
  | none => { k with attempt := none }
  | some .connect => { k with attempt := none, connectFailed := some e }
  | some (.loop l) =>
    match k.loops l with
    | .establishing a =>
      { k with attempt := none, loops := Function.update k.loops l (.failed a e) }
    | _ => { k with attempt := none }

theorem update_oneLoop (l : LoopId) (ph ph' : LoopPhase) :
    Function.update (oneLoop l ph) l ph' = oneLoop l ph' := Function.update_idem ..

theorem oneLoop_self (l : LoopId) (ph : LoopPhase) : oneLoop l ph l = ph := Function.update_self ..

/-- Only one loop of `oneLoop` has not ended. -/
theorem oneLoop_ne_ended {l l' : LoopId} {ph : LoopPhase} (h : oneLoop l ph l' ≠ .ended) :
    l' = l := by
  by_contra hl
  exact h (Function.update_of_ne hl _ _)

theorem update_isEstablishing {loops : LoopId → LoopPhase}
    (h : ∀ l, (loops l).isEstablishing = false) (l : LoopId) {ph : LoopPhase}
    (hp : ph.isEstablishing = false) : ∀ l', (Function.update loops l ph l').isEstablishing = false := by
  intro l'
  by_cases hl : l' = l
  · subst hl
    rwa [Function.update_self]
  · rw [Function.update_of_ne hl]
    exact h l'

/-- A loop that has not ended belongs to a connection that waits for it or is closed. -/
theorem Linked.of_loop {k : Link} (hl : Linked k) {l : LoopId}
    (hp : (k.loops l).isEstablishing = false) (hne : k.loops l ≠ .ended) :
    k = ⟨.reconnecting, none, false, true, true, none, none, oneLoop l (k.loops l)⟩ ∨
      ∃ s ever failed loops, k = ⟨.closed, s, false, ever, true, failed, none, loops⟩ ∧
        ∀ l, (loops l).isEstablishing = false := by
  cases hl with
  | fresh | first | failed | ready => exact absurd rfl hne
  | waiting l' hp' =>
    obtain rfl := oneLoop_ne_ended hne
    exact .inl (by dsimp only; rw [oneLoop_self])
  | trying l' a s =>
    obtain rfl := oneLoop_ne_ended hne
    dsimp only at hp
    rw [oneLoop_self] at hp
    cases hp
  | closed s ever failed hp' => exact .inr ⟨s, ever, failed, _, rfl, hp'⟩

/-- A socket belongs to an attempt, or to a connection that is ready or closed. -/
theorem Linked.of_socket {k : Link} (hl : Linked k) {s : SocketId} (hs : k.socket = some s) :
    k.connecting = true ∨ k.state = .ready ∨ k.state = .closed := by
  cases hl with
  | fresh | failed | waiting => cases hs
  | first | trying => exact .inl rfl
  | ready => exact .inr (.inl rfl)
  | closed => exact .inr (.inr rfl)

/-- A connection that is ready runs no attempt. -/
theorem Linked.not_connecting {k : Link} (hl : Linked k) (hr : k.state = .ready) :
    k.connecting ≠ true := by
  cases hl with
  | fresh | failed | ready | waiting | closed => simp
  | first | trying => cases hr

namespace Conn

variable {cfg : Config}

def link (c : Conn) : Link :=
  ⟨c.state, c.socket, c.connecting, c.everConnected, c.connectCalled, c.connectFailed, c.attempt,
    c.loops⟩

/-- The history only grows. -/
theorem Move.history {l : Option BackendMsg} {c c' : Conn} {h h' : Option (TaskId × ConnState)}
    (hm : Move cfg PumpMove l (c, h) (c', h')) : c.history <+: c'.history := by
  cases hm with
  | gate hm =>
    obtain ⟨_, _, _, _, _, _, _, h⟩ := hm.shape
    rw [h]
  | cancel hm =>
    obtain ⟨_, _, _, _, _, _, h, -⟩ := hm.shape
    rw [h]
  | pump hm =>
    obtain ⟨_, _, _, h, -⟩ := hm.shape
    rw [h]
  | link hm =>
    obtain ⟨_, h, -⟩ := hm.relinks.history
    rw [h]
    exact List.prefix_append ..
  | emit s f =>
    obtain ⟨_, h, -⟩ := writeTo_shape c s [⟨.link, f⟩]
    rw [h]
  | settles hs =>
    obtain ⟨_, _, h, -⟩ := hs
    rw [h]
  | refuse | create | discard | release | dequeue | enqueue | requeue => exact List.prefix_rfl
  | quit t e =>
    obtain ⟨_, _, h, -⟩ := rejectTask_settles
      (c.modTask t fun k => { k with settled := true, timer := false }) t e
    unfold Conn.quit
    rw [h]
    exact List.prefix_rfl
  | finish =>
    obtain ⟨_, _, h, -⟩ := settleFinished_shape (c.clearTimers _) _
    rw [h]
    exact List.prefix_rfl
  | start t rest =>
    cases hs : ({ c with queue := rest }.serialize cfg t).2 with
    | none =>
      obtain ⟨_, _, _, _, _, _, _, _, -, h⟩ := startTask_ok_shape hs
      rw [h]
      exact List.prefix_append ..
    | some e =>
      obtain ⟨_, _, _, _, _, h, -⟩ := startTask_throw_shape hs
      rw [h]
      exact List.prefix_append ..
  | flush =>
    obtain ⟨_, _, _, _, h, -⟩ := flushWrites_shape c
    rw [h]
  | listen m =>
    obtain ⟨_, h, -⟩ := @listen_shape cfg c m
    rw [h]
  | miss m =>
    obtain ⟨_, h, -⟩ := receive_shape c m
    rw [h]
  | cache =>
    rcases cacheCurrent_shape c with h | ⟨_, _, _, _, -, -, -, -, h⟩
    · rw [h]
    · rw [h]
      exact List.prefix_append ..
  | attemptDone status =>
    obtain ⟨_, h', -⟩ := receive_shape c (.readyForQuery status)
    obtain ⟨_, _, h, -⟩ := attemptDone_shape (c.receive (.readyForQuery status)) (status.getD 'I')
    rw [h, h']
  | idle status =>
    obtain ⟨_, h, -⟩ := receive_shape c (.readyForQuery status)
    rw [h]
  | pop status t rest =>
    obtain ⟨_, h, -⟩ := receive_shape c (.readyForQuery status)
    rw [h]
    exact List.prefix_append ..
  | copyNone =>
    obtain ⟨_, h', -⟩ := receive_shape c .copyInResponse
    obtain ⟨_, h, -⟩ := writeSocket_shape (c.receive .copyInResponse) _
    rw [h, h']
  | copyPlain t =>
    obtain ⟨_, _, h, -⟩ := @noteCopyIn_shape cfg c t
    obtain ⟨_, h', -⟩ := writeSocket_shape (c.noteCopyIn cfg t) _
    rw [h', h]
    exact List.prefix_append ..
  | copyPump t =>
    obtain ⟨_, _, h, -⟩ := @noteCopyIn_shape cfg c t
    rw [h]
    exact List.prefix_append ..
  | copyBoth =>
    obtain ⟨_, h, -⟩ := @listen_shape cfg c .copyBothResponse
    obtain ⟨_, h', -⟩ := writeSocket_shape (c.listen cfg .copyBothResponse) _
    rw [h', h]
  | parseFailed =>
    obtain ⟨_, _, h⟩ := noteParseFailure_shape c _
    rw [h]
  | invalidated =>
    obtain ⟨_, _, h⟩ := dropInvalidated_shape c _
    rw [h]

theorem dialing_history {c : Conn} {e : Event} (hd : e.isDialing = true) :
    c.history <+: (c.step cfg e).history := by
  cases e with
  | connect =>
    obtain ⟨_, h, -⟩ := (connect_relinks c).history
    exact ⟨_, h.symm⟩
  | loopWake l =>
    obtain ⟨_, h, -⟩ := (loopWake_relinks c l).history
    exact ⟨_, h.symm⟩
  | dialed d =>
    change c.history <+: (c.dialed d).history
    obtain ⟨_, _, _, _, _, h, -⟩ := dialed_shape c d
    rw [h]
  | _ => cases hd

theorem Moves.history {ms : List BackendMsg} {p q : Point} (h : Moves cfg PumpMove ms p q) :
    p.1.history <+: q.1.history := by
  induction h with
  | refl => exact List.prefix_rfl
  | tail _ hm ih => exact ih.trans hm.history

/-! ### The station after a move -/

theorem rejectAttempt_link (c : Conn) (e : JsError) :
    (c.rejectAttempt e).link = c.link.reject e := by
  unfold rejectAttempt Link.reject link
  dsimp only
  cases c.attempt with
  | none => rfl
  | some o =>
    cases o with
    | connect => rfl
    | loop l =>
      dsimp only
      cases c.loops l with
      | sleeping | establishing | failed | ended => rfl

theorem Settles.link {c c' : Conn} (h : Settles c c') : c'.link = c.link := by
  obtain ⟨_, _, h, -, -⟩ := h
  rw [h]
  rfl

theorem clearConnTimer_link (c : Conn) : c.clearConnTimer.link = c.link := by
  obtain ⟨_, h⟩ := clearConnTimer_shape c
  rw [h]
  rfl

theorem destroySocket_link (c : Conn) : c.destroySocket.link = c.link := by
  unfold destroySocket
  split
  · rfl
  · rfl

theorem writeSocket_link (c : Conn) (ps : List Packet) : (c.writeSocket ps).link = c.link := by
  obtain ⟨_, h, -⟩ := writeSocket_shape c ps
  rw [h]
  rfl

theorem clearPendingCancel_link (c : Conn) : c.clearPendingCancel.link = c.link := by
  obtain ⟨_, h, -⟩ := clearPendingCancel_shape c
  rw [h]
  rfl

theorem rejectQueue_link (c : Conn) (e : JsError) : (c.rejectQueue e).link = c.link := by
  obtain ⟨c', hs, h, -⟩ := rejectQueue_shape c e
  rw [h]
  exact hs.link

theorem dropInflight_link (c : Conn) (e : JsError) : (c.dropInflight e).link = c.link := by
  obtain ⟨c', hs, h, -⟩ := dropInflight_shape c e
  rw [h]
  exact hs.link

theorem dropQueue_link (c : Conn) (e : JsError) : (c.dropQueue e).link = c.link := by
  obtain ⟨c', hs, h, -⟩ := dropQueue_shape c e
  rw [h]
  exact hs.link

theorem settlePending_link (c : Conn) (e : JsError) : (c.settlePending e).link = c.link := by
  unfold settlePending
  dsimp only
  rw [dropQueue_link, dropInflight_link]
  rfl

/-- The loop of `l` ends or sleeps on. -/
theorem loopTop_link (c : Conn) (l : LoopId) (attempt : Nat) (e : JsError) : ∃ st ph,
    (st = c.state ∨ st = .closed) ∧ ph.isEstablishing = false ∧ (c.loopTop cfg l attempt e).link =
      { c.link with state := st, loops := Function.update c.loops l ph } := by
  unfold loopTop
  split
  · exact ⟨c.state, .ended, .inl rfl, rfl, rfl⟩
  · split
    · refine ⟨.closed, .ended, .inr rfl, rfl, ?_⟩
      rw [rejectQueue_link]
      rfl
    · exact ⟨c.state, .sleeping attempt e, .inl rfl, rfl, rfl⟩

theorem dropSocket_link (c : Conn) (e : JsError) :
    (c.dropSocket e).link = { c.link with socket := none } := by
  unfold dropSocket
  rw [dropInflight_link]
  change { c.clearPendingCancel.destroySocket.link with socket := none } = _
  rw [destroySocket_link, clearPendingCancel_link]

/-- The last retry of a loop, or the sleep before the next one. -/
theorem loopTop_linked {c : Conn} {l : LoopId} (attempt : Nat) (e : JsError)
    (h : ∀ st ph, st = c.state ∨ st = .closed → ph.isEstablishing = false →
      Linked { c.link with state := st, loops := Function.update c.loops l ph }) :
    Linked (c.loopTop cfg l attempt e).link := by
  obtain ⟨st, ph, hs, hp, hl⟩ := @loopTop_link cfg c l attempt e
  rw [hl]
  exact h st ph hs hp

theorem failAttempt_linked {c : Conn} (hl : Linked c.link) (e : JsError) :
    Linked (c.failAttempt e).link := by
  unfold failAttempt
  split
  · exact hl
  · rename_i hc
    have hd : (({ c with connecting := false }.clearConnTimer).destroySocket).link =
        { c.link with connecting := false } := by
      rw [destroySocket_link, clearConnTimer_link]
      rfl
    dsimp only
    generalize ({ c with connecting := false }.clearConnTimer).destroySocket = d at hd ⊢
    have hd' : ({ d with socket := none } : Conn).link =
        { c.link with connecting := false, socket := none } := by
      change { d.link with socket := none } = _
      rw [hd]
    generalize { d with socket := none } = d' at hd' ⊢
    rw [rejectAttempt_link, hd']
    have hc' : c.link.connecting = true := by simpa [link] using hc
    generalize c.link = k at hl hc' ⊢
    cases hl with
    | first s => exact .failed e
    | trying l a s =>
      unfold Link.reject
      dsimp only
      rw [oneLoop_self]
      dsimp only
      rw [update_oneLoop]
      exact .waiting l rfl
    | fresh | failed | ready | waiting | closed => cases hc'

/-- **A socket dies**: the connection is ready, or an attempt runs on the socket. -/
theorem onSocketDown_linked {c : Conn} (hl : Linked c.link) (e : JsError)
    (hs : c.connecting = true ∨ c.state = .ready ∨ c.state = .closed) :
    Linked (c.onSocketDown cfg e).link := by
  unfold onSocketDown
  split
  · exact hl
  · rename_i hcl
    split
    · exact failAttempt_linked hl e
    · rename_i hc
      have hr : c.state = .ready := by
        rcases hs with hs | hs | hs
        · exact absurd hs hc
        · exact hs
        · exact absurd hs hcl
      have hlink : ∃ s, c.link = ⟨.ready, s, false, true, true, none, none, noLoop⟩ := by
        have hr' : c.link.state = .ready := hr
        generalize c.link = L at hl hr'
        cases hl with
        | ready s => exact ⟨s, rfl⟩
        | fresh hs => rcases hs with hs | hs <;> (rw [hs] at hr'; cases hr')
        | first | failed | waiting | trying | closed => cases hr'
      obtain ⟨s, hlink⟩ := hlink
      have hd := dropSocket_link c e
      rw [hlink] at hd
      unfold socketLost
      dsimp only
      generalize c.dropSocket e = d at hd ⊢
      split
      · unfold startReconnect
        refine loopTop_linked 0 e fun st ph hst hp => ?_
        have hloops : d.loops = noLoop := (congrArg Link.loops hd :)
        change Linked { d.link with state := st, loops := Function.update d.loops d.nextLoop ph }
        rw [hd, hloops]
        rcases hst with rfl | rfl
        · exact .waiting d.nextLoop hp
        · exact .closed none true none (update_isEstablishing (fun _ => rfl) _ hp)
      · rw [rejectQueue_link]
        change Linked { d.link with state := .closed }
        rw [hd]
        exact .closed none true none fun _ => rfl

/-- The first call of `connect()`. -/
theorem connect_linked {c : Conn} (hl : Linked c.link) : Linked c.connect.link := by
  unfold connect
  split
  · exact hl
  · rename_i hc
    rw [Bool.not_eq_true] at hc
    unfold establish link
    dsimp only
    have hc' : c.link.connectCalled = false := hc
    have he : c.link.everConnected = c.everConnected := rfl
    have hk : c.link.socket = c.socket := rfl
    have hf : c.link.connectFailed = c.connectFailed := rfl
    have hp : c.link.loops = c.loops := rfl
    rw [← he, ← hk, ← hf, ← hp]
    generalize c.link = k at hl hc' ⊢
    cases hl with
    | fresh => exact .first none
    | first | failed | ready | waiting | trying | closed => cases hc'

theorem connectCatch_linked {c : Conn} (hl : Linked c.link) : Linked c.connectCatch.link := by
  unfold connectCatch
  split
  · exact hl
  · rename_i e hf
    dsimp only
    have hf' : c.link.connectFailed = some e := hf
    split
    · rename_i he
      have he' : c.link.everConnected = true := he
      change Linked { c.link with connectFailed := none }
      generalize c.link = k at hl hf' he' ⊢
      cases hl with
      | fresh | first | ready | waiting | trying => cases hf'
      | failed => cases he'
      | closed s ever failed hp => exact .closed s ever none hp
    · rw [rejectQueue_link]
      change Linked { c.link with connectFailed := none, state := .closed }
      generalize c.link = k at hl hf' ⊢
      cases hl with
      | fresh | first | ready | waiting | trying => cases hf'
      | failed e' => exact .closed none false none fun _ => rfl
      | closed s ever failed hp => exact .closed s ever none hp

theorem loopWake_linked {c : Conn} (hl : Linked c.link) (l : LoopId) :
    Linked (c.loopWake l).link := by
  unfold loopWake
  split
  · rename_i attempt e hs
    have hp : c.link.loops l = .sleeping attempt e := hs
    have hst : c.link.state = c.state := rfl
    have hever : c.link.everConnected = c.everConnected := rfl
    rcases hl.of_loop (l := l) (by rw [hp]; rfl) (by rw [hp]; simp) with h | ⟨s, ev, f, ls, h, hls⟩
    · split
      · change Linked { c.link with loops := Function.update c.link.loops l .ended }
        rw [h]
        dsimp only
        rw [update_oneLoop]
        exact .waiting l rfl
      · change Linked { c.link with
          attempt := some (.loop l), connecting := true
          state := if c.link.everConnected then .reconnecting else .connecting
          loops := Function.update c.link.loops l (.establishing attempt) }
        rw [h]
        dsimp only
        rw [update_oneLoop]
        exact .trying l attempt none
    · rw [h] at hst
      split
      · change Linked { c.link with loops := Function.update c.link.loops l .ended }
        rw [h]
        exact .closed s ev f (update_isEstablishing hls l rfl)
      · rename_i hn
        rw [← hst] at hn
        simp at hn
  · exact hl

theorem loopCatch_linked {c : Conn} (hl : Linked c.link) (l : LoopId) :
    Linked (c.loopCatch cfg l).link := by
  unfold loopCatch
  split
  · rename_i attempt e hs
    have hp : c.link.loops l = .failed attempt e := hs
    have hall : ∀ st ph, st = c.state ∨ st = .closed → ph.isEstablishing = false →
        Linked { c.link with state := st, loops := Function.update c.loops l ph } := by
      intro st ph hst hph
      have hst' : c.link.state = c.state := rfl
      change Linked { c.link with state := st, loops := Function.update c.link.loops l ph }
      rcases hl.of_loop (l := l) (by rw [hp]; rfl) (by rw [hp]; simp) with
        h | ⟨s, ev, f, ls, h, hls⟩
      · rw [h] at hst' ⊢
        dsimp only
        rw [update_oneLoop]
        rcases hst with rfl | rfl
        · rw [← hst']
          exact .waiting l hph
        · exact .closed none true none (update_isEstablishing (fun _ => rfl) l hph)
      · rw [h] at hst' ⊢
        have hcl : st = .closed := by
          rcases hst with rfl | rfl
          · exact hst'.symm
          · rfl
        rw [hcl]
        exact .closed s ev f (update_isEstablishing hls l hph)
    split
    · rw [rejectQueue_link]
      exact hall .closed .ended (.inr rfl) rfl
    · exact loopTop_linked _ _ hall
  · exact hl

theorem endConn_linked {c : Conn} (hl : Linked c.link) : Linked c.endConn.link := by
  unfold endConn
  split
  · exact hl
  · rename_i hcl
    have hcl' : c.link.state ≠ .closed := hcl
    dsimp only
    rw [clearPendingCancel_link, settlePending_link]
    have hw : (writeSocket { c with ended := true }.clearConnTimer [⟨.link, .terminate⟩]).link =
        c.link := by
      rw [writeSocket_link, clearConnTimer_link]
      rfl
    generalize writeSocket { c with ended := true }.clearConnTimer [⟨.link, .terminate⟩] = d
      at hw ⊢
    have hc : d.connecting = c.link.connecting := (congrArg Link.connecting hw :)
    split
    · rename_i hcon
      rw [hc] at hcon
      rw [rejectAttempt_link]
      change Linked (Link.reject { d.link with state := .closed, connecting := false } endError)
      rw [hw]
      generalize c.link = k at hl hcl' hcon ⊢
      cases hl with
      | first s => exact .closed s false (some endError) fun _ => rfl
      | trying l a s =>
        unfold Link.reject
        dsimp only
        rw [oneLoop_self]
        dsimp only
        rw [update_oneLoop]
        exact .closed s true none (update_isEstablishing (fun _ => rfl) l rfl)
      | fresh | failed | ready | waiting | closed => cases hcon
    · rename_i hcon
      rw [hc] at hcon
      change Linked { d.link with state := .closed }
      rw [hw]
      generalize c.link = k at hl hcl' hcon ⊢
      cases hl with
      | fresh hs => exact .fresh (.inr rfl)
      | failed e => exact .closed none false (some e) fun _ => rfl
      | ready s => exact .closed s true none fun _ => rfl
      | waiting l hp => exact .closed none true none (update_isEstablishing (fun _ => rfl) l hp)
      | first | trying => exact absurd rfl hcon
      | closed => exact absurd rfl hcl'

theorem attemptDone_linked {c : Conn} (hl : Linked c.link) (hc : c.connecting = true)
    (status : Char) : Linked (c.attemptDone status).link := by
  obtain ⟨armed, loops, h, hsame, hown⟩ := attemptDone_shape c status
  rw [h]
  change Linked { c.link with
    connecting := false, everConnected := true, state := .ready, attempt := none, loops := loops }
  have hc' : c.link.connecting = true := hc
  have hsame : ∀ l, loops l = c.link.loops l ∨ loops l = .ended := hsame
  have hown : ∀ l, c.link.attempt = some (.loop l) → loops l = .ended := hown
  generalize c.link = k at hl hc' hsame hown ⊢
  have hno : (∀ l, loops l = .ended) → loops = noLoop := fun h => funext h
  cases hl with
  | first s =>
    rw [hno fun l => ?_]
    · exact .ready s
    · rcases hsame l with h | h
      · exact h
      · exact h
  | trying l a s =>
    rw [hno fun l' => ?_]
    · exact .ready s
    · by_cases hll : l' = l
      · rw [hll]
        exact hown l rfl
      · rcases hsame l' with h | h
        · rw [h]
          exact Function.update_of_ne hll _ _
        · exact h
  | fresh | failed | ready | waiting | closed => cases hc'

/-- A new socket belongs to the attempt that runs, or to none. -/
theorem dialed_linked {c : Conn} (hl : Linked c.link) (d : DialId) : Linked (c.dialed d).link := by
  obtain ⟨_, _, _, _, _, h, hs⟩ := dialed_shape c d
  rw [h]
  rcases hs with ⟨-, hs, -⟩ | ⟨hc, hs, -⟩
  · rw [hs]
    exact hl
  · rw [hs]
    change Linked { c.link with socket := some c.nextSocket }
    have hc' : c.link.connecting = true := hc
    generalize c.link = k at hl hc' ⊢
    cases hl with
    | first => exact .first _
    | trying l a => exact .trying l a _
    | fresh | failed | ready | waiting | closed => cases hc'

theorem dialing_linked {c : Conn} {e : Event} (hd : e.isDialing = true) (hl : Linked c.link) :
    Linked (c.step cfg e).link := by
  cases e with
  | connect => exact connect_linked hl
  | loopWake l => exact loopWake_linked hl l
  | dialed d => exact dialed_linked hl d
  | _ => cases hd

theorem LinkMove.linked {c c' : Conn} (hm : LinkMove cfg c c') (hl : Linked c.link)
    (hh : ∀ m ∈ c'.history, m.isClaimed = true) : Linked c'.link := by
  cases hm with
  | destroy s => exact hl
  | connectCatch => exact connectCatch_linked hl
  | loopCatch l => exact loopCatch_linked hl l
  | endConn => exact endConn_linked hl
  | failAttempt e => exact failAttempt_linked hl e
  | retire e hs => exact onSocketDown_linked hl e (.inr (.inl hs))
  | socketDown e s hs => exact onSocketDown_linked hl e (hl.of_socket (k := c.link) hs)
  | takeDown e =>
    have hmem : Moment.thrown c.state c.connecting ∈ (c.takeDown cfg e).history := by
      obtain ⟨ms, h, -⟩ := (@onSocketDown_relinks cfg
        (c.note (.thrown c.state c.connecting)) e).history
      unfold Conn.takeDown
      rw [h]
      exact List.mem_append_left _ (List.mem_append_right _ (List.mem_singleton_self _))
    have hcl := hh _ hmem
    simp only [Moment.isClaimed, Bool.or_eq_true, beq_iff_eq] at hcl
    have hl' : Linked (c.note (.thrown c.state c.connecting)).link := hl
    refine onSocketDown_linked hl' e ?_
    rcases hcl with (h | h) | h
    · exact .inl h
    · exact .inr (.inl h)
    · exact .inr (.inr h)

/-- **The stations are kept** as long as every throw comes while the death of the socket has not
been noticed. -/
theorem Move.linked {l : Option BackendMsg} {c c' : Conn} {h h' : Option (TaskId × ConnState)}
    (hm : Move cfg PumpMove l (c, h) (c', h')) (hl : Linked c.link)
    (hh : ∀ m ∈ c'.history, m.isClaimed = true) : Linked c'.link := by
  cases hm with
  | gate hm =>
    obtain ⟨_, _, _, _, _, _, _, h⟩ := hm.shape
    rw [h]
    exact hl
  | cancel hm =>
    obtain ⟨_, _, _, _, _, _, h, -⟩ := hm.shape
    rw [h]
    exact hl
  | pump hm =>
    obtain ⟨_, _, _, h, -⟩ := hm.shape
    rw [h]
    exact hl
  | link hm => exact hm.linked hl hh
  | emit s f =>
    obtain ⟨_, h, -⟩ := writeTo_shape c s [⟨.link, f⟩]
    rw [h]
    exact hl
  | settles hs =>
    rw [hs.link]
    exact hl
  | refuse | create | discard | release | dequeue | enqueue | requeue => exact hl
  | quit t e =>
    unfold Conn.quit
    rw [(rejectTask_settles _ t e).link]
    exact hl
  | finish =>
    obtain ⟨_, _, h, -⟩ := settleFinished_shape (c.clearTimers _) _
    rw [h]
    exact hl
  | start t rest =>
    cases hs : ({ c with queue := rest }.serialize cfg t).2 with
    | none =>
      obtain ⟨_, _, _, _, _, _, _, _, -, h⟩ := startTask_ok_shape hs
      rw [h]
      exact hl
    | some e =>
      obtain ⟨_, _, _, _, _, h, -⟩ := startTask_throw_shape hs
      rw [h]
      exact hl
  | flush =>
    obtain ⟨_, _, _, _, h, -⟩ := flushWrites_shape c
    rw [h]
    exact hl
  | listen m =>
    obtain ⟨_, h, -⟩ := @listen_shape cfg c m
    rw [h]
    exact hl
  | miss m =>
    obtain ⟨_, h, -⟩ := receive_shape c m
    rw [h]
    exact hl
  | cache =>
    rcases cacheCurrent_shape c with h | ⟨_, _, _, _, -, -, -, -, h⟩
    · rw [h]
      exact hl
    · rw [h]
      exact hl
  | attemptDone status hc =>
    have hl' : Linked (c.receive (.readyForQuery status)).link := by
      obtain ⟨_, h, -⟩ := receive_shape c (.readyForQuery status)
      rw [h]
      exact hl
    exact attemptDone_linked hl' ((receive_connecting c _).trans hc) _
  | idle status =>
    obtain ⟨_, h, -⟩ := receive_shape c (.readyForQuery status)
    rw [h]
    exact hl
  | pop status t rest =>
    obtain ⟨_, h, -⟩ := receive_shape c (.readyForQuery status)
    rw [h]
    exact hl
  | copyNone =>
    obtain ⟨_, h', -⟩ := receive_shape c .copyInResponse
    obtain ⟨_, h, -⟩ := writeSocket_shape (c.receive .copyInResponse) _
    rw [h, h']
    exact hl
  | copyPlain t =>
    obtain ⟨_, _, h, -⟩ := @noteCopyIn_shape cfg c t
    obtain ⟨_, h', -⟩ := writeSocket_shape (c.noteCopyIn cfg t) _
    rw [h', h]
    exact hl
  | copyPump t =>
    obtain ⟨_, _, h, -⟩ := @noteCopyIn_shape cfg c t
    rw [h]
    exact hl
  | copyBoth =>
    obtain ⟨_, h, -⟩ := @listen_shape cfg c .copyBothResponse
    obtain ⟨_, h', -⟩ := writeSocket_shape (c.listen cfg .copyBothResponse) _
    rw [h', h]
    exact hl
  | parseFailed =>
    obtain ⟨_, _, h⟩ := noteParseFailure_shape c _
    rw [h]
    exact hl
  | invalidated =>
    obtain ⟨_, _, h⟩ := dropInvalidated_shape c _
    rw [h]
    exact hl

end Conn

end Minipg
