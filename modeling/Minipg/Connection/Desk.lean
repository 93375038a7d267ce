import Minipg.Connection.Shapes

/-!
# Who calls `processQueue` next

Dispatch is gated by the depth of the pipeline, the backpressure of the socket, a pending
cancel, a retiring connection, and streams that run alone.  `desk` reads off what the gates
look at.  `Manned` says that whatever closes a gate has left somebody who will open it, and
`Served` that a queue is left waiting only at a closed gate; `processQueue` serves every
desk that is manned.
-/

namespace Minipg

/-- The cancel request is not answered, and the timer that gives it up runs. -/
def PendingCancel.isWaiting (r : PendingCancel) : Bool :=
  !r.isConfirmed && !r.hasFailed && r.timer

/-- What the gates of `processQueue` look at. -/
structure Desk where
  state : ConnState
  connecting : Bool
  socket : Option SocketId
  queue : List TaskId
  inflight : List TaskId
  writeBackedUp : Bool
  drainWaiters : List SocketId
  pendingCancel : Option CancelId
  isRetiring : Bool
  cancels : CancelId → PendingCancel

namespace Desk

/-- Whom a pending cancel waits for: its head, which is in flight or in the hands of the running
callback, or its confirmation; a connection that retires waits for neither. -/
def Awaits (d : Desk) (held : Option TaskId) (p : CancelId) : Prop :=
  (∃ t, (d.cancels p).head = some t ∧ (t ∈ d.inflight ∨ held = some t)) ∨
    (d.cancels p).head = none ∧ (d.isRetiring = true ∨ (d.cancels p).isWaiting = true)

/-- A socket that backed up is listened to, and only a ready connection with a socket starts
tasks. -/
structure Gated (d : Desk) : Prop where
  gate : ∀ s, d.socket = some s → d.writeBackedUp = true → s ∈ d.drainWaiters
  idle : d.connecting = true → d.state ≠ .ready
  housed : d.state = .ready → d.socket ≠ none

/-- Every closed gate has somebody who opens it. -/
structure Manned (held : Option TaskId) (d : Desk) : Prop extends Gated d where
  cancel : ∀ p, d.pendingCancel = some p → d.Awaits held p

/-- Nothing is left to do now: a connection that retires has a task in flight, and a queue that is
not empty waits at a gate. -/
structure Served (d : Desk) : Prop where
  retiring : d.state = .ready → d.isRetiring = true → d.inflight ≠ []
  queued : d.state = .ready → d.queue ≠ [] →
    d.inflight ≠ [] ∨ d.writeBackedUp = true ∨ d.pendingCancel ≠ none

/-- Tasks start and batches leave: only the queue gets shorter, and the socket may back up. -/
structure Fills (d d' : Desk) : Prop where
  state : d'.state = d.state
  connecting : d'.connecting = d.connecting
  socket : d'.socket = d.socket
  pendingCancel : d'.pendingCancel = d.pendingCancel
  isRetiring : d'.isRetiring = d.isRetiring
  cancels : d'.cancels = d.cancels
  inflight : d.inflight <+: d'.inflight
  waiters : d.drainWaiters ⊆ d'.drainWaiters
  backed : d.writeBackedUp = true → d'.writeBackedUp = true
  gate : d'.writeBackedUp = true →
    d.writeBackedUp = true ∨ ∃ s, d.socket = some s ∧ s ∈ d'.drainWaiters

/-- The connection is not ready any more, and its attempt or session is over. -/
structure Leaves (d d' : Desk) : Prop where
  state : d'.state ≠ .ready
  socket : d'.socket = none
  connecting : d'.connecting = true → d.connecting = true
  cancel : d'.pendingCancel = none ∨ d'.pendingCancel = d.pendingCancel ∧
    d'.inflight = d.inflight ∧ d'.isRetiring = d.isRetiring ∧ d'.cancels = d.cancels

/-- An attempt that still runs keeps its socket. -/
def Stays (d d' : Desk) : Prop :=
  d'.connecting = true → d.connecting = true ∧ d'.socket = d.socket

variable {held : Option TaskId} {d d' d'' : Desk}

theorem Stays.refl (d : Desk) : d.Stays d := fun h => ⟨h, rfl⟩

theorem Stays.trans (h : d.Stays d') (g : d'.Stays d'') : d.Stays d'' := by
  intro hc
  obtain ⟨hc', hs'⟩ := g hc
  obtain ⟨hc, hs⟩ := h hc'
  exact ⟨hc, hs'.trans hs⟩

theorem Stays.of_eq (hc : d'.connecting = d.connecting) (hs : d'.socket = d.socket) : d.Stays d' :=
  fun h => ⟨hc.symm.trans h, hs⟩

theorem Fills.refl (d : Desk) : d.Fills d where
  state := rfl
  connecting := rfl
  socket := rfl
  pendingCancel := rfl
  isRetiring := rfl
  cancels := rfl
  inflight := List.prefix_rfl
  waiters _ h := h
  backed h := h
  gate h := .inl h

theorem Fills.trans (h : d.Fills d') (g : d'.Fills d'') : d.Fills d'' where
  state := g.state.trans h.state
  connecting := g.connecting.trans h.connecting
  socket := g.socket.trans h.socket
  pendingCancel := g.pendingCancel.trans h.pendingCancel
  isRetiring := g.isRetiring.trans h.isRetiring
  cancels := g.cancels.trans h.cancels
  inflight := h.inflight.trans g.inflight
  waiters _ hs := g.waiters (h.waiters hs)
  backed hb := g.backed (h.backed hb)
  gate hb := by
    rcases g.gate hb with hb' | ⟨s, hs, hm⟩
    · rcases h.gate hb' with hb'' | ⟨s, hs, hm⟩
      · exact .inl hb''
      · exact .inr ⟨s, hs, g.waiters hm⟩
    · exact .inr ⟨s, h.socket.symm.trans hs, hm⟩

theorem Manned.fills (hm : d.Manned held) (h : d.Fills d') : d'.Manned held where
  gate s hs hb := by
    rw [h.socket] at hs
    rcases h.gate hb with hb' | ⟨s', hs', hw⟩
    · exact h.waiters (hm.gate s hs hb')
    · rw [Option.some.inj (hs.symm.trans hs')]
      exact hw
  idle hc := by
    rw [h.connecting] at hc
    rw [h.state]
    exact hm.idle hc
  housed hr := by
    rw [h.state] at hr
    rw [h.socket]
    exact hm.housed hr
  cancel p hp := by
    rw [h.pendingCancel] at hp
    unfold Awaits
    rw [h.cancels, h.isRetiring]
    rcases hm.cancel p hp with ⟨t, ht, hi | hi⟩ | hw
    · exact .inl ⟨t, ht, .inl (h.inflight.subset hi)⟩
    · exact .inl ⟨t, ht, .inr hi⟩
    · exact .inr hw

theorem Manned.leaves (hm : d.Manned held) (h : d.Leaves d') : d'.Manned held where
  gate s hs := by
    rw [h.socket] at hs
    cases hs
  idle _ := h.state
  housed hr := absurd hr h.state
  cancel p hp := by
    rcases h.cancel with hn | ⟨hn, hi, hr, hk⟩
    · rw [hn] at hp
      cases hp
    · rw [hn] at hp
      unfold Awaits
      rw [hk, hi, hr]
      exact hm.cancel p hp

/-- A connection that is not ready has nothing to do. -/
theorem Served.of_not_ready (h : d.state ≠ .ready) : d.Served :=
  ⟨fun hr => absurd hr h, fun hr => absurd hr h⟩

/-- A connection that stops being ready and leaves the gates as they are. -/
theorem Manned.stops (hm : d.Manned held) (hs : d'.state ≠ .ready) (hk : d'.socket = d.socket)
    (hb : d'.writeBackedUp = true → d.writeBackedUp = true)
    (hw : d'.drainWaiters = d.drainWaiters)
    (hc : d'.pendingCancel = none ∨ d'.pendingCancel = d.pendingCancel ∧
      d'.inflight = d.inflight ∧ d'.isRetiring = d.isRetiring ∧ d'.cancels = d.cancels) :
    d'.Manned held where
  gate s h hb' := by
    rw [hk] at h
    rw [hw]
    exact hm.gate s h (hb hb')
  idle _ := hs
  housed hr := absurd hr hs
  cancel p hp := by
    rcases hc with hn | ⟨hn, hi, hr, hk⟩
    · rw [hn] at hp
      cases hp
    · rw [hn] at hp
      unfold Awaits
      rw [hk, hi, hr]
      exact hm.cancel p hp

/-- The frame rule of `Gated`. -/
theorem Gated.same (hg : d.Gated) (hs : d'.state = d.state) (hc : d'.connecting = d.connecting)
    (hk : d'.socket = d.socket) (hb : d'.writeBackedUp = d.writeBackedUp)
    (hw : d'.drainWaiters = d.drainWaiters) : d'.Gated where
  gate s h h' := by
    rw [hk] at h
    rw [hb] at h'
    rw [hw]
    exact hg.gate s h h'
  idle h := by
    rw [hc] at h
    rw [hs]
    exact hg.idle h
  housed h := by
    rw [hs] at h
    rw [hk]
    exact hg.housed h

/-- The gate is open. -/
theorem Gated.opened (hg : d.Gated) (waiters : List SocketId) :
    Gated { d with writeBackedUp := false, drainWaiters := waiters } where
  gate _ _ h := by cases h
  idle := hg.idle
  housed := hg.housed

/-- A cancel that is cleared awaits nobody. -/
theorem Gated.clear (hg : d.Gated) (cancels : CancelId → PendingCancel) :
    Manned held { d with cancels := cancels, pendingCancel := none, isRetiring := false } where
  toGated := hg.same rfl rfl rfl rfl rfl
  cancel _ h := by cases h

/-- The queue is no gate. -/
theorem Manned.queue (hm : d.Manned held) (q : List TaskId) : Manned held { d with queue := q } where
  toGated := hm.toGated.same rfl rfl rfl rfl rfl
  cancel := hm.cancel

end Desk

namespace Conn

open Desk

variable {cfg : Config}

def desk (c : Conn) : Desk :=
  ⟨c.state, c.connecting, c.socket, c.queue, c.inflight, c.writeBackedUp, c.drainWaiters,
    c.pendingCancel, c.isRetiring, c.cancels⟩

/-! ### Functions that concern no gate -/

theorem Settles.desk {c c' : Conn} (h : Settles c c') : c'.desk = c.desk := by
  obtain ⟨_, _, h, -, -⟩ := h
  rw [h]
  rfl

theorem writeSocket_desk (c : Conn) (ps : List Packet) : (c.writeSocket ps).desk = c.desk := by
  obtain ⟨_, h, -⟩ := writeSocket_shape c ps
  rw [h]
  rfl

theorem clearConnTimer_desk (c : Conn) : c.clearConnTimer.desk = c.desk := by
  obtain ⟨_, h⟩ := clearConnTimer_shape c
  rw [h]
  rfl

theorem destroySocket_desk (c : Conn) : c.destroySocket.desk = c.desk := by
  unfold destroySocket
  split
  · rfl
  · rfl

theorem rejectQueue_desk (c : Conn) (e : JsError) :
    (c.rejectQueue e).desk = { c.desk with queue := [] } := by
  obtain ⟨c', hs, h, -⟩ := rejectQueue_shape c e
  rw [h]
  show { c'.desk with queue := [] } = _
  rw [hs.desk]

theorem dropInflight_desk (c : Conn) (e : JsError) :
    (c.dropInflight e).desk = { c.desk with inflight := [] } := by
  obtain ⟨c', hs, h, -⟩ := dropInflight_shape c e
  rw [h]
  show { c'.desk with inflight := [] } = _
  rw [hs.desk]

theorem dropQueue_desk (c : Conn) (e : JsError) :
    (c.dropQueue e).desk = { c.desk with queue := [] } := by
  obtain ⟨c', hs, h, -⟩ := dropQueue_shape c e
  rw [h]
  show { c'.desk with queue := [] } = _
  rw [hs.desk]

theorem pumpFlush_desk (c : Conn) (p : PumpId) (fs : List Frame) (isLast : Bool) :
    (c.pumpFlush p fs isLast).desk = c.desk := by
  obtain ⟨_, _, _, h, -⟩ := pumpFlush_shape c p fs isLast
  rw [h]
  rfl

theorem pumpFinish_desk (c : Conn) (p : PumpId) : (c.pumpFinish p).desk = c.desk := by
  unfold pumpFinish
  dsimp only
  split
  · exact pumpFlush_desk ..
  · split
    · exact pumpFlush_desk ..
    · exact pumpFlush_desk ..

theorem pumpLoop_desk (c : Conn) (p : PumpId) : (c.pumpLoop p).desk = c.desk := by
  unfold pumpLoop
  split
  · exact pumpFinish_desk c p
  · rfl

theorem pumpCatch_desk (c : Conn) (p : PumpId) (e : JsError) : (c.pumpCatch p e).desk = c.desk := by
  obtain ⟨_, h, -⟩ := pumpCatch_shape c p e
  rw [h]
  rfl

theorem pumpNext_desk (c : Conn) (p : PumpId) (step : SourceStep) :
    (c.pumpNext p step).desk = c.desk := by
  unfold pumpNext
  dsimp only
  cases step with
  | threw e => exact pumpCatch_desk c p e
  | stopped | done => exact pumpFinish_desk c p
  | chunk b =>
    dsimp only
    split
    · exact pumpFinish_desk c p
    · split
      · exact pumpLoop_desk c p
      · split
        · split
          · exact pumpCatch_desk ..
          · exact pumpFlush_desk ..
        · exact pumpLoop_desk ..

theorem pumpResume_desk (c : Conn) (p : PumpId) : (c.pumpResume p).desk = c.desk := by
  unfold pumpResume
  split
  · exact pumpLoop_desk c p
  · rfl
  · exact pumpCatch_desk c p _
  · rfl

theorem pumpCopy_desk (c : Conn) (t : TaskId) : (c.pumpCopy t).desk = c.desk := by
  unfold pumpCopy
  dsimp only
  exact pumpLoop_desk ..

theorem receive_desk (c : Conn) (m : BackendMsg) : (c.receive m).desk = c.desk := by
  obtain ⟨_, h, -⟩ := receive_shape c m
  rw [h]
  rfl

theorem hearHead_desk (c : Conn) (m : BackendMsg) : (c.hearHead cfg m).desk = c.desk := by
  unfold hearHead modHead
  split
  · rfl
  · rfl

theorem cacheCurrent_desk (c : Conn) : c.cacheCurrent.desk = c.desk := by
  rcases cacheCurrent_shape c with h | ⟨_, _, _, _, -, -, -, -, h⟩
  · rw [h]
  · rw [h]
    rfl

theorem rejectAttempt_desk (c : Conn) (e : JsError) : (c.rejectAttempt e).desk = c.desk := by
  unfold rejectAttempt
  dsimp only
  split
  · rfl
  · rfl
  · split
    · rfl
    · rfl

theorem clearPendingCancel_desk (c : Conn) : ∃ cancels, c.clearPendingCancel.desk =
    { c.desk with cancels := cancels, pendingCancel := none, isRetiring := false } := by
  obtain ⟨cancels, h, -⟩ := clearPendingCancel_shape c
  exact ⟨cancels, by rw [h]; rfl⟩

/-! ### The end of an attempt or a session -/

/-- A loop goes on, or closes the connection. -/
theorem loopTop_desk (c : Conn) (l : LoopId) (attempt : Nat) (e : JsError) :
    (c.loopTop cfg l attempt e).desk = c.desk ∨
      (c.loopTop cfg l attempt e).desk = { c.desk with state := .closed, queue := [] } := by
  unfold loopTop
  split
  · exact .inl rfl
  · split
    · refine .inr ?_
      rw [rejectQueue_desk]
      rfl
    · exact .inl rfl

theorem failAttempt_desk {c : Conn} (e : JsError) (hc : c.connecting = true) :
    (c.failAttempt e).desk = { c.desk with connecting := false, socket := none } := by
  unfold failAttempt
  simp only [hc, Bool.not_true, Bool.false_eq_true, if_false]
  rw [rejectAttempt_desk]
  show { ({ c with connecting := false }.clearConnTimer).destroySocket.desk with socket := none } = _
  rw [destroySocket_desk, clearConnTimer_desk]
  rfl

theorem failAttempt_leaves {c : Conn} {held : Option TaskId} (hm : c.desk.Manned held) (e : JsError)
    (hc : c.connecting = true) : c.desk.Leaves (c.failAttempt e).desk := by
  rw [failAttempt_desk e hc]
  exact ⟨hm.idle hc, rfl, by simp, .inr ⟨rfl, rfl, rfl, rfl⟩⟩

theorem dropSocket_desk (c : Conn) (e : JsError) : ∃ cancels, (c.dropSocket e).desk =
    { c.desk with
      cancels := cancels, pendingCancel := none, isRetiring := false, socket := none
      inflight := [] } := by
  obtain ⟨cancels, h⟩ := clearPendingCancel_desk c
  refine ⟨cancels, ?_⟩
  unfold dropSocket
  rw [dropInflight_desk]
  show { c.clearPendingCancel.destroySocket.desk with socket := none, inflight := [] } = _
  rw [destroySocket_desk, h]

theorem startReconnect_desk (c : Conn) (e : JsError) : (c.startReconnect cfg e).desk = c.desk ∨
    (c.startReconnect cfg e).desk = { c.desk with state := .closed, queue := [] } :=
  loopTop_desk { c with nextLoop := c.nextLoop + 1 } c.nextLoop 0 e

theorem socketLost_leaves (c : Conn) (e : JsError) : c.desk.Leaves (c.socketLost cfg e).desk := by
  obtain ⟨cancels, hd⟩ := dropSocket_desk c e
  unfold socketLost
  dsimp only
  split
  · have hr : ({ c.dropSocket e with state := .reconnecting }.forgetStatements).desk =
        { (c.dropSocket e).desk with state := .reconnecting } := rfl
    rw [hd] at hr
    rcases @startReconnect_desk cfg
      ({ c.dropSocket e with state := .reconnecting }.forgetStatements) e with h | h
    · rw [h, hr]
      exact ⟨by simp, rfl, fun h => h, .inl rfl⟩
    · rw [h, hr]
      exact ⟨by simp, rfl, fun h => h, .inl rfl⟩
  · rw [rejectQueue_desk]
    have hr : ({ c.dropSocket e with state := .closed } : Conn).desk =
      { (c.dropSocket e).desk with state := .closed } := rfl
    rw [hr, hd]
    exact ⟨by simp, rfl, fun h => h, .inl rfl⟩

/-- **A socket dies**: what a desk needs is kept, and nothing is left to do. -/
theorem onSocketDown_manned {c : Conn} {held : Option TaskId} (hm : c.desk.Manned held)
    (e : JsError) : (c.onSocketDown cfg e).desk.Manned held ∧
      (c.onSocketDown cfg e).desk.state ≠ .ready ∧ c.desk.Stays (c.onSocketDown cfg e).desk := by
  unfold onSocketDown
  split
  · rename_i hc
    refine ⟨hm, ?_, .refl _⟩
    show c.state ≠ .ready
    rw [hc]
    simp
  · split
    · rename_i hc
      have hl := failAttempt_leaves hm e hc
      refine ⟨hm.leaves hl, hl.state, fun h => ?_⟩
      rw [failAttempt_desk e hc] at h
      cases h
    · rename_i hc
      have hl := @socketLost_leaves cfg c e
      exact ⟨hm.leaves hl, hl.state, fun h => absurd (hl.connecting h) hc⟩

/-! ### Dispatching -/

theorem writeChecked_desk (c : Conn) (s : SocketId) (ps : List Packet) :
    (c.writeChecked s ps).1.desk = c.desk := by
  unfold writeChecked
  split
  · rfl
  · obtain ⟨_, h, -⟩ := writeTo_shape c s ps
    rw [h]
    rfl

/-- A batch leaves, or fills the socket and closes the gate. -/
theorem flushWrites_desk (c : Conn) : c.flushWrites.desk = c.desk ∨
    ∃ s, c.socket = some s ∧ c.writeBackedUp = false ∧ c.flushWrites.desk =
      { c.desk with writeBackedUp := true, drainWaiters := c.drainWaiters ++ [s] } := by
  unfold flushWrites
  split
  · exact .inl rfl
  · dsimp only
    split
    · exact .inl rfl
    · rename_i s hs
      have hd := writeChecked_desk { c with outbuf := [] } s c.outbuf
      generalize { c with outbuf := [] }.writeChecked s c.outbuf = r at hd ⊢
      obtain ⟨c', ok⟩ := r
      dsimp only at hd ⊢
      have hb : c'.writeBackedUp = c.writeBackedUp := congrArg Desk.writeBackedUp hd
      split
      · rename_i h
        rw [Bool.and_eq_true, Bool.not_eq_true', Bool.not_eq_true', hb] at h
        refine .inr ⟨s, hs, h.2, ?_⟩
        show { c'.desk with writeBackedUp := true, drainWaiters := c'.desk.drainWaiters ++ [s] } = _
        rw [hd]
        rfl
      · exact .inl hd

theorem flushWrites_fills (c : Conn) : c.desk.Fills c.flushWrites.desk := by
  rcases flushWrites_desk c with h | ⟨s, hs, -, h⟩
  · rw [h]
    exact .refl _
  · rw [h]
    exact { Fills.refl c.desk with
      waiters := fun _ hm => List.mem_append_left _ hm
      backed := fun _ => rfl
      gate := fun _ => .inr ⟨s, hs, List.mem_append_right _ (List.mem_singleton_self s)⟩ }

theorem startTask_desk (c : Conn) (t : TaskId) : (c.startTask cfg t).desk = c.desk ∨
    (c.startTask cfg t).desk = { c.desk with inflight := c.inflight ++ [t] } := by
  cases hs : (c.serialize cfg t).2 with
  | none =>
    obtain ⟨_, _, _, _, _, _, _, _, -, h⟩ := startTask_ok_shape hs
    rw [h]
    exact .inr rfl
  | some e =>
    obtain ⟨_, _, _, _, _, h, -⟩ := startTask_throw_shape hs
    rw [h]
    exact .inl rfl

/-- One round of the loop takes one task from the queue. -/
theorem dispatchOne_desk {c : Conn} {t : TaskId} {rest : List TaskId} :
    c.desk.Fills (c.dispatchOne cfg t rest).desk ∧ (c.dispatchOne cfg t rest).queue = rest := by
  have hs : c.desk.Fills ({ c with queue := rest }.startTask cfg t).desk ∧
      ({ c with queue := rest }.startTask cfg t).queue = rest := by
    rcases @startTask_desk cfg { c with queue := rest } t with h | h
    · refine ⟨?_, congrArg Desk.queue h⟩
      rw [h]
      exact { Fills.refl c.desk with }
    · refine ⟨?_, congrArg Desk.queue h⟩
      rw [h]
      exact { Fills.refl c.desk with inflight := List.prefix_append .. }
  obtain ⟨hf, hq⟩ := hs
  unfold dispatchOne
  dsimp only
  split
  · refine ⟨hf.trans (flushWrites_fills _), ?_⟩
    rcases flushWrites_desk ({ c with queue := rest }.startTask cfg t) with h | ⟨_, -, -, h⟩
    · exact (congrArg Desk.queue h).trans hq
    · exact (congrArg Desk.queue h).trans hq
  · exact ⟨hf, hq⟩

/-- Where the loop stops, the queue is empty or the next task must wait. -/
theorem dispatchLoop_desk (n : Nat) : ∀ c : Conn, c.queue.length ≤ n →
    c.desk.Fills (dispatchLoop cfg n c).desk ∧
      ((dispatchLoop cfg n c).queue = [] ∨ ∃ t, (dispatchLoop cfg n c).canDispatch cfg t = false) := by
  induction n with
  | zero =>
    intro c hn
    exact ⟨.refl _, .inl (List.length_eq_zero_iff.mp (Nat.le_zero.mp hn))⟩
  | succ n ih =>
    intro c hn
    unfold dispatchLoop
    split
    · rename_i hq
      exact ⟨.refl _, .inl hq⟩
    · rename_i t rest hq
      split
      · obtain ⟨hf, hr⟩ := @dispatchOne_desk cfg c t rest
        have hlen : (c.dispatchOne cfg t rest).queue.length ≤ n := by
          rw [hq, List.length_cons] at hn
          rw [hr]
          omega
        obtain ⟨hf', h⟩ := ih _ hlen
        exact ⟨hf.trans hf', h⟩
      · rename_i hd
        exact ⟨.refl _, .inr ⟨t, by simpa using hd⟩⟩

/-- A task that must wait waits for a gate. -/
theorem waits_at_gate {c : Conn} {t : TaskId} (h : c.canDispatch cfg t = false) :
    c.inflight ≠ [] ∨ c.writeBackedUp = true ∨ c.pendingCancel ≠ none := by
  by_cases hi : c.inflight = []
  · have hd := cfg.depth_pos
    cases hb : c.writeBackedUp with
    | true => exact .inr (.inl rfl)
    | false =>
      cases hp : c.pendingCancel with
      | some p => exact .inr (.inr (by simp))
      | none =>
        simp [canDispatch, canStartNext, hi, hb, hp] at h
        omega
  · exact .inl hi

theorem flushSoon_fills (c : Conn) : c.desk.Fills (c.flushSoon cfg).desk := by
  unfold flushSoon
  split
  · exact .refl _
  · exact flushWrites_fills c

theorem flushSoon_queue (c : Conn) : (c.flushSoon cfg).queue = c.queue := by
  unfold flushSoon
  split
  · rfl
  · rcases flushWrites_desk c with h | ⟨_, -, -, h⟩
    · exact congrArg Desk.queue h
    · exact congrArg Desk.queue h

/-- **`processQueue` serves every desk that is manned.** -/
theorem processQueue_manned {c : Conn} {held : Option TaskId} (hm : c.desk.Manned held) :
    (c.processQueue cfg).desk.Manned held ∧ (c.processQueue cfg).desk.Served ∧
      c.desk.Stays (c.processQueue cfg).desk := by
  unfold processQueue
  split
  · rename_i hs
    exact ⟨hm, .of_not_ready hs, .refl _⟩
  · rename_i hs
    rw [not_not] at hs
    split
    · rename_i hr
      split
      · have hw : (c.writeSocket [⟨.link, .terminate⟩]).desk.Manned held := by
          rwa [writeSocket_desk]
        obtain ⟨hd, hoff, hst⟩ := @onSocketDown_manned cfg _ _ hw retireError
        rw [writeSocket_desk] at hst
        exact ⟨hd, .of_not_ready hoff, hst⟩
      · rename_i hi
        have hi : c.inflight ≠ [] := by simpa using hi
        exact ⟨hm, ⟨fun _ _ => hi, fun _ _ => .inl hi⟩, .refl _⟩
    · rename_i hr
      rw [Bool.not_eq_true] at hr
      obtain ⟨hf, hq⟩ := @dispatchLoop_desk cfg c.queue.length c (Nat.le_refl _)
      generalize dispatchLoop cfg c.queue.length c = d at hf hq ⊢
      have hfs := @flushSoon_fills cfg d
      have hall := hf.trans hfs
      refine ⟨hm.fills hall, ⟨fun _ h => ?_, fun _ hne => ?_⟩, .of_eq hall.connecting hall.socket⟩
      · have hret : c.isRetiring = true := hall.isRetiring.symm.trans h
        rw [hr] at hret
        cases hret
      · rcases hq with hq | ⟨t, ht⟩
        · exact absurd ((@flushSoon_queue cfg d).trans hq) hne
        · rcases waits_at_gate ht with h | h | h
          · refine .inl fun hn => h ?_
            exact List.prefix_nil.mp (hn ▸ hfs.inflight)
          · exact .inr (.inl (hfs.backed h))
          · refine .inr (.inr fun hn => h ?_)
            exact hfs.pendingCancel.symm.trans hn

end Conn

end Minipg
