import Minipg.Connection.Callbacks

/-!
# Sockets and dials through a callback

`wires` reads off what a connection holds of sockets and dials.  Attempts begin in
`connect()` and at the end of a backoff sleep, and sockets are adopted when a dial
resolves; every other callback only lets go: `Keeps` says how, and `Moves.keeps` that it
is so.
-/

namespace Minipg

/-- What a connection holds of sockets and dials. -/
structure Wires where
  socket : Option SocketId
  connecting : Bool
  connTimer : Option DialId
  dials : List DialId
  nextDial : DialId
  nextSocket : SocketId
  destroyed : SocketId → Bool
  sent : SocketId → List Packet

/-- Nothing begins: no dial is added and no socket adopted, and only the current socket gets
bytes; a socket that is let go is destroyed. -/
structure Wires.Keeps (w w' : Wires) : Prop where
  connecting : w'.connecting = true → w.connecting = true
  connTimer : w'.connTimer = w.connTimer
  dials : w'.dials.Sublist w.dials
  nextDial : w'.nextDial = w.nextDial
  nextSocket : w'.nextSocket = w.nextSocket
  socket : w'.socket = w.socket ∨
    w'.socket = none ∧ ∀ s, w.socket = some s → w'.destroyed s = true
  destroyed : ∀ s, w.destroyed s = true → w'.destroyed s = true
  dead : ∀ s, w'.destroyed s = true →
    w.destroyed s = true ∨ s < w.nextSocket ∨ w.socket = some s
  sent : ∀ s, w.socket ≠ some s → w'.sent s = w.sent s

namespace Wires

theorem Keeps.refl (w : Wires) : w.Keeps w where
  connecting h := h
  connTimer := rfl
  dials := .refl _
  nextDial := rfl
  nextSocket := rfl
  socket := .inl rfl
  destroyed _ h := h
  dead _ h := .inl h
  sent _ _ := rfl

theorem Keeps.of_eq {w w' : Wires} (h : w' = w) : w.Keeps w' := by
  rw [h]
  exact .refl w

/-- A socket that was not current does not become so. -/
theorem Keeps.not_current {w w' : Wires} (h : w.Keeps w') {s : SocketId}
    (hs : w.socket ≠ some s) : w'.socket ≠ some s := by
  rcases h.socket with hk | ⟨hk, -⟩
  · rwa [hk]
  · rw [hk]
    simp

theorem Keeps.trans {w w' w'' : Wires} (h : w.Keeps w') (g : w'.Keeps w'') : w.Keeps w'' where
  connecting hc := h.connecting (g.connecting hc)
  connTimer := g.connTimer.trans h.connTimer
  dials := g.dials.trans h.dials
  nextDial := g.nextDial.trans h.nextDial
  nextSocket := g.nextSocket.trans h.nextSocket
  socket := by
    rcases h.socket with hs | ⟨hs, hd⟩
    · rcases g.socket with gs | ⟨gs, gd⟩
      · exact .inl (gs.trans hs)
      · exact .inr ⟨gs, fun s h => gd s (hs.trans h)⟩
    · refine .inr ⟨?_, fun s h => g.destroyed s (hd s h)⟩
      rcases g.socket with gs | ⟨gs, -⟩
      · exact gs.trans hs
      · exact gs
  destroyed s hs := g.destroyed s (h.destroyed s hs)
  dead s hs := by
    rcases g.dead s hs with hs | hs | hs
    · exact h.dead s hs
    · exact .inr (.inl (Nat.lt_of_lt_of_eq hs h.nextSocket))
    · rcases h.socket with hk | ⟨hk, -⟩
      · exact .inr (.inr (hk.symm.trans hs))
      · rw [hk] at hs
        cases hs
  sent s hs := (g.sent s (h.not_current hs)).trans (h.sent s hs)

/-- The socket that is destroyed exists, or it is the current one. -/
theorem Keeps.destroy {w : Wires} {s : SocketId} (hs : s < w.nextSocket ∨ w.socket = some s) :
    w.Keeps { w with destroyed := Function.update w.destroyed s true } := by
  refine { Keeps.refl w with
    socket := .inl rfl, destroyed := fun k hk => ?_, dead := fun k hk => ?_ }
  · by_cases h : k = s
    · rw [h]
      exact Function.update_self ..
    · exact (Function.update_of_ne h _ _).trans hk
  · by_cases h : k = s
    · rw [h]
      exact .inr hs
    · exact .inl ((Function.update_of_ne h _ _).symm.trans hk)

/-- Bytes for the current socket. -/
theorem Keeps.write {w : Wires} {sent : SocketId → List Packet}
    (h : sent = w.sent ∨ ∃ s ps, w.socket = some s ∧
      sent = Function.update w.sent s (w.sent s ++ ps)) : w.Keeps { w with sent := sent } := by
  refine { Keeps.refl w with sent := fun k hk => ?_ }
  show sent k = w.sent k
  rcases h with h | ⟨s, ps, hs, h⟩
  · rw [h]
  · have hne : k ≠ s := by
      intro h
      exact hk (by rw [h, hs])
    rw [h, Function.update_of_ne hne]

theorem Keeps.endAttempt (w : Wires) : w.Keeps { w with connecting := false } :=
  { Keeps.refl w with connecting := fun h => by cases h }

end Wires

namespace Conn

open Wires

variable {cfg : Config}

def wires (c : Conn) : Wires :=
  ⟨c.socket, c.connecting, c.connTimer, c.dials, c.nextDial, c.nextSocket, c.destroyed, c.sent⟩

/-! ### What a move does to the sockets -/

theorem Settles.wires {c c' : Conn} (h : Settles c c') : c'.wires = c.wires := by
  obtain ⟨_, _, h, -, -⟩ := h
  rw [h]
  rfl

theorem rejectQueue_wires (c : Conn) (e : JsError) : (c.rejectQueue e).wires = c.wires := by
  obtain ⟨c', hs, h, -⟩ := rejectQueue_shape c e
  rw [h]
  exact hs.wires

theorem dropInflight_wires (c : Conn) (e : JsError) : (c.dropInflight e).wires = c.wires := by
  obtain ⟨c', hs, h, -⟩ := dropInflight_shape c e
  rw [h]
  exact hs.wires

theorem dropQueue_wires (c : Conn) (e : JsError) : (c.dropQueue e).wires = c.wires := by
  obtain ⟨c', hs, h, -⟩ := dropQueue_shape c e
  rw [h]
  exact hs.wires

theorem settlePending_wires (c : Conn) (e : JsError) : (c.settlePending e).wires = c.wires := by
  unfold settlePending
  dsimp only
  rw [dropQueue_wires, dropInflight_wires]
  rfl

theorem clearPendingCancel_wires (c : Conn) : c.clearPendingCancel.wires = c.wires := by
  obtain ⟨_, h, -⟩ := clearPendingCancel_shape c
  rw [h]
  rfl

theorem clearConnTimer_wires (c : Conn) : c.clearConnTimer.wires = c.wires := by
  obtain ⟨_, h⟩ := clearConnTimer_shape c
  rw [h]
  rfl

theorem rejectAttempt_wires (c : Conn) (e : JsError) : (c.rejectAttempt e).wires = c.wires := by
  unfold rejectAttempt
  dsimp only
  split
  · rfl
  · rfl
  · split
    · rfl
    · rfl

theorem writeSocket_keeps (c : Conn) (ps : List Packet) :
    c.wires.Keeps (c.writeSocket ps).wires := by
  obtain ⟨sent, h, hs⟩ := writeSocket_shape c ps
  rw [h]
  refine Keeps.write ?_
  rcases hs with hs | ⟨s, hk, -, hs⟩
  · exact .inl hs
  · exact .inr ⟨s, ps, hk, hs⟩

theorem loopTop_wires (c : Conn) (l : LoopId) (attempt : Nat) (e : JsError) :
    (c.loopTop cfg l attempt e).wires = c.wires := by
  unfold loopTop
  split
  · rfl
  · split
    · rw [rejectQueue_wires]
      rfl
    · rfl

/-- A connection that lets its socket go has destroyed it. -/
theorem release_keeps (c : Conn) :
    c.wires.Keeps { c.destroySocket.wires with socket := none } := by
  unfold destroySocket
  cases hs : c.socket with
  | none => exact { Keeps.refl c.wires with socket := .inl hs.symm }
  | some s =>
    have hd : c.wires.Keeps (c.destroy s).wires := Keeps.destroy (.inr hs)
    refine { hd with socket := .inr ⟨rfl, fun k hk => ?_⟩ }
    have hk : k = s := Option.some.inj (hk.symm.trans hs)
    rw [hk]
    exact Function.update_self ..

theorem failAttempt_keeps (c : Conn) (e : JsError) : c.wires.Keeps (c.failAttempt e).wires := by
  unfold failAttempt
  split
  · exact .refl _
  · dsimp only
    rw [rejectAttempt_wires]
    have hc : ({ c with connecting := false }.clearConnTimer).wires =
        { c.wires with connecting := false } := clearConnTimer_wires _
    have hr := release_keeps { c with connecting := false }.clearConnTimer
    rw [hc] at hr
    exact (Keeps.endAttempt _).trans hr

theorem dropSocket_keeps (c : Conn) (e : JsError) : c.wires.Keeps (c.dropSocket e).wires := by
  unfold dropSocket
  rw [dropInflight_wires]
  have hr := release_keeps c.clearPendingCancel
  rw [clearPendingCancel_wires] at hr
  exact hr

theorem socketLost_keeps (c : Conn) (e : JsError) : c.wires.Keeps (c.socketLost cfg e).wires := by
  have hd := dropSocket_keeps c e
  unfold socketLost
  dsimp only
  split
  · unfold startReconnect
    rw [loopTop_wires]
    exact hd
  · rw [rejectQueue_wires]
    exact hd

theorem onSocketDown_keeps (c : Conn) (e : JsError) :
    c.wires.Keeps (c.onSocketDown cfg e).wires := by
  unfold onSocketDown
  split
  · exact .refl _
  · split
    · exact failAttempt_keeps c e
    · exact socketLost_keeps c e

theorem connectCatch_wires (c : Conn) : c.connectCatch.wires = c.wires := by
  unfold connectCatch
  split
  · rfl
  · dsimp only
    split
    · rfl
    · rw [rejectQueue_wires]
      rfl

theorem loopCatch_wires (c : Conn) (l : LoopId) : (c.loopCatch cfg l).wires = c.wires := by
  unfold loopCatch
  split
  · split
    · rw [rejectQueue_wires]
      rfl
    · exact loopTop_wires _ _ _ _
  · rfl

theorem endConn_keeps (c : Conn) : c.wires.Keeps c.endConn.wires := by
  unfold endConn
  split
  · exact .refl _
  · dsimp only
    rw [clearPendingCancel_wires, settlePending_wires]
    have hw := writeSocket_keeps { c with ended := true }.clearConnTimer [⟨.link, .terminate⟩]
    rw [clearConnTimer_wires] at hw
    split
    · rw [rejectAttempt_wires]
      exact hw.trans (Keeps.endAttempt _)
    · exact hw

theorem LinkMove.keeps {c c' : Conn} (hm : LinkMove cfg c c') : c.wires.Keeps c'.wires := by
  cases hm with
  | destroy s hs => exact Keeps.destroy hs
  | connectCatch => exact .of_eq (connectCatch_wires c)
  | loopCatch l => exact .of_eq (loopCatch_wires c l)
  | endConn => exact endConn_keeps c
  | failAttempt e => exact failAttempt_keeps c e
  | retire e | socketDown e => exact onSocketDown_keeps c e
  | takeDown e => exact onSocketDown_keeps (c.note _) e

theorem GateMove.keeps {c c' : Conn} (hm : GateMove c c') : c.wires.Keeps c'.wires := by
  cases hm with
  | gate | schedule | room | backendKey => exact .refl _
  | timers dials armed hd => exact { Keeps.refl c.wires with dials := hd }

theorem PumpMove.keeps {c c' : Conn} (hm : PumpMove c c') : c.wires.Keeps c'.wires := by
  obtain ⟨_, sent, _, h, hs, -⟩ := hm.shape
  rw [h]
  refine Keeps.write ?_
  rcases hs with hs | ⟨s, p, fs, hk, -, -, hs⟩
  · exact .inl hs
  · exact .inr ⟨s, _, hk, hs⟩

theorem flushWrites_keeps (c : Conn) : c.wires.Keeps c.flushWrites.wires := by
  obtain ⟨sent, _, _, _, h, hs⟩ := flushWrites_shape c
  rw [h]
  refine Keeps.write ?_
  rcases hs with ⟨hs, -⟩ | ⟨s, hk, -, hs⟩
  · exact .inl hs
  · exact .inr ⟨s, _, hk, hs⟩

theorem receive_wires (c : Conn) (m : BackendMsg) : (c.receive m).wires = c.wires := by
  obtain ⟨_, h, -⟩ := receive_shape c m
  rw [h]
  rfl

theorem listen_wires (c : Conn) (m : BackendMsg) : (c.listen cfg m).wires = c.wires := by
  obtain ⟨_, h, -⟩ := @listen_shape cfg c m
  rw [h]
  rfl

theorem noteCopyIn_wires (c : Conn) (t : TaskId) : (c.noteCopyIn cfg t).wires = c.wires := by
  obtain ⟨_, _, h, -⟩ := @noteCopyIn_shape cfg c t
  rw [h]
  rfl

theorem startTask_wires (c : Conn) (t : TaskId) : (c.startTask cfg t).wires = c.wires := by
  cases hs : (c.serialize cfg t).2 with
  | none =>
    obtain ⟨_, _, _, _, _, _, _, _, -, h⟩ := startTask_ok_shape hs
    rw [h]
    rfl
  | some e =>
    obtain ⟨_, _, _, _, _, h, -⟩ := startTask_throw_shape hs
    rw [h]
    rfl

/-- **Within a callback no attempt begins and no socket is adopted.** -/
theorem Move.keeps {l : Option BackendMsg} {p q : Point} (hm : Move cfg PumpMove l p q) :
    p.1.wires.Keeps q.1.wires := by
  cases hm with
  | gate hm => exact hm.keeps
  | @cancel c c' h hm =>
    obtain ⟨_, _, _, _, _, _, h, -⟩ := hm.shape
    refine .of_eq ?_
    show c'.wires = c.wires
    rw [h]
    rfl
  | pump hm => exact hm.keeps
  | link hm => exact hm.keeps
  | @emit c h s f hs hf =>
    obtain ⟨sent, h, hw⟩ := writeTo_shape c s [⟨.link, f⟩]
    show c.wires.Keeps (c.writeTo s [⟨.link, f⟩]).wires
    rw [h]
    refine Keeps.write ?_
    rcases hw with ⟨-, hw⟩ | ⟨-, hw⟩
    · exact .inl hw
    · exact .inr ⟨s, _, hs, hw⟩
  | settles hs => exact .of_eq hs.wires
  | refuse | create | discard | release | dequeue | enqueue | requeue => exact .refl _
  | @quit c h t e =>
    exact .of_eq (rejectTask_settles
      (c.modTask t fun k => { k with settled := true, timer := false }) t e).wires
  | @finish c t =>
    obtain ⟨_, _, h, -⟩ := settleFinished_shape (c.clearTimers t) t
    refine .of_eq ?_
    show ((c.clearTimers t).settleFinished t).wires = c.wires
    rw [h]
    rfl
  | @start c h t rest => exact .of_eq (startTask_wires { c with queue := rest } t)
  | @flush c => exact flushWrites_keeps c
  | @listen c h m => exact .of_eq (listen_wires c m)
  | @miss c h m => exact .of_eq (receive_wires c m)
  | @cache c =>
    refine .of_eq ?_
    show c.cacheCurrent.wires = c.wires
    rcases cacheCurrent_shape c with h | ⟨_, _, _, _, -, -, -, -, h⟩
    · rw [h]
    · rw [h]
      rfl
  | @attemptDone c status =>
    obtain ⟨_, _, ha, -⟩ := attemptDone_shape (c.receive (.readyForQuery status)) (status.getD 'I')
    show c.wires.Keeps ((c.receive (.readyForQuery status)).attemptDone (status.getD 'I')).wires
    rw [ha]
    have hr : c.wires.Keeps (c.receive (.readyForQuery status)).wires :=
      .of_eq (receive_wires c _)
    exact hr.trans (Keeps.endAttempt _)
  | @idle c status => exact .of_eq (receive_wires c _)
  | @pop c status => exact .of_eq (receive_wires c _)
  | @copyNone c =>
    have hw := writeSocket_keeps (c.receive .copyInResponse)
      [⟨.abort none, .copyFail copyFromReason⟩, ⟨.abort none, .sync⟩]
    rw [receive_wires] at hw
    exact hw
  | @copyPlain c h t =>
    have hw := writeSocket_keeps (c.noteCopyIn cfg t)
      [⟨.abort (some t), .copyFail copyFromReason⟩, ⟨.abort (some t), .sync⟩]
    rw [noteCopyIn_wires] at hw
    exact hw
  | @copyPump c h t => exact .of_eq (noteCopyIn_wires c t)
  | @copyBoth c =>
    have hw := writeSocket_keeps (c.listen cfg .copyBothResponse)
      [⟨.abort c.current, .copyFail copyBothReason⟩, ⟨.abort c.current, .sync⟩]
    rw [listen_wires] at hw
    exact hw
  | @parseFailed c t =>
    obtain ⟨_, _, h⟩ := noteParseFailure_shape c t
    refine .of_eq ?_
    show (c.noteParseFailure t).wires = c.wires
    rw [h]
    rfl
  | @invalidated c t =>
    obtain ⟨_, _, h⟩ := dropInvalidated_shape c t
    refine .of_eq ?_
    show (c.dropInvalidated t).wires = c.wires
    rw [h]
    rfl

theorem Moves.keeps {ms : List BackendMsg} {p q : Point} (h : Moves cfg PumpMove ms p q) :
    p.1.wires.Keeps q.1.wires := by
  induction h with
  | refl => exact .refl _
  | tail _ hm ih => exact ih.trans hm.keeps

end Conn

end Minipg
