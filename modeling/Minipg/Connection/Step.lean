import Minipg.Connection.Replies
import Minipg.Lib.Machine

/-!
# The connection as a state machine

Each callback that the runtime can run is an `Event`: a call of the public interface, data
or the end of a socket, a timer, a microtask, the answer to a cancel request, the next
step of a copy pump.  `Conn.step` is the callback and `Conn.enabled` says when the runtime
can run it (a timer that is armed, a socket that exists, a promise that is pending).
-/

namespace Minipg

inductive Event
  | submit (r : Request) (aborted : Option JsError)
  | connect
  | connectCatch
  | dialed (d : DialId)
  | dialFailed (d : DialId) (e : JsError)
  | connTimeout (d : DialId)
  | data (s : SocketId) (chunk : List BackendMsg)
  | badFrame (s : SocketId) (e : JsError)
  | drain (s : SocketId)
  | socketError (s : SocketId)
  | socketClose (s : SocketId) (e : JsError)
  | sockRoom (n : Nat)
  | flush
  | abort (t : TaskId) (reason : JsError)
  | timeout (t : TaskId)
  | grace (t : TaskId)
  | streamReturn (t : TaskId)
  | cancelAnswered (p : CancelId) (isConfirmed : Bool)
  | cancelTimeout (p : CancelId)
  | loopWake (l : LoopId)
  | loopCatch (l : LoopId)
  | pumpNext (p : PumpId) (step : SourceStep)
  | pumpResume (p : PumpId)
  | endConn
  | endDone

/-- The callbacks that begin an attempt or bring it a socket. -/
def Event.isDialing : Event → Bool
  | .connect | .loopWake _ | .dialed _ => true
  | _ => false

/-- The callbacks that can reach a pump. -/
def Event.reachesPumps : Event → Bool
  | .data _ _ | .drain _ | .socketError _ | .socketClose _ _ | .pumpNext _ _ | .pumpResume _ => true
  | _ => false

namespace Conn

/-- A socket the transport delivered and nobody destroyed. -/
def isLive (c : Conn) (s : SocketId) : Bool := decide (s < c.nextSocket) && !c.destroyed s

/-- When the runtime can run a callback. -/
def enabled (c : Conn) : Event → Bool
  | .submit _ _ | .connect | .endConn | .sockRoom _ => true
  | .connectCatch => c.connectFailed.isSome
  | .dialed d | .dialFailed d _ => d ∈ c.dials
  | .connTimeout d => d ∈ c.armedTimers
  | .data s _ | .badFrame s _ | .drain s => c.isLive s
  | .socketError s | .socketClose s _ => s < c.nextSocket
  | .flush => c.flushScheduled
  | .abort t _ => t < c.nextTask && (c.tasks t).listening
  | .timeout t => t < c.nextTask && (c.tasks t).timer
  | .grace t => t < c.nextTask && (c.tasks t).graceTimer
  | .streamReturn t => t < c.nextTask && (c.tasks t).stream
  | .cancelAnswered p _ =>
    p < c.nextCancel && !(c.cancels p).isConfirmed && !(c.cancels p).hasFailed
  | .cancelTimeout p => (c.cancels p).timer
  | .loopWake l => match c.loops l with
    | .sleeping _ _ => true
    | _ => false
  | .loopCatch l => match c.loops l with
    | .failed _ _ => true
    | _ => false
  | .pumpNext p step =>
    (c.pumps p).phase == .awaiting && (step != .stopped || (c.pumps p).stopped)
  | .pumpResume p => match (c.pumps p).phase with
    | .resumed _ | .failed _ => true
    | _ => false
  | .endDone => c.ended

/-- `return()` of a row stream or of a copyTo relay.  In a transaction a cancel would abort the
transaction, so there the rest is read and dropped. -/
def streamReturn (cfg : Config) (c : Conn) (t : TaskId) : Conn :=
  let k := c.tasks t
  let isRunning := k.settlements.isEmpty && !(k.copyOut && k.cancelled)
  let c := c.modTask t fun k => { k with cancelled := true }
  if isRunning && !c.inTransaction then
    c.cancelTask cfg t (if (c.tasks t).copyOut then copyClosedError else streamClosedError)
  else c

/-- A socket reports its end: to `attachSocket`, to the gate of `flushWrites` and to the pumps
that wait for its drain. -/
def socketClose (cfg : Config) (c : Conn) (s : SocketId) (e : JsError) : Conn :=
  let c := c.destroy s
  let c := if c.socket = some s then c.onSocketDown cfg e else c
  (c.stopWrites s).wakePumps s fun _ => .failed socketClosedError

/-- One callback. -/
def step (cfg : Config) (c : Conn) : Event → Conn
  | .submit r aborted => c.submit cfg r aborted
  | .connect => c.connect
  | .connectCatch => c.connectCatch
  | .dialed d => c.dialed d
  | .dialFailed d e => c.dialFailed d e
  | .connTimeout d => c.connTimeout cfg d
  | .data _ chunk => c.onData cfg chunk
  | .badFrame _ e => c.takeDown cfg e
  | .drain s => (c.resumeWrites cfg s).wakePumps s .resumed
  | .socketError s =>
    ((c.destroy s).stopWrites s).wakePumps s fun _ => .failed socketClosedError
  | .socketClose s e => c.socketClose cfg s e
  | .sockRoom n => { c with sockRoom := n }
  | .flush => c.flushMicrotask
  | .abort t reason => (c.modTask t fun k => { k with listening := false }).cancelTask cfg t reason
  | .timeout t =>
    (c.modTask t fun k => { k with timer := false }).cancelTask cfg t
      (timeoutError ((c.tasks t).timeout.getD 0))
  | .grace t => (c.modTask t fun k => { k with graceTimer := false }).destroySocket
  | .streamReturn t => c.streamReturn cfg t
  | .cancelAnswered p isConfirmed => c.cancelAnswered cfg p isConfirmed
  | .cancelTimeout p => c.cancelTimeout cfg p
  | .loopWake l => c.loopWake l
  | .loopCatch l => c.loopCatch cfg l
  | .pumpNext p step => c.pumpNext p step
  | .pumpResume p => c.pumpResume p
  | .endConn => c.endConn
  | .endDone => c.destroySocket

/-- The connection with its callbacks. -/
def machine (cfg : Config) : Machine Conn Event := ⟨enabled, step cfg⟩

/-- The states a new connection can get to, by any callbacks in any order. -/
def Reachable (cfg : Config) : Conn → Prop := (machine cfg).Reach Machine.Free (· = {})

/-- The state of a new connection after a list of callbacks. -/
def run (cfg : Config) (es : List Event) : Conn := (machine cfg).exec {} es

theorem reachable_run {cfg : Config} {es : List Event}
    (h : (machine cfg).Runs Machine.Free {} es) : Reachable cfg (run cfg es) := by
  have hnew : Reachable cfg {} := .start rfl
  exact hnew.exec h

end Conn

end Minipg
