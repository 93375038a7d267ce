import Minipg.Js.Float
import Minipg.Lib.Machine
import Minipg.Protocol

/-!
# Rows and chunks on their way to a consumer

`stream` and `copyTo` of `src/connection.ts` keep what has arrived in a buffer, above
`highWaterMark` they pause the socket, and `next()` takes from the buffer or leaves a promise in
`waiting`.  The task they share with the connection is here what the two see of it: it is cancelled
or it fails, the connection finishes or rejects it, and the socket may be lost and replaced.

`waiting` holds one promise; a call of `next()` that comes while another waits takes its place.
-/

namespace Minipg.Streams

open Js (Double)

/-- What a call of `next()` returned. -/
inductive Promise (α : Type)
  | pending
  /-- `{ value, done: false }` -/
  | value (v : α)
  /-- `{ value: undefined, done: true }` -/
  | finished
  | rejected (e : JsError)
  deriving DecidableEq, Repr

/-- The variables of the iterator, its task and the socket. -/
structure Relay (α : Type) where
  /-- `buf`, or the `chunks` of `copyTo`, which are `buffered` bytes. -/
  buf : List α := []
  buffered : Nat := 0
  waiting : Option Nat := none
  done : Bool := false
  err : Option JsError := none
  paused : Bool := false
  cancelled : Bool := false
  /-- The `error` of the task. -/
  error : Option JsError := none
  settled : Bool := false
  /-- The task has left the connection. -/
  isOver : Bool := false
  hasSocket : Bool := true
  /-- This relay paused the socket, and nobody has resumed it. -/
  isSocketPaused : Bool := false
  /-- The calls of `next()`. -/
  calls : List (Promise α) := []
  /-- The rows or chunks that came from the socket. -/
  arrived : List α := []
  deriving DecidableEq, Repr

namespace Relay

variable {α : Type}

/-! ### What both do -/

/-- `if (waiting) { const w = waiting; waiting = null; … }` -/
def settle (s : Relay α) (p : Promise α) : Relay α :=
  match s.waiting with
  | some i => { s with waiting := none, calls := s.calls.set i p }
  | none => s

def streamEnd (s : Relay α) : Relay α := { s with done := true }.settle .finished

def streamError (s : Relay α) (e : JsError) : Relay α :=
  { s with err := some e }.settle (.rejected e)

def pause (s : Relay α) : Relay α := { s with paused := true, isSocketPaused := true }

def resume (s : Relay α) : Relay α := { s with paused := false, isSocketPaused := false }

/-- A call that gets its answer at once. -/
def answer (s : Relay α) (p : Promise α) : Relay α := { s with calls := s.calls ++ [p] }

/-- `next()` when nothing is buffered. -/
def onEmpty (s : Relay α) : Relay α :=
  match s.err with
  | some e => s.answer (.rejected e)
  | none =>
    if s.done then s.answer .finished
    else { s with waiting := some s.calls.length, calls := s.calls ++ [.pending] }

/-- Whether `handle` and `dataRow` pass on what arrives. -/
def accepts (s : Relay α) : Bool := !s.cancelled && s.error.isNone && !s.settled

def cancelTask (s : Relay α) (reason : JsError) : Relay α :=
  if s.settled then s else { s with settled := true }.streamError reason

/-- `finishTask`: the ReadyForQuery has come. -/
def finishTask (s : Relay α) : Relay α :=
  let s := { s with isOver := true }
  if s.settled then s
  else match s.error with
    | some e => s.streamError e
    | none => s.streamEnd

/-- The connection gives the task up: `settlePending`, `onSocketDown`, `rejectQueue`, or its
arguments could not be written. -/
def rejectTask (s : Relay α) (e : JsError) : Relay α :=
  let s := { s with isOver := true }
  if s.settled then s else s.streamError (s.error.getD e)

/-- The iterator of a task that is queued. -/
def queued (hasSocket : Bool) : Relay α := { hasSocket := hasSocket }

/-- The iterator of a connection that is closed, or of a signal that was aborted before. -/
def refused (hasSocket : Bool) (e : JsError) : Relay α :=
  { hasSocket := hasSocket, err := some e, isOver := true }

end Relay

inductive RelayEvent (α : Type)
  | next
  /-- `return()`, perhaps inside a transaction -/
  | closeEarly (inTransaction : Bool)
  | arrive (v : α)
  /-- An ErrorResponse, or a row that cannot be decoded. -/
  | fail (e : JsError)
  | finishTask
  | rejectTask (e : JsError)
  /-- A timeout or a signal. -/
  | cancelTask (reason : JsError)
  | socketLost
  | socketBack
  /-- Another stream resumes the socket. -/
  | socketResumed
  deriving DecidableEq, Repr

namespace Relay

variable {α : Type}

/-- Only a socket brings something, and only for a task that the connection has. -/
def enabled (s : Relay α) : RelayEvent α → Bool
  | .arrive _ => s.hasSocket && !s.isOver
  | .fail _ => s.hasSocket && !s.isOver
  | .finishTask => s.hasSocket && !s.isOver
  | .rejectTask _ => !s.isOver
  | _ => true

/-- What a step does, for the three functions that are not the same in `stream` and `copyTo`. -/
def step (next : Relay α → Relay α) (closeEarly : Bool → Relay α → Relay α)
    (onArrival : α → Relay α → Relay α) (s : Relay α) : RelayEvent α → Relay α
  | .next => next s
  | .closeEarly inTransaction => closeEarly inTransaction s
  | .arrive v =>
    let s' := { s with arrived := s.arrived ++ [v] }
    if s.accepts then onArrival v s' else s'
  | .fail e => { s with error := some e }
  | .finishTask => s.finishTask
  | .rejectTask e => s.rejectTask e
  | .cancelTask reason => s.cancelTask reason
  | .socketLost => { s with hasSocket := false, isSocketPaused := false }
  | .socketBack => { s with hasSocket := true }
  | .socketResumed => { s with isSocketPaused := false }

end Relay

/-! ### `stream` -/

namespace Rows

variable {Row : Type}

/-- `HWM / 2` -/
def half (hwm : Double) : Double := hwm.div (.ofInt 2)

def onRow (hwm : Double) (row : Row) (s : Relay Row) : Relay Row :=
  let buf := s.buf ++ [row]
  match s.waiting with
  | some _ => { s with buf := buf.tail }.settle (.value (buf.headD row))
  | none =>
    let s := { s with buf := buf }
    if hwm.lt (.ofInt buf.length) && s.hasSocket && !s.paused then s.pause else s

def next (hwm : Double) (s : Relay Row) : Relay Row :=
  match s.buf with
  | v :: buf =>
    let s := { s with buf := buf }.answer (.value v)
    if s.paused && (Double.ofInt buf.length).lt (half hwm) then s.resume else s
  | [] => s.onEmpty

def closedEarly : JsError := jsError "stream closed early"

/-- `return()` -/
def closeEarly (inTransaction : Bool) (s : Relay Row) : Relay Row :=
  let s := { s with cancelled := true }
  let s := if !s.done && s.err.isNone && !inTransaction then s.cancelTask closedEarly else s
  if s.paused then s.resume else s

/-- The iterator of `stream`, with its option `highWaterMark`. -/
def machine (highWaterMark : Option Double) : Machine (Relay Row) (RelayEvent Row) where
  enabled := Relay.enabled
  step :=
    let hwm := highWaterMark.getD (.ofInt 200)
    Relay.step (next hwm) closeEarly (onRow hwm)

end Rows

/-! ### `copyTo` -/

namespace Copy

abbrev Chunk := List UInt8

def onCopyData (hwm : Double) (chunk : Chunk) (s : Relay Chunk) : Relay Chunk :=
  match s.waiting with
  | some _ => s.settle (.value chunk)
  | none =>
    let s := { s with buf := s.buf ++ [chunk], buffered := s.buffered + chunk.length }
    if hwm.lt (.ofInt s.buffered) && !s.paused && s.hasSocket then s.pause else s

def resume (s : Relay Chunk) : Relay Chunk := if s.paused then s.resume else s

/-- All that is buffered, as one chunk. -/
def drain (s : Relay Chunk) : Chunk × Relay Chunk :=
  let v := match s.buf with
    | [chunk] => chunk
    | chunks => chunks.flatten
  (v, resume { s with buf := [], buffered := 0 })

def next (s : Relay Chunk) : Relay Chunk :=
  match s.buf with
  | _ :: _ =>
    let (v, s) := drain s
    s.answer (.value v)
  | [] => s.onEmpty

def closedEarly : JsError := jsError "copy closed early"

/-- `return()` -/
def closeEarly (inTransaction : Bool) (s : Relay Chunk) : Relay Chunk :=
  let isRunning := !s.done && s.err.isNone
  let s := resume { s with cancelled := true, buf := [], buffered := 0 }
  let s := { s with done := true }
  if isRunning && !inTransaction then s.cancelTask closedEarly else s

/-- The iterator of `copyTo`, with its option `highWaterMark`. -/
def machine (highWaterMark : Option Double) : Machine (Relay Chunk) (RelayEvent Chunk) where
  enabled := Relay.enabled
  step :=
    let hwm := highWaterMark.getD (.ofInt (512 * 1024))
    Relay.step next closeEarly (onCopyData hwm)

end Copy

/-! ### What a consumer relies on -/

namespace Promise

variable {α ω : Type}

/-- What a promise delivered, in its smallest parts. -/
def delivered (parts : α → List ω) : Promise α → List ω
  | .value v => parts v
  | _ => []

/-- The end, or an error. -/
def isLast : Promise α → Bool
  | .finished => true
  | .rejected _ => true
  | _ => false

end Promise

/-- A consumer that waits does not wait for a paused socket, no promise is pending when the stream
has ended, what arrived is delivered once and in order, all of it before the end is reported, and
nothing after the end or an error.  What was not delivered is buffered, as long as nothing is
dropped.  The parts of a chunk are its bytes. -/
structure Relays {α ω : Type} (parts : α → List ω) (s : Relay α) : Prop where
  flowing : s.isOver = false → s.buf = [] → .pending ∈ s.calls → s.isSocketPaused = false
  settled : s.isOver = true ∨ s.err ≠ none → .pending ∉ s.calls
  delivered : s.calls.flatMap (Promise.delivered parts) <+: s.arrived.flatMap parts
  kept : s.accepts = true → s.calls.flatMap (Promise.delivered parts) ++ s.buf.flatMap parts =
    s.arrived.flatMap parts
  complete : s.cancelled = false → ∀ before after, s.calls = before ++ .finished :: after →
    before.flatMap (Promise.delivered parts) = s.arrived.flatMap parts
  last : ∀ before c after, s.calls = before ++ c :: after → c.isLast = true →
    after.flatMap (Promise.delivered parts) = []

/-- Started with a queued task, or with one that was refused. -/
def IsStart {α : Type} (s : Relay α) : Prop :=
  ∃ hasSocket, s = .queued hasSocket ∨ ∃ e, s = .refused hasSocket e

/-- `next()` is not called while another call waits. -/
def IsSequential {α : Type} (s : Relay α) : RelayEvent α → Prop
  | .next => s.waiting = none
  | _ => True

/-- An empty buffer is below one half of the mark. -/
def Rows.Drains (hwm : Double) : Prop := (Double.ofInt 0).lt (half hwm) = true

/-- And a row that nobody waits for meets a `highWaterMark` that is `NaN`, or whose half is
positive. -/
def Rows.IsOrderly {Row : Type} (highWaterMark : Option Double) (s : Relay Row) :
    RelayEvent Row → Prop
  | .arrive _ =>
    let hwm := highWaterMark.getD (.ofInt 200)
    s.accepts = true → s.waiting = none → hwm.isNaN = true ∨ Drains hwm
  | e => IsSequential s e

end Minipg.Streams
