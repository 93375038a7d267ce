import Mathlib.Logic.Function.Basic
import Minipg.Lib.Machine
import Minipg.Lib.Memory
import Minipg.Wire.Parser

/-!
# Collecting the frames of a statement

With `mode: 'wire'` a statement returns the frames that the server sent for it.  `Parser.push` cuts
views out of the chunks, and `handle` keeps the frames of the task at the head of the pipeline as
spans of memory: a frame that starts where the open span ends, in the same buffer, makes it longer.
Where a chunk lies, and where `Buffer.concat` puts the bytes it joins, is up to the environment.
-/

namespace Minipg

/-- ReadyForQuery -/
def RawMessage.isReady (m : RawMessage) : Bool := m.type = 'Z'

namespace Spans

/-! ### The parser on views -/

/-- A message, its body a view. -/
structure Message where
  type : Char
  body : Region
  deriving DecidableEq, Repr

/-- The body and the five bytes before it. -/
def Message.frame (m : Message) : Region :=
  ⟨m.body.buffer, m.body.byteOffset - 5, m.body.length + 5⟩

def Message.raw (mem : Memory UInt8) (m : Message) : RawMessage := ⟨m.type, mem.read m.body⟩

/-- The `while` loop of `push`. -/
def pushLoop (mem : Memory UInt8) (buf : Region) :
    Nat → Nat → List Message → Except JsError (Nat × List Message)
  | 0, off, out => .ok (off, out)
  | fuel + 1, off, out =>
    if 5 ≤ buf.length - off then
      let len := readInt32BE (mem.read buf) (off + 1)
      if len < 4 then .error (lengthError len)
      else
        let total := len.toNat + 1
        if buf.length - off < total then .ok (off, out)
        else
          pushLoop mem buf fuel (off + total) (out ++
            [⟨Char.ofNat ((mem.read buf).getD off 0).toNat, buf.sub (off + 5) (off + total)⟩])
    else .ok (off, out)

/-- `Buffer.alloc(0)` -/
def emptyBuffer : Region := ⟨0, 0, 0⟩

/-- A place in a buffer. -/
structure Place where
  buffer : Nat
  byteOffset : Nat
  deriving DecidableEq, Repr

def Place.region (p : Place) (length : Nat) : Region := ⟨p.buffer, p.byteOffset, length⟩

/-- What `push` reads: the chunk, or what is left and the chunk, joined at `concat`. -/
def joined (mem : Memory UInt8) (buf chunk : Region) (concat : Place) : Memory UInt8 × Region :=
  if buf.length ≠ 0 then
    (mem.put concat.buffer concat.byteOffset (mem.read buf ++ mem.read chunk),
      concat.region (buf.length + chunk.length))
  else (mem, chunk)

/-! ### Tasks -/

/-- What the error of a task is an instance of. -/
inductive TaskError
  | pg
  | client
  deriving DecidableEq, Repr

/-- A task in the pipeline.  `span` is the open span. -/
structure Task where
  isWire : Bool := false
  wire : List Region := []
  span : Option Region := none
  error : Option TaskError := none
  settled : Bool := false
  resolved : Option (List Region) := none
  deriving DecidableEq, Repr

namespace Task

/-- A frame that is kept. -/
def collect (t : Task) (frame : Region) : Task :=
  match t.span with
  | some v =>
    if v.buffer = frame.buffer ∧ frame.byteOffset = v.stop then
      { t with span := some ⟨v.buffer, v.byteOffset, v.length + frame.length⟩ }
    else { t with wire := t.wire ++ [v], span := some frame }
  | none => { t with span := some frame }

/-- The open span is closed. -/
def close (t : Task) : Task :=
  match t.span with
  | some v => { t with wire := t.wire ++ [v], span := none }
  | none => t

/-- The end of `finishTask` for a wire task: it resolves with the spans, unless it was settled
before or failed on the side of the client. -/
def finish (t : Task) : Task :=
  if t.isWire && !t.settled && t.error ≠ some .client then
    { t.close with resolved := some t.close.wire }
  else t

end Task

/-! ### The connection -/

/-- The connection once it is ready, with the messages of the last chunk that are not handled yet.
`stream` and `heard` are history: the bytes that came, and the messages that were handled. -/
structure Conn where
  mem : Memory UInt8
  buf : Region := emptyBuffer
  messages : List Message := []
  inflight : List TaskId := []
  tasks : TaskId → Task := fun _ => {}
  nextTask : TaskId := 0
  isDown : Bool := false
  stream : Bytes := []
  heard : List RawMessage := []

namespace Conn

def modify (c : Conn) (t : TaskId) (f : Task → Task) : Conn :=
  { c with tasks := Function.update c.tasks t (f (c.tasks t)) }

/-- The task at the head. -/
def current (c : Conn) : Option TaskId := c.inflight.head?

/-- Everything in flight is rejected, and what is left of the chunk reaches no task. -/
def onSocketDown (c : Conn) : Conn := { c with isDown := true, inflight := [], messages := [] }

/-- A task is written: it comes after those in flight. -/
def startTask (c : Conn) (isWire : Bool) : Conn :=
  { c with
    inflight := c.inflight ++ [c.nextTask]
    tasks := Function.update c.tasks c.nextTask { isWire := isWire }
    nextTask := c.nextTask + 1 }

/-- `onData`: the chunk is in memory at `place`. -/
def onData (c : Conn) (chunk : Bytes) (place concat : Place) : Conn :=
  let stored := c.mem.put place.buffer place.byteOffset chunk
  let (mem, buf) := joined stored c.buf (place.region chunk.length) concat
  let c := { c with mem := mem, buf := buf, stream := c.stream ++ chunk }
  match pushLoop mem buf buf.length 0 [] with
  | .error _ => c.onSocketDown
  | .ok (off, out) =>
    { c with buf := if off = buf.length then emptyBuffer else buf.sub off buf.length
             messages := out }

/-- RowDescription, DataRow, CommandComplete, ErrorResponse, EmptyQueryResponse -/
def isKept (type : Char) : Bool := ['T', 'D', 'C', 'E', 'I'].contains type

/-- The spans of the head. -/
def collect (c : Conn) (m : Message) : Conn :=
  match c.current with
  | some t => if (c.tasks t).isWire && isKept m.type then c.modify t (·.collect m.frame) else c
  | none => c

def finishTask (c : Conn) : Conn :=
  match c.inflight with
  | t :: rest => { c.modify t Task.finish with inflight := rest }
  | [] => c

/-- What a message does to a task besides. -/
def react (c : Conn) (type : Char) : Conn :=
  match c.current with
  | some t =>
    if type = 'E' then c.modify t fun u => { u with error := some .pg }
    -- a COPY TO STDOUT is refused
    else if type = 'H' then c.modify t fun u => { u with error := u.error.or (some .client) }
    else c
  | none => c

/-- `handle`, for the next message.  `throws` says where the body cannot be read. -/
def handle (throws : Option TaskId → RawMessage → Bool) (c : Conn) : Conn :=
  match c.messages with
  | [] => c
  | m :: rest =>
    let raw := m.raw c.mem
    let c := { c with messages := rest, heard := c.heard ++ [raw] }
    let kept := c.collect m
    if throws c.current raw then kept.onSocketDown
    else if m.type = 'Z' then kept.finishTask
    else kept.react m.type

/-- The caller is answered before the result is there: a timeout or an abort. -/
def settle (c : Conn) (t : TaskId) : Conn := c.modify t fun u => { u with settled := true }

end Conn

inductive Event
  | start (isWire : Bool)
  | data (chunk : Bytes) (place concat : Place)
  | handle
  | settle (t : TaskId)
  | down
  deriving DecidableEq, Repr

/-- Bytes are written where nothing is: first the chunk, and then what `Buffer.concat` makes. -/
def Conn.hasRoom (c : Conn) (chunk : Bytes) (place concat : Place) : Bool :=
  c.mem.isFree (place.region chunk.length) &&
    (c.mem.put place.buffer place.byteOffset chunk).isFree
      (concat.region (c.buf.length + chunk.length))

/-- The messages of a chunk are handled before the next one comes. -/
def machine (throws : Option TaskId → RawMessage → Bool) : Machine Conn Event where
  enabled c
    | .start _ => !c.isDown
    | .data chunk place concat => !c.isDown && c.messages.isEmpty && c.hasRoom chunk place concat
    | .handle => !c.messages.isEmpty
    | .settle t => c.inflight.contains t
    | .down => !c.isDown
  step c
    | .start isWire => c.startTask isWire
    | .data chunk place concat => c.onData chunk place concat
    | .handle => c.handle throws
    | .settle t => c.settle t
    | .down => c.onSocketDown

/-- The server sends what belongs to a statement only while one is in flight. -/
def Answers (c : Conn) : Event → Prop
  | .handle => ∀ m ∈ c.messages.head?, Conn.isKept m.type = true ∨ m.type = 'Z' → c.inflight ≠ []
  | _ => True

instance (c : Conn) : DecidablePred (Answers c)
  | .handle => inferInstanceAs (Decidable (∀ m ∈ c.messages.head?, _))
  | .start _ | .data _ _ _ | .settle _ | .down => instDecidableTrue

/-- Nothing has come, and nothing is in flight. -/
def Start (c : Conn) : Prop := ∃ mem, c = { mem := mem }

/-! ### The frames of a statement -/

/-- The items after the first `k` ends and before the next one. -/
def segment {α : Type*} (isEnd : α → Bool) : Nat → List α → List α
  | _, [] => []
  | 0, a :: l => if isEnd a then [] else a :: segment isEnd 0 l
  | k + 1, a :: l => if isEnd a then segment isEnd k l else segment isEnd (k + 1) l

/-- The frames of the `k`th statement that a wire task returns.  A ReadyForQuery ends each
statement. -/
def frames (k : Nat) (ms : List WireMessage) : List WireMessage :=
  (segment (fun m => m.raw.isReady) k ms).filter fun m => Conn.isKept m.raw.type

end Spans

end Minipg
