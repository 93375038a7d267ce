import Minipg.Connection.Schedule

/-!
# The COPY FROM STDIN pump

`pumpCopy` is an async loop over the source of a `copyFrom()` task.  It is suspended on the
next chunk (raced against `stopCopy`), on the drain of the socket, or on a settled flush;
`Pump.phase` says which, and each function below runs from one suspension to the next.
A chunk joins the open CopyData frame, which is flushed from `CHUNK` bytes on; a frame too
long for its length field throws when it is closed.
-/

namespace Minipg

/-- `CHUNK`. -/
def copyChunk : Nat := 2 ^ 18

def copyAbortedReason : String := "COPY aborted by client"
def socketClosedError : JsError := jsError "socket closed during COPY"

/-- The largest length that `writeInt32BE` takes for a frame. -/
def maxFrameLength : Nat := 2 ^ 31 - 1

/-- The digits of a number in groups of three, as Node prints it in a range error. -/
def separated (n : Nat) : List Char :=
  (['_'].intercalate ((toString n).toList.reverse.toChunks 3)).reverse

/-- `w.end()` of a frame that is longer. -/
def frameRangeError (length : Nat) : JsError where
  message := "The value of \"value\" is out of range. It must be >= -2147483648 and " ++
    "<= 2147483647. Received " ++
    if length ≤ 2 ^ 32 then toString length else String.ofList (separated length)
  code := some "ERR_OUT_OF_RANGE"

/-- What the race of `it.next()` against `stopCopy` comes to. -/
inductive SourceStep
  | stopped
  | done
  | chunk (b : Bytes)
  | threw (e : JsError)
  deriving DecidableEq, Repr

namespace Conn

def modPump (c : Conn) (p : PumpId) (f : Pump → Pump) : Conn :=
  { c with pumps := Function.update c.pumps p (f (c.pumps p)) }

/-- The task of a pump is over, as the pump sees it: settled, failed or canceled. -/
def isOver (k : Task) : Bool := k.settled || k.error.isSome || k.cancelled

/-- `flush` and `writeRaw`: hand the frames to the socket that is current now, and wait for
its drain if it is full. -/
def pumpFlush (c : Conn) (p : PumpId) (fs : List Frame) (isLast : Bool) : Conn :=
  let t := (c.pumps p).task
  let c := c.modPump p fun q => { q with pending := [] }
  match c.socket with
  | none => c.modPump p fun q => { q with phase := .failed closedError }
  | some s =>
    let (c, ok) := c.writeChecked s (fs.map (Packet.mk (.pump t)))
    c.modPump p fun q => { q with phase := if ok then .resumed isLast else .draining s isLast }

/-- The code after the loop: CopyFail if the task is over, else the open frame and CopyDone. -/
def pumpFinish (c : Conn) (p : PumpId) : Conn :=
  let q := c.pumps p
  if isOver (c.tasks q.task) then c.pumpFlush p [.copyFail copyAbortedReason] true
  else if q.pending.isEmpty then c.pumpFlush p [.copyDone] true
  else c.pumpFlush p [.copyData q.pending, .copyDone] true

/-- The top of the loop, up to the race. -/
def pumpLoop (c : Conn) (p : PumpId) : Conn :=
  if (c.tasks (c.pumps p).task).settled then c.pumpFinish p
  else c.modPump p fun q => { q with phase := .awaiting }

/-- The `catch` of `pumpCopy`. -/
def pumpCatch (c : Conn) (p : PumpId) (e : JsError) : Conn :=
  let t := (c.pumps p).task
  (c.writeSocket [⟨.pump t, .copyFail ("COPY aborted: " ++ e.message)⟩]).modPump p fun q =>
    { q with phase := .ended }

/-- The loop body after the race. -/
def pumpNext (c : Conn) (p : PumpId) (step : SourceStep) : Conn :=
  let k := c.tasks (c.pumps p).task
  match step with
  | .threw e => c.pumpCatch p e
  | .stopped => c.pumpFinish p
  | .done => c.pumpFinish p
  | .chunk b =>
    if isOver k then c.pumpFinish p
    else if b.isEmpty then c.pumpLoop p
    else
      let c := c.modPump p fun q => { q with pending := q.pending ++ b }
      if copyChunk ≤ (Frame.copyData (c.pumps p).pending).size then
        let length := (c.pumps p).pending.length + 4
        if maxFrameLength < length then c.pumpCatch p (frameRangeError length)
        else c.pumpFlush p [.copyData (c.pumps p).pending] false
      else c.pumpLoop p

/-- A pump continues after a flush that went through, or that failed. -/
def pumpResume (c : Conn) (p : PumpId) : Conn :=
  match (c.pumps p).phase with
  | .resumed false => c.pumpLoop p
  | .resumed true => c.modPump p fun q => { q with phase := .ended }
  | .failed e => c.pumpCatch p e
  | _ => c

/-- `void this.pumpCopy(t)`. -/
def pumpCopy (c : Conn) (t : TaskId) : Conn :=
  let p := c.nextPump
  let c := { c with
    pumps := Function.update c.pumps p { task := t, phase := .awaiting }
    nextPump := p + 1 }
  (c.modTask t fun k => { k with stopCopy := some p }).pumpLoop p

/-- The listeners of `writeRaw`: `drain` lets its pumps go on, `close` and `error` fail them. -/
def wakePumps (c : Conn) (s : SocketId) (f : Bool → PumpPhase) : Conn :=
  { c with pumps := fun p =>
      match (c.pumps p).phase with
      | .draining s' isLast => if s' = s then { c.pumps p with phase := f isLast } else c.pumps p
      | _ => c.pumps p }

end Conn

end Minipg
