import Minipg.Lib.Fifo
import Minipg.Protocol
import Mathlib.Logic.Function.Basic
import Mathlib.Logic.Function.Iterate

/-!
# The state of a connection

`src/connection.ts` keeps one object per query (`Task`), a queue of tasks, the pipeline
`inflight` whose head receives every reply, three records about named statements and the
records of one or more cancel requests.  `Conn` is that state.

Tasks, cancel records, pumps and reconnect loops are objects that several places hold at
once, so `Conn` keeps them by number and the lists hold numbers.  A promise is settled by
the first call of its resolver; `Task.settlements` lists all calls in order, and
`Task.outcome` is the first.

The fields `sent`, `ledger` and `history` of `Conn` and `settlements`, `heard` of `Task` are
histories: no function of the connection reads them.  The ledger lists the starts of tasks
and the replies in the order in which they happened; a `Moment` of the history says what
the connection found in its records at a point where it relied on them.
-/

namespace Minipg

/-! ### Tasks -/

inductive ResultMode
  | array | object | buffer | raw | wire
  deriving DecidableEq, Repr

/-- One column of a decode plan. -/
structure CodegenCol where
  name : String
  oid : Oid
  binary : Bool := false
  js : Option String := none
  deriving DecidableEq, Repr

/-- A row mapper is determined by the resolved columns and the row mode. -/
structure RowMapper where
  cols : List CodegenCol
  mode : ResultMode
  deriving DecidableEq, Repr

/-- How a `DataRow` becomes a row: `t.mapper`, or `makeRow` over the described fields. -/
inductive RowPlan
  | mapper (m : RowMapper)
  | makeRow (mode : ResultMode) (fields : List Field)
  deriving DecidableEq, Repr

/-- A row, as the plan and the body it is decoded from. -/
structure Row where
  plan : RowPlan
  body : Bytes
  deriving DecidableEq, Repr

/-- Which encoder writes the parameters of a Bind: text values, a compiled plan, or the JIT
encoder of a plan. -/
inductive ParamsEncoder
  | text
  | plan (oids : List Oid)
  | jit (oids : List Oid)
  deriving DecidableEq, Repr

def ParamsEncoder.isCompiled : ParamsEncoder → Bool
  | .jit _ => true
  | _ => false

/-- The parameters of a query, as serialization meets them: whether they are an array at
all, how many there are, and what each encoder writes for them or throws. -/
structure Params where
  isArray : Bool := true
  length : Nat := 0
  encode : ParamsEncoder → Except JsError Bytes := fun _ => .ok []

/-- `rawParams()`: pre-encoded parameter values, written verbatim. -/
structure RawParams where
  length : Nat
  bytes : Bytes

structure QueryResult where
  rows : List Row
  columns : List String
  rowCount : Option Nat
  command : Option String
  deriving DecidableEq, Repr

/-- What a caller gets: `resolve(result)`, `resolve(t.wire)`, `streamEnd`, or a rejection. -/
inductive Outcome
  | resolved (r : QueryResult)
  | frames (ms : List BackendMsg)
  | streamEnd (command : Option String) (rowCount : Option Nat)
  | rejected (e : JsError)
  deriving DecidableEq, Repr

/-- The fields a public method (`query`, `queryTyped`, `stream`, `copyFrom`, `copyTo`) sets
in the task it submits. -/
structure Request where
  sql : String
  params : Params := {}
  name : Option String := none
  mode : ResultMode := .array
  raw : Option RawParams := none
  paramTypes : Option (List Oid) := none
  resultFormat : Option (List Nat) := none
  mapper : Option RowMapper := none
  shapeCols : Option (List CodegenCol) := none
  typed : Bool := false
  binary : Bool := false
  wire : Bool := false
  copySource : Bool := false
  copyOut : Bool := false
  stream : Bool := false
  timeout : Option Nat := none
  signal : Bool := false

structure Task extends Request where
  rows : List Row := []
  delivered : List Row := []
  relayed : List Bytes := []
  wireFrames : List BackendMsg := []
  fields : Option (List Field) := none
  paramOids : Option (List Oid) := none
  command : Option String := none
  rowCount : Option Nat := none
  error : Option JsError := none
  cacheName : Option String := none
  retries : Nat := 0
  settled : Bool := false
  cancelled : Bool := false
  timer : Bool := false
  graceTimer : Bool := false
  listening : Bool := false
  stopCopy : Option PumpId := none
  settlements : List Outcome := []
  heard : List BackendMsg := []

/-- The value the caller's promise ends with. -/
def Task.outcome (t : Task) : Option Outcome := t.settlements.head?

/-- `(t.error as PgError).code`. -/
def Task.errorCode (t : Task) : Option String := t.error.bind (·.code)

/-- The identity of a Parse on the wire: the SQL, and the declared types if there are any. -/
def parseKey (t : Request) : String :=
  match t.paramTypes with
  | some (o :: os) => t.sql ++ "\x00" ++ String.intercalate "," ((o :: os).map toString)
  | _ => t.sql

/-! ### Records -/

/-- `plan` is compiled on first reuse: `none` while it is not, `some none` when nothing is
binary-able. -/
structure PreparedEntry where
  sql : String
  fields : List Field
  paramOids : Option (List Oid) := none
  plan : Option (Option (List Oid)) := none
  deriving DecidableEq, Repr

abbrev CancelId := Nat
abbrev LoopId := Nat
abbrev DialId := Nat

/-- `head`: the canceled query until it ends. -/
structure PendingCancel where
  head : Option TaskId
  isConfirmed : Bool := false
  hasFailed : Bool := false
  timer : Bool := false
  deriving DecidableEq, Repr

/-- The cancel connection was closed by the server, or it failed. -/
def PendingCancel.answer (r : PendingCancel) (isConfirmed : Bool) : PendingCancel :=
  if isConfirmed then { r with isConfirmed := true } else { r with hasFailed := true }

structure LateCancel where
  pending : CancelId
  suspects : List TaskId
  deriving DecidableEq, Repr

/-- One suspect less; without suspects there is nothing left to look for. -/
def LateCancel.strike (late : LateCancel) (t : TaskId) : Option LateCancel :=
  let suspects := late.suspects.filter (· ≠ t)
  if suspects.isEmpty then none else some { late with suspects := suspects }

/-- Where a `pumpCopy` is suspended.  `isLast` marks the flush after the terminator. -/
inductive PumpPhase
  | awaiting
  | draining (s : SocketId) (isLast : Bool)
  | resumed (isLast : Bool)
  | failed (e : JsError)
  | ended
  deriving DecidableEq, Repr

structure Pump where
  task : TaskId := 0
  phase : PumpPhase := .ended
  stopped : Bool := false
  pending : Bytes := []
  deriving DecidableEq, Repr

/-- The pump can still write to a socket, without a socket having died on it. -/
def Pump.isFeeding (q : Pump) : Bool :=
  match q.phase with
  | .awaiting | .draining _ false | .resumed false | .failed _ => true
  | .draining _ true | .resumed true | .ended => false

/-- Where a reconnect loop is suspended: in the backoff sleep before an attempt, waiting for
`establish()`, or about to continue with the error `establish()` rejected with. -/
inductive LoopPhase
  | sleeping (attempt : Nat) (lastErr : JsError)
  | establishing (attempt : Nat)
  | failed (attempt : Nat) (err : JsError)
  | ended
  deriving DecidableEq, Repr

/-- Whose promise `attemptResolve`/`attemptReject` settle. -/
inductive AttemptOwner
  | connect
  | loop (l : LoopId)
  deriving DecidableEq, Repr

inductive ConnState
  | idle | connecting | ready | reconnecting | closed
  deriving DecidableEq, Repr

/-- A moment at which the connection relies on what it knows, and what it knows then.

* `start`: a task is about to be serialized; the cached entry, the stale mark and the Parse
  in flight under its name, and whether serialization throws;
* `described`: the Describe of a task was answered; the SQL of the youngest task in flight
  under its name;
* `copyIn`: a CopyInResponse for a task; whether frames of tasks behind it have left;
* `ended`: the ReadyForQuery of a task; whether a pump of it has not written its terminator;
* `thrown`: a handler or the parser threw; the state of the connection. -/
inductive Moment
  | start (k : Task) (entry : Option PreparedEntry) (isStale : Bool) (marker : Option String)
      (hasThrown : Bool)
  | described (k : Task) (youngest : Option String)
  | copyIn (k : Task) (isPassed : Bool)
  | ended (k : Task) (isPumping : Bool)
  | thrown (state : ConnState) (connecting : Bool)

/-- What happens to the pipeline: a task joins it, a message arrives, all of it is dropped. -/
abbrev Entry := Fifo.Event TaskId BackendMsg

/-- The part of the configuration that the connection's control flow reads, and the codecs
it calls as far as they can throw. -/
structure Config where
  pipelineDepth : Nat := 100
  depth_pos : 0 < pipelineDepth := by decide
  microtaskFlush : Bool := true
  prepare : Bool := true
  binaryParams : Bool := true
  jitEncode : Bool := true
  connectTimeout : Nat := 30000
  reconnect : Bool := false
  maxRetries : Option Nat := none
  isBehindPooler : Bool := false
  hasCancel : Bool := true
  reuseBinaryOids : Oid → Bool := fun _ => false
  resolveCols : List CodegenCol → List CodegenCol := id
  mergeUnknownCols : List CodegenCol → List Field → List CodegenCol := fun cols _ => cols
  mapperError : RowMapper → Option JsError := fun _ => none
  decodeError : RowPlan → Bytes → Option JsError := fun _ _ => none
  hasParamPlan : List Oid → Bool := fun _ => false
  jitCompiles : List Oid → Bool := fun _ => true
  isFatalAuth : JsError → Bool := fun _ => false

structure Conn where
  state : ConnState := .idle
  txStatus : Char := 'I'
  backendKey : Option BackendKey := none
  socket : Option SocketId := none
  queue : List TaskId := []
  inflight : List TaskId := []
  tasks : TaskId → Task := fun _ => { sql := "" }
  nextTask : TaskId := 0
  outbuf : List Packet := []
  flushScheduled : Bool := false
  writeBackedUp : Bool := false
  prepared : String → Option PreparedEntry := fun _ => none
  staleStatements : String → Bool := fun _ => false
  parseInflight : String → Option String := fun _ => none
  pendingCancel : Option CancelId := none
  isRetiring : Bool := false
  lateCancel : Option LateCancel := none
  cancels : CancelId → PendingCancel := fun _ => { head := none }
  nextCancel : CancelId := 0
  pumps : PumpId → Pump := fun _ => {}
  nextPump : PumpId := 0
  connecting : Bool := false
  everConnected : Bool := false
  ended : Bool := false
  connectCalled : Bool := false
  connectFailed : Option JsError := none
  attempt : Option AttemptOwner := none
  connTimer : Option DialId := none
  armedTimers : List DialId := []
  dials : List DialId := []
  nextDial : DialId := 0
  loops : LoopId → LoopPhase := fun _ => .ended
  nextLoop : LoopId := 0
  nextSocket : SocketId := 0
  destroyed : SocketId → Bool := fun _ => false
  drainWaiters : List SocketId := []
  sockRoom : Nat := 0
  sent : SocketId → List Packet := fun _ => []
  ledger : List Entry := []
  history : List Moment := []

namespace Conn

/-- `inTransaction`: the last ReadyForQuery said T or E. -/
def inTransaction (c : Conn) : Bool := c.txStatus == 'T' || c.txStatus == 'E'

/-- The head of the in-flight FIFO. -/
def current (c : Conn) : Option TaskId := c.inflight.head?

/-- One more moment of the history. -/
def note (c : Conn) (m : Moment) : Conn := { c with history := c.history ++ [m] }

/-- Assignments to the fields of one task. -/
def modTask (c : Conn) (t : TaskId) (f : Task → Task) : Conn :=
  { c with tasks := Function.update c.tasks t (f (c.tasks t)) }

/-- One call of the task's resolver. -/
def settle (c : Conn) (t : TaskId) (o : Outcome) : Conn :=
  c.modTask t fun k => { k with settlements := k.settlements ++ [o] }

/-- `t.stopCopy?.()`. -/
def stopCopy (c : Conn) (t : TaskId) : Conn :=
  match (c.tasks t).stopCopy with
  | none => c
  | some p => { c with pumps := Function.update c.pumps p { c.pumps p with stopped := true } }

/-- `rejectTask`: end the copy pump's wait, then reject. -/
def rejectTask (c : Conn) (t : TaskId) (e : JsError) : Conn :=
  (c.stopCopy t).settle t (.rejected e)

/-- Bytes written to a socket.  A destroyed socket takes none. -/
def writeTo (c : Conn) (s : SocketId) (ps : List Packet) : Conn :=
  if c.destroyed s then c
  else { c with sent := Function.update c.sent s (c.sent s ++ ps) }

/-- `this.socket?.write(…)` where the answer is not looked at. -/
def writeSocket (c : Conn) (ps : List Packet) : Conn :=
  match c.socket with
  | none => c
  | some s => c.writeTo s ps

/-- A write whose answer tells about backpressure: `true` while the socket has room. -/
def writeChecked (c : Conn) (s : SocketId) (ps : List Packet) : Conn × Bool :=
  if c.destroyed s then (c, false)
  else ({ c.writeTo s ps with sockRoom := c.sockRoom - 1 }, decide (0 < c.sockRoom))

/-- `socket.destroy()`. -/
def destroy (c : Conn) (s : SocketId) : Conn :=
  { c with destroyed := Function.update c.destroyed s true }

def destroySocket (c : Conn) : Conn :=
  match c.socket with
  | none => c
  | some s => c.destroy s

end Conn

end Minipg
