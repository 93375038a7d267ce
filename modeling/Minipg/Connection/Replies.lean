import Minipg.Connection.Copy

/-!
# Replies

Every backend message belongs to the head of the pipeline until its ReadyForQuery arrives.
`Task.hear` is what a message does to the record of the task it belongs to; `handle` adds
what it does to the connection, and a ReadyForQuery runs `finishTask`.
-/

namespace Minipg

def copyFromReason : String := "use copyFrom() for COPY FROM STDIN"
def copyBothReason : String := "CopyBoth is not supported by minipg"

def copyOutError : JsError :=
  jsError ("minipg: this statement is COPY … TO STDOUT — use copyTo() (a plain query() cannot " ++
    "return the copy payload and would silently discard it)")

/-- A read past the end of a body that is too short. -/
def rangeError : JsError where
  message := "Attempt to access memory outside buffer bounds"
  code := some "ERR_BUFFER_OUT_OF_BOUNDS"

/-- A method call on `null`. -/
def nullError : JsError := jsError "Cannot read properties of null"

namespace Task

/-- Wire mode keeps the frames of the statement. -/
def keepFrame (k : Task) (m : BackendMsg) : Task :=
  if k.wire && m.isWire then { k with wireFrames := k.wireFrames ++ [m] } else k

/-- `assignMapper` in the handler of a RowDescription: a throw becomes the task's error. -/
def describeWith (cfg : Config) (k : Task) (cols : List CodegenCol) : Task :=
  match getMapper cfg cols k.mode with
  | .ok m => { k with mapper := m }
  | .error e => { k with error := some e }

def rowDescription (cfg : Config) (k : Task) (fs : List Field) : Task :=
  let k := { k with fields := some fs }
  if k.wire then k
  else if k.typed then
    match k.shapeCols, k.mapper with
    | some cols, none => k.describeWith cfg (cfg.mergeUnknownCols cols fs)
    | _, _ => k
  else
    k.describeWith cfg (fs.map fun f => { name := f.name, oid := f.dataTypeOid, binary := k.binary })

/-- `dataRow`: a decoder that throws fails the task. -/
def dataRow (cfg : Config) (k : Task) (body : Bytes) : Task :=
  if k.cancelled || k.error.isSome || k.settled then k
  else
    let plan := match k.mapper with
      | some m => RowPlan.mapper m
      | none => RowPlan.makeRow k.mode (k.fields.getD [])
    match cfg.decodeError plan body with
    | some e => { k with error := some e }
    | none =>
      if k.stream then { k with delivered := k.delivered ++ [⟨plan, body⟩] }
      else { k with rows := k.rows ++ [⟨plan, body⟩] }

/-- The effect of one backend message on the task it belongs to. -/
def hear (cfg : Config) (k : Task) (m : BackendMsg) : Task :=
  match m with
  | .rowDescription (some fs) => k.rowDescription cfg fs
  | .noData => { k with fields := some [] }
  | .parameterDescription (some oids) => { k with paramOids := some oids }
  | .dataRow body => if k.wire then k else k.dataRow cfg body
  | .commandComplete tag =>
    if k.wire then k
    else { k with command := some (commandWord tag), rowCount := commandCount tag }
  | .errorResponse e => { k with error := some e }
  | .copyOutResponse =>
    if !k.copyOut && k.error.isNone then { k with error := some copyOutError } else k
  | .copyData b =>
    if k.copyOut && !k.cancelled && k.error.isNone && !k.settled then
      { k with relayed := k.relayed ++ [b] }
    else k
  | _ => k

/-- What `finishTask` settles the caller with. -/
def result (k : Task) : QueryResult where
  rows := k.rows
  columns := (k.fields.getD []).map (·.name)
  rowCount := k.rowCount
  command := k.command

/-- The record a transparent retry starts over with. -/
def forRetry (k : Task) : Task :=
  { k with
    retries := k.retries + 1
    timer := false
    graceTimer := false
    error := none
    rows := []
    command := none
    rowCount := none
    fields := none
    paramOids := none
    resultFormat := if k.binary then k.resultFormat else none }

end Task

namespace Conn

def modHead (c : Conn) (f : Task → Task) : Conn :=
  match c.current with
  | none => c
  | some t => c.modTask t f

/-- The SQL of the youngest task in flight under a name. -/
def youngest (c : Conn) (n : String) : Option String :=
  ((c.inflight.map c.tasks).filter fun k => k.name = some n).getLast?.map (·.sql)

/-- `cacheStatement`: the named statement provably exists on the server. -/
def cacheStatement (c : Conn) (t : TaskId) : Conn :=
  let k := c.tasks t
  match k.cacheName with
  | none => c
  | some n =>
    { c with
      prepared := Function.update c.prepared n
        (some { sql := k.sql, fields := k.fields.getD [], paramOids := k.paramOids })
      parseInflight := Function.update c.parseInflight n none }.note
        (.described k (c.youngest n))

/-- The Describe of the current task was answered. -/
def cacheCurrent (c : Conn) : Conn :=
  match c.current with
  | none => c
  | some t => c.cacheStatement t

/-! ### The end of a task -/

/-- A cycle that failed before its Describe was answered: later uses of the name must Parse
again, and close the name first. -/
def noteParseFailure (c : Conn) (t : TaskId) : Conn :=
  let k := c.tasks t
  match k.cacheName with
  | none => c
  | some n =>
    if k.error.isSome && (c.prepared n).isNone then
      let c := if c.parseInflight n = some (parseKey k.toRequest) then c.setParseInflight n none
        else c
      c.setStale n true
    else c

/-- The statement was invalidated on the server: 0A000 or 26000. -/
def isInvalidated (k : Task) : Bool :=
  k.errorCode == some "0A000" || k.errorCode == some "26000"

def dropInvalidated (c : Conn) (t : TaskId) : Conn :=
  let k := c.tasks t
  match k.name with
  | none => c
  | some n => if isInvalidated k then (c.dropPrepared n).setStale n true else c

/-- Whether the task is re-run transparently. -/
def retries (c : Conn) (k : Task) : Bool :=
  k.name.isSome && isInvalidated k && !k.settled && !k.stream && !k.typed && !k.wire &&
    !c.inTransaction && decide (k.retries < 1)

/-- The re-run joins the back of the queue. -/
def requeue (c : Conn) (t : TaskId) : Conn :=
  let c := c.modTask t Task.forRetry
  { c with queue := c.queue ++ [t] }

/-- Settle the caller with what the task has received. -/
def settleFinished (c : Conn) (t : TaskId) : Conn :=
  let k := c.tasks t
  if k.settled then c
  else if k.wire && k.error.all (·.isPg) then c.settle t (.frames k.wireFrames)
  else
    match k.error with
    | some e => c.rejectTask t e
    | none =>
      if k.stream then c.settle t (.streamEnd k.command k.rowCount)
      else c.settle t (.resolved k.result)

/-- The suspects of a late cancel, once one of them ended. -/
def noteLate (c : Conn) (t : TaskId) : Conn :=
  match c.lateCancel with
  | some late => if t ∈ late.suspects then c.checkLateCancel t late else c
  | none => c

/-- The cancel records of a task that ended. -/
def noteEnded (cfg : Config) (c : Conn) (t : TaskId) : Conn :=
  let c := c.noteLate t
  match c.pendingCancel with
  | some p => if (c.cancels p).head = some t then c.endCanceledHead cfg t p else c
  | none => c

/-- A pump of the task has not handed its terminator to the socket yet. -/
def isPumping (c : Conn) (t : TaskId) : Bool :=
  (List.range c.nextPump).any fun p => (c.pumps p).task = t && (c.pumps p).isFeeding

/-- The head leaves the pipeline. -/
def popHead (c : Conn) (t : TaskId) (rest : List TaskId) : Conn :=
  { c with inflight := rest }.note (.ended (c.tasks t) (c.isPumping t))

/-- `finishTask`. -/
def finishTask (cfg : Config) (c : Conn) : Conn :=
  match c.inflight with
  | [] => c.processQueue cfg
  | t :: rest =>
    let c := (c.popHead t rest).noteEnded cfg t
    let c := (c.noteParseFailure t).dropInvalidated t
    if c.retries (c.tasks t) then (c.requeue t).processQueue cfg
    else ((c.clearTimers t).settleFinished t).processQueue cfg

/-- `ready`: the end of an attempt, or of the head of the pipeline. -/
def ready (cfg : Config) (c : Conn) (status : Option Char) : Conn :=
  let c := { c with txStatus := status.getD 'I' }
  if c.connecting then
    let c := { c with connecting := false, everConnected := true, state := .ready }.clearConnTimer
    c.resolveAttempt.processQueue cfg
  else c.finishTask cfg

/-! ### One message, one chunk -/

/-- A message arrives: it is the current task's. -/
def receive (c : Conn) (m : BackendMsg) : Conn :=
  { c.modHead fun k => { k.keepFrame m with heard := k.heard ++ [m] } with
    ledger := c.ledger ++ [.reply m] }

/-- The effect of a message on the record of the current task. -/
def hearHead (cfg : Config) (c : Conn) (m : BackendMsg) : Conn := c.modHead fun k => k.hear cfg m

/-- Frames of a task behind the head have left already. -/
def isPassed (c : Conn) : Bool :=
  c.inflight.tail.any fun t => !c.outbuf.any fun p => p.origin = .start t

/-- `handle`. -/
def handle (cfg : Config) (c : Conn) (m : BackendMsg) : Attempted :=
  let c := c.receive m
  match m with
  | .authentication .ok => (c.hearHead cfg m, none)
  | .authentication .respond =>
    match c.socket with
    | none => (c, some nullError)
    | some s => ((c.hearHead cfg m).writeTo s [⟨.link, .password⟩], none)
  | .authentication (.refuse e) => (c.failAttempt e, none)
  | .backendKeyData key =>
    match key with
    | none => (c, some rangeError)
    | some k => ({ c.hearHead cfg m with backendKey := some k }, none)
  | .readyForQuery status => (c.ready cfg status, none)
  | .copyInResponse =>
    match c.current with
    | none =>
      (c.writeSocket [⟨.abort none, .copyFail copyFromReason⟩, ⟨.abort none, .sync⟩], none)
    | some t =>
      let c := (c.hearHead cfg m).note (.copyIn (c.tasks t) c.isPassed)
      if (c.tasks t).copySource then (c.pumpCopy t, none)
      else
        (c.writeSocket [⟨.abort (some t), .copyFail copyFromReason⟩, ⟨.abort (some t), .sync⟩],
          none)
  | .copyBothResponse =>
    ((c.hearHead cfg m).writeSocket
      [⟨.abort c.current, .copyFail copyBothReason⟩, ⟨.abort c.current, .sync⟩], none)
  | .parameterDescription none =>
    (c, if c.current.isSome then some rangeError else none)
  | .rowDescription none =>
    (c, if c.current.isSome then some rangeError else none)
  | .rowDescription (some _) => ((c.hearHead cfg m).cacheCurrent, none)
  | .noData => ((c.hearHead cfg m).cacheCurrent, none)
  | .errorResponse e =>
    if c.connecting then (c.failAttempt e, none) else (c.hearHead cfg m, none)
  | _ => (c.hearHead cfg m, none)

/-- The parser or a handler threw. -/
def takeDown (cfg : Config) (c : Conn) (e : JsError) : Conn :=
  (c.note (.thrown c.state c.connecting)).onSocketDown cfg e

/-- `onData`, after the parser: the messages of a chunk in order.  A throw takes the socket
down and skips the rest of the chunk. -/
def onData (cfg : Config) : Conn → List BackendMsg → Conn
  | c, [] => c
  | c, m :: ms =>
    match c.handle cfg m with
    | (c, none) => onData cfg c ms
    | (c, some e) => c.takeDown cfg e

end Conn

end Minipg
