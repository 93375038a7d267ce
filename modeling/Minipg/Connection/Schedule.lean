import Minipg.Connection.Link

/-!
# Dispatching and canceling

`processQueue` starts queued tasks while the pipeline has room, nothing blocks it and the
socket takes what it is given, and then flushes the batch: at once, or at the end of the
tick in microtask mode.  A connection that is retiring starts nothing, and closes when
nothing is in flight.

A timeout or an abort settles the caller at once.  If the task is the head of the
pipeline, an out-of-band CancelRequest is sent as well, and `pendingCancel` stops every
dispatch until it is known that the request cannot stop a later query:

* the head ended with 57014, so the request was used up;
* the server closed the cancel connection (`isConfirmed`), so the signal has arrived;
* a query that was pipelined behind the head ended with 57014 (`checkLateCancel`).

If none of these happens in time, if the cancel connection fails, or if a second request
goes out meanwhile, the connection retires: it closes once nothing is in flight.
-/

namespace Minipg

/-- `FLUSH_THRESHOLD`. -/
def flushThreshold : Nat := 64 * 1024

namespace Conn

/-- `flushWrites`: the batch leaves in one socket write.  A write that reports a full buffer
closes the gate until the socket drains. -/
def flushWrites (c : Conn) : Conn :=
  if c.outbuf.isEmpty then c
  else
    let bytes := c.outbuf
    let c := { c with outbuf := [] }
    match c.socket with
    | none => c
    | some s =>
      let (c, ok) := c.writeChecked s bytes
      if !ok && !c.writeBackedUp then
        { c with writeBackedUp := true, drainWaiters := c.drainWaiters ++ [s] }
      else c

/-- `canStartNext`, with `next` the head of the queue. -/
def canStartNext (c : Conn) (next : TaskId) : Bool :=
  if c.pendingCancel.isSome then false
  else
    match c.inflight with
    | [] => true
    | head :: _ =>
      if (c.tasks head).stream || (c.tasks head).copySource then false
      else !(c.tasks next).stream && !(c.tasks next).copySource

/-- The loop condition of `processQueue`. -/
def canDispatch (cfg : Config) (c : Conn) (next : TaskId) : Bool :=
  decide (c.inflight.length < cfg.pipelineDepth) && !c.writeBackedUp && c.canStartNext next

/-- One round of the loop: start the head of the queue, and flush once the batch is large. -/
def dispatchOne (cfg : Config) (c : Conn) (t : TaskId) (rest : List TaskId) : Conn :=
  let c := { c with queue := rest }.startTask cfg t
  if flushThreshold ≤ byteLength c.outbuf then c.flushWrites else c

/-- The loop of `processQueue`; a round takes one task off the queue, so as many rounds as
the queue is long are enough. -/
def dispatchLoop (cfg : Config) : Nat → Conn → Conn
  | 0, c => c
  | n + 1, c =>
    match c.queue with
    | [] => c
    | t :: rest =>
      if c.canDispatch cfg t then dispatchLoop cfg n (c.dispatchOne cfg t rest) else c

/-- `retire`. -/
def retire (cfg : Config) (c : Conn) : Conn :=
  (c.writeSocket [⟨.link, .terminate⟩]).onSocketDown cfg retireError

/-- The end of `processQueue`: flush now, or once at the end of the tick. -/
def flushSoon (cfg : Config) (c : Conn) : Conn :=
  if cfg.microtaskFlush && decide (1 < cfg.pipelineDepth) &&
      decide (byteLength c.outbuf < flushThreshold) then
    { c with flushScheduled := true }
  else c.flushWrites

/-- `processQueue`. -/
def processQueue (cfg : Config) (c : Conn) : Conn :=
  if c.state ≠ .ready then c
  else if c.isRetiring then if c.inflight.isEmpty then c.retire cfg else c
  else (dispatchLoop cfg c.queue.length c).flushSoon cfg

/-- The microtask of `scheduleFlush`. -/
def flushMicrotask (c : Conn) : Conn :=
  { c with flushScheduled := false }.flushWrites

/-- The `drain` listeners that `flushWrites` left on a socket. -/
def resumeOnce (cfg : Config) (c : Conn) : Conn :=
  if c.writeBackedUp then { c with writeBackedUp := false }.processQueue cfg else c

def resumeWrites (cfg : Config) (c : Conn) (s : SocketId) : Conn :=
  let n := c.drainWaiters.count s
  (resumeOnce cfg)^[n] { c with drainWaiters := c.drainWaiters.filter (· ≠ s) }

/-- The `close` and `error` listeners that `flushWrites` left on a socket. -/
def stopWrites (c : Conn) (s : SocketId) : Conn :=
  if s ∈ c.drainWaiters then
    { c with drainWaiters := c.drainWaiters.filter (· ≠ s), writeBackedUp := false }
  else c

/-! ### Submitting -/

/-- The name a task keeps: a COPY has none, `query` drops it where prepared statements are off,
and an empty name counts as none. -/
def keptName (cfg : Config) (r : Request) : Option String :=
  if r.copySource || r.copyOut || (!r.stream && !cfg.prepare) then none
  else r.name.filter (· ≠ "")

/-- The common end of `query`, `queryTyped`, `stream`, `copyFrom` and `copyTo`: build the
task, settle it at once if the connection is closed or its signal was aborted already,
and queue it otherwise. -/
def submit (cfg : Config) (c : Conn) (r : Request) (aborted : Option JsError) : Conn :=
  let t := c.nextTask
  let c := { c with
    nextTask := t + 1
    tasks := Function.update c.tasks t { toRequest := { r with name := keptName cfg r } } }
  if c.state = .closed then c.settle t (.rejected closedError)
  else
    match aborted with
    | some reason => (c.modTask t fun k => { k with settled := true }).rejectTask t reason
    | none =>
      let c := c.modTask t fun k => { k with listening := r.signal }
      { c with queue := c.queue ++ [t] }.processQueue cfg

end Conn

/-! ### Cancel requests -/

def lateCancelHint : String :=
  "A cancel request for an earlier query in the pipeline most likely reached the server after " ++
  "that query ended, and it stopped this query. The server rolled this query back, so it can run again."

def timeoutError (ms : Nat) : JsError :=
  { message := "query timed out after " ++ toString ms ++ "ms", code := some "QUERY_TIMEOUT" }

def streamClosedError : JsError := jsError "stream closed early"
def copyClosedError : JsError := jsError "copy closed early"

def JsError.markLate (e : JsError) : JsError :=
  { e with isLateCancel := true, hint := some lateCancelHint }

namespace Conn

/-- `sendCancelRequest`.  Two cancels in flight cannot be told apart, so the connection is not
reused after the second one. -/
def sendCancelRequest (cfg : Config) (c : Conn) (head : TaskId) : Conn :=
  if c.backendKey.isNone || !cfg.hasCancel then c
  else
    { c with
      isRetiring := c.isRetiring || c.pendingCancel.isSome
      cancels := Function.update c.cancels c.nextCancel { head := some head }
      pendingCancel := some c.nextCancel
      nextCancel := c.nextCancel + 1 }

/-- `cancelTask`: settle the caller, and stop the query if it is the head in flight.  A COPY
FROM ends by the CopyFail of its pump, not by a cancel request. -/
def cancelTask (cfg : Config) (c : Conn) (t : TaskId) (reason : JsError) : Conn :=
  if (c.tasks t).settled then c
  else
    let c := c.modTask t fun k => { k with settled := true, timer := false }
    if t ∈ c.inflight then
      let c := c.rejectTask t reason
      if c.current = some t then
        let c := if (c.tasks t).copySource then c else c.sendCancelRequest cfg t
        c.modTask t fun k => { k with graceTimer := true }
      else c
    else
      let c := { c with queue := c.queue.erase t }
      (c.modTask t fun k => { k with listening := false }).rejectTask t reason

def setCancel (c : Conn) (p : CancelId) (f : PendingCancel → PendingCancel) : Conn :=
  { c with cancels := Function.update c.cancels p (f (c.cancels p)) }

/-- `resolveCanceledHead`. -/
def resolveCanceledHead (cfg : Config) (c : Conn) (p : CancelId) : Conn :=
  if c.isRetiring then c
  else if (c.cancels p).hasFailed || ((c.cancels p).isConfirmed && cfg.isBehindPooler) then
    { c with isRetiring := true }.processQueue cfg
  else if (c.cancels p).isConfirmed then c.clearPendingCancel.processQueue cfg
  else c

/-- The record of an ended head: the queries behind it become suspects, unless the head itself
was stopped. -/
def noteSuspects (c : Conn) (t : TaskId) (p : CancelId) : Conn :=
  let c := c.setCancel p fun r => { r with head := none }
  if (c.tasks t).errorCode ≠ some "57014" ∧ c.inflight ≠ [] then
    { c with lateCancel := some ⟨p, c.inflight⟩ }
  else c

/-- `endCanceledHead`, with `p` the pending cancel. -/
def endCanceledHead (cfg : Config) (c : Conn) (t : TaskId) (p : CancelId) : Conn :=
  let c := c.noteSuspects t p
  if c.isRetiring then c
  else if (c.tasks t).errorCode = some "57014" then c.clearPendingCancel
  else
    let c := c.resolveCanceledHead cfg p
    if c.pendingCancel = some p ∧ ¬ c.isRetiring then
      c.setCancel p fun r => { r with timer := true }
    else c

/-- The cancel connection was closed by the server, or it failed. -/
def cancelAnswered (cfg : Config) (c : Conn) (p : CancelId) (isConfirmed : Bool) : Conn :=
  let c := c.setCancel p fun r => r.answer isConfirmed
  if c.pendingCancel = some p ∧ (c.cancels p).head = none then c.resolveCanceledHead cfg p else c

/-- The timer of a pending cancel fires. -/
def cancelTimeout (cfg : Config) (c : Conn) (p : CancelId) : Conn :=
  let c := c.setCancel p fun r => { r with timer := false }
  if c.pendingCancel = some p then { c with isRetiring := true }.processQueue cfg else c

/-- The mark of a query that was stopped by somebody else's cancel. -/
def markLateCancel (c : Conn) (t : TaskId) : Conn :=
  c.modTask t fun k => { k with error := k.error.map JsError.markLate }

/-- `checkLateCancel`: only the first 57014 among the suspects is marked. -/
def checkLateCancel (c : Conn) (t : TaskId) (late : LateCancel) : Conn :=
  if (c.tasks t).errorCode = some "57014" ∧ ¬ (c.tasks t).settled then
    let c := c.markLateCancel t
    let c := if c.pendingCancel = some late.pending ∧ ¬ c.isRetiring then c.clearPendingCancel else c
    { c with lateCancel := none }
  else
    { c with lateCancel := late.strike t }

end Conn

end Minipg
