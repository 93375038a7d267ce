import Minipg.Connection.Serialize

/-!
# Sockets, attempts and the reconnect loop

`establish` starts an attempt, `failAttempt` gives it up, `onSocketDown` takes note of the
death of a socket and either closes the connection or starts a reconnect loop.  The loop
is an async function: the model keeps one `LoopPhase` per call of `startReconnect` and
runs the code between two awaits in one step.
-/

namespace Minipg

def endError : JsError := jsError "connection ended (end() called)"
def terminatedError : JsError := jsError "connection terminated unexpectedly"
def closedError : JsError := jsError "connection is closed"

def retireError : JsError :=
  jsError ("minipg: the connection was closed because a cancel request could still stop a later " ++
    "query on it. Run the query again on a new connection.")

def reconnectError (attempts : Nat) (last : JsError) : JsError :=
  jsError ("reconnect failed after " ++ toString attempts ++ " attempts: " ++ last.message)

namespace Conn

/-! ### Rejecting what is pending -/

def clearTimers (c : Conn) (t : TaskId) : Conn :=
  c.modTask t fun k => { k with timer := false, graceTimer := false, listening := false }

/-- One round of the loop that rejects the tasks in flight: a server error that already
arrived for a task is preferred. -/
def dropTask (e : JsError) (c : Conn) (t : TaskId) : Conn :=
  let c := c.clearTimers t
  if (c.tasks t).settled then c else c.rejectTask t ((c.tasks t).error.getD e)

def dropInflight (c : Conn) (e : JsError) : Conn :=
  { c.inflight.foldl (dropTask e) c with inflight := [], ledger := c.ledger ++ [.drop] }

/-- `rejectQueue`: reject only the tasks that were not sent. -/
def rejectQueue (c : Conn) (e : JsError) : Conn :=
  { c.queue.foldl (fun c t => c.rejectTask t e) c with queue := [] }

/-- One round of the second loop of `settlePending`. -/
def dropQueued (e : JsError) (c : Conn) (t : TaskId) : Conn :=
  let c := c.modTask t fun k => { k with listening := false }
  if (c.tasks t).settled then c else c.rejectTask t e

def dropQueue (c : Conn) (e : JsError) : Conn :=
  { c.queue.foldl (dropQueued e) c with queue := [] }

/-- `settlePending`: drop the unsent batch and reject everything in flight and queued. -/
def settlePending (c : Conn) (e : JsError) : Conn :=
  let c := { c with outbuf := [], parseInflight := fun _ => none, lateCancel := none }
  (c.dropInflight e).dropQueue e

/-- `clearPendingCancel`. -/
def clearPendingCancel (c : Conn) : Conn :=
  match c.pendingCancel with
  | none => { c with isRetiring := false }
  | some p =>
    { c with
      cancels := Function.update c.cancels p { c.cancels p with timer := false }
      pendingCancel := none
      isRetiring := false }

/-! ### Attempts -/

/-- `establish()`: one attempt, for the caller whose promise `attemptResolve` settles. -/
def establish (c : Conn) (owner : AttemptOwner) : Conn :=
  { c with
    attempt := some owner
    connecting := true
    state := if c.everConnected then .reconnecting else .connecting
    dials := c.dials ++ [c.nextDial]
    connTimer := some c.nextDial
    armedTimers := c.armedTimers ++ [c.nextDial]
    nextDial := c.nextDial + 1 }

/-- `clearTimeout(this.connTimer)`. -/
def clearConnTimer (c : Conn) : Conn :=
  match c.connTimer with
  | none => c
  | some d => { c with armedTimers := c.armedTimers.erase d }

/-- `attemptReject?.(e)`: the owner continues with the error later. -/
def rejectAttempt (c : Conn) (e : JsError) : Conn :=
  let owner := c.attempt
  let c := { c with attempt := none }
  match owner with
  | none => c
  | some .connect => { c with connectFailed := some e }
  | some (.loop l) =>
    match c.loops l with
    | .establishing a => { c with loops := Function.update c.loops l (.failed a e) }
    | _ => c

/-- `attemptResolve?.()`: a reconnect loop is over. -/
def resolveAttempt (c : Conn) : Conn :=
  let owner := c.attempt
  let c := { c with attempt := none }
  match owner with
  | some (.loop l) => { c with loops := Function.update c.loops l .ended }
  | _ => c

/-- `failAttempt`. -/
def failAttempt (c : Conn) (e : JsError) : Conn :=
  if !c.connecting then c
  else
    let c := { c with connecting := false }.clearConnTimer
    let c := { c.destroySocket with socket := none }
    c.rejectAttempt e

/-! ### The reconnect loop -/

/-- The top of the loop body, up to the backoff sleep. -/
def loopTop (cfg : Config) (c : Conn) (l : LoopId) (attempt : Nat) (lastErr : JsError) : Conn :=
  if c.ended || c.state == .closed then { c with loops := Function.update c.loops l .ended }
  else if cfg.maxRetries.any (fun m => decide (m ≤ attempt)) then
    { c with state := .closed, loops := Function.update c.loops l .ended }.rejectQueue
      (reconnectError attempt lastErr)
  else { c with loops := Function.update c.loops l (.sleeping attempt lastErr) }

/-- `void this.startReconnect(err)`. -/
def startReconnect (cfg : Config) (c : Conn) (e : JsError) : Conn :=
  { c with nextLoop := c.nextLoop + 1 }.loopTop cfg c.nextLoop 0 e

/-- The backoff sleep is over: the next attempt, unless `end()` ran meanwhile. -/
def loopWake (c : Conn) (l : LoopId) : Conn :=
  match c.loops l with
  | .sleeping attempt _ =>
    if c.ended || c.state == .closed then { c with loops := Function.update c.loops l .ended }
    else
      { c with loops := Function.update c.loops l (.establishing attempt) }.establish (.loop l)
  | _ => c

/-- `establish()` rejected: give up on a fatal error, else the next round. -/
def loopCatch (cfg : Config) (c : Conn) (l : LoopId) : Conn :=
  match c.loops l with
  | .failed attempt e =>
    if cfg.isFatalAuth e then
      { c with state := .closed, loops := Function.update c.loops l .ended }.rejectQueue e
    else c.loopTop cfg l (attempt + 1) e
  | _ => c

/-! ### A socket dies -/

/-- Prepared statements are gone with the session. -/
def forgetStatements (c : Conn) : Conn :=
  { c with
    prepared := fun _ => none
    staleStatements := fun _ => false
    parseInflight := fun _ => none }

/-- The socket, the batch and what was in flight are gone. -/
def dropSocket (c : Conn) (e : JsError) : Conn :=
  { c.clearPendingCancel.destroySocket with socket := none, outbuf := [] }.dropInflight e

/-- The rest of `onSocketDown` once no attempt is running. -/
def socketLost (cfg : Config) (c : Conn) (e : JsError) : Conn :=
  let c := c.dropSocket e
  if cfg.reconnect && !c.ended then
    ({ c with state := .reconnecting }.forgetStatements).startReconnect cfg e
  else { c with state := .closed }.rejectQueue e

/-- `onSocketDown`. -/
def onSocketDown (cfg : Config) (c : Conn) (e : JsError) : Conn :=
  if c.state = .closed then c
  else if c.connecting then c.failAttempt e
  else c.socketLost cfg e

/-! ### Connecting and ending -/

/-- `connect()`: the first call starts the first attempt. -/
def connect (c : Conn) : Conn :=
  if c.connectCalled then c else { c with connectCalled := true }.establish .connect

/-- The rejection handler of `connect()`. -/
def connectCatch (c : Conn) : Conn :=
  match c.connectFailed with
  | none => c
  | some e =>
    let c := { c with connectFailed := none }
    if c.everConnected then c else { c with state := .closed }.rejectQueue e

/-- A transport delivers its socket: it is adopted if an attempt is running, whichever it
belongs to, and destroyed otherwise. -/
def dialed (c : Conn) (d : DialId) : Conn :=
  let s := c.nextSocket
  let c := { c with nextSocket := s + 1, dials := c.dials.erase d }
  if !c.connecting then c.destroy s
  else { c with socket := some s, writeBackedUp := false }.writeTo s [⟨.link, .startup⟩]

def dialFailed (c : Conn) (d : DialId) (e : JsError) : Conn :=
  { c with dials := c.dials.erase d }.failAttempt e

/-- The connect timer of an attempt fires. -/
def connTimeout (cfg : Config) (c : Conn) (d : DialId) : Conn :=
  { c with armedTimers := c.armedTimers.erase d }.failAttempt
    (jsError ("connect timeout after " ++ toString cfg.connectTimeout ++ "ms"))

/-- `end()`, up to its first await. -/
def endConn (c : Conn) : Conn :=
  if c.state = .closed then c
  else
    let c := { c with ended := true }.clearConnTimer
    let c := { c.writeSocket [⟨.link, .terminate⟩] with state := .closed }
    let c := if c.connecting then { c with connecting := false }.rejectAttempt endError else c
    (c.settlePending endError).clearPendingCancel

end Conn

end Minipg
