import Mathlib.Logic.Function.Basic

/-!
# The state of a CDC handle

`src/cdc.ts` runs one session after the other: it connects, looks at its slot, creates it or
resumes, has the consumer read a baseline, and streams.  `Cdc` is the state that `replicate()`
closes over, with the place in `run` where its code waits (`Await`) and the place in `doStop`.

The consumer's callbacks are choices of the environment.  One that returns a promise is called
first (`calling`), and the call is pending then (`pending`); `current` is the pending one, and
`results` are those that have settled.  Between the two, and while a retry delay is asked for, the
consumer's code runs, and it may stop the handle.

On the server there is one durable slot.  `slot` says whether it exists, and which
CREATE_REPLICATION_SLOT of this handle made it; `baselines` are the creations for which a backfill
has resolved.  `calls`, `acks`, `starts` and `fatals` keep what was handed over, acknowledged,
started and reported.
-/

namespace Minipg

abbrev Lsn := Nat
abbrev ReplId := Nat
abbrev CallId := Nat
abbrev CreationId := Nat

/-- `cause` of a `SlotInvalidatedError`. -/
inductive SlotCause
  | absent
  | walLost
  | noConfirmedFlush
  | systemChanged
  deriving DecidableEq, Repr

def SlotCause.text : SlotCause → String
  | .absent => "absent"
  | .walLost => "wal-lost"
  | .noConfirmedFlush => "no-confirmed-flush"
  | .systemChanged => "system-changed"

/-- The classes of errors that `run` tells apart. -/
inductive CdcErrorKind
  | stopRequested
  | publicationMissing
  | publicationEmpty
  | invalidSlotName
  | invalidReplicationShape
  | slotInvalidated (cause : SlotCause)
  | slotBusy
  | unsupportedServerVersion
  | backfillTimeout
  | pg
  | other
  deriving DecidableEq, Repr

structure CdcError where
  kind : CdcErrorKind := .other
  code : Option String := none
  message : String := ""
  deriving DecidableEq, Repr

/-- `active_pid`, as a number. -/
inductive Pid
  | integer (n : Nat)
  | other (text : String)
  deriving DecidableEq, Repr

def Pid.text : Pid → String
  | .integer n => toString n
  | .other t => t

/-- A row of `pg_replication_slots`. -/
structure SlotHealthRow where
  isActive : Bool := false
  activePid : Option Pid := none
  isLost : Bool := false
  confirmedFlush : Option Lsn := none
  restartLsn : Lsn := 0
  deriving DecidableEq, Repr

/-- A `TransactionBatch`; `done` is the end of its transaction, if it is the last one of it. -/
structure Batch where
  xid : Nat
  done : Option Lsn
  deriving DecidableEq, Repr

structure ReplicateOptions where
  durableName : Option String := none
  backfillTimeoutMs : Option Nat := none
  recreatesInvalidated : Bool := false
  evictsBusy : Bool := false
  hasOnResume : Bool := false
  hasOnFatalError : Bool := true
  setsKeepAlive : Bool := false

def stopError : CdcError := { kind := .stopRequested, message := "minipg: stop requested" }

def stoppedEarlyError : CdcError where
  message := "minipg: replicate() stopped before the first connect opened a stream"

def slotInvalidatedError (slot : String) (cause : SlotCause) : CdcError where
  kind := .slotInvalidated cause
  message := "minipg: replication slot \"" ++ slot ++ "\" is invalidated (" ++ cause.text ++
    ") — drop it and call replicate() again to start over"

def slotBusyError (slot : String) (pid : Pid) : CdcError where
  kind := .slotBusy
  message := "minipg: replication slot \"" ++ slot ++ "\" is active for PID " ++ pid.text ++
    " — pass onSlotBusy: 'evict' to terminate it, or wait for the other consumer to release it"

def unsupportedServerVersionError : CdcError where
  kind := .unsupportedServerVersion
  message := "minipg: durable slots need PostgreSQL 13+ (pg_replication_slots.wal_status is not " ++
    "available on this server) — use slot: 'temporary' instead, or upgrade the server"

def backfillTimeoutError (ms : Nat) : CdcError where
  kind := .backfillTimeout
  message := "minipg: backfill did not resolve within " ++ toString ms ++
    "ms (backfillTimeoutMs) — the session is abandoned"

def recreateVerdict : CdcError where
  message := "minipg: onResume returned 'recreate' — dropping the slot and rebuilding from a " ++
    "fresh snapshot"

/-- `PERMANENT_SQLSTATES`. -/
def permanentSqlstates : List String := ["28P01", "28000", "3D000", "42501"]

/-- One of `PERMANENT_ERRORS`. -/
def CdcErrorKind.isPermanent : CdcErrorKind → Bool
  | .publicationMissing | .publicationEmpty | .invalidSlotName | .invalidReplicationShape
  | .slotInvalidated _ | .slotBusy | .unsupportedServerVersion | .backfillTimeout => true
  | .stopRequested | .pg | .other => false

def isPermanentFailure (e : CdcError) : Bool :=
  e.code.any (permanentSqlstates.contains ·) || e.kind.isPermanent

def ReplicateOptions.isRecreatable (o : ReplicateOptions) (e : CdcError) : Bool :=
  match e.kind with
  | .slotInvalidated cause => cause != .systemChanged && o.recreatesInvalidated
  | _ => false

/-! ### Where the code waits -/

/-- What `onResume` is told, apart from `isReconnect`. -/
structure Resumed where
  confirmedFlush : Lsn
  restartLsn : Lsn
  deriving DecidableEq, Repr

/-- A callback whose promise `run` awaits. -/
inductive Callback
  | onResume (resumed : Resumed)
  | backfill (n : CreationId)
  | onTransaction (b : Batch)
  deriving DecidableEq, Repr

/-- Where `run` is. -/
inductive Await
  | microtask
  | connecting
  | probing
  | reconnecting
  | identifying
  | readingHealth (evictions : Nat)
  | terminating (evictions : Nat) (pid : Pid)
  | polling (evictions : Nat) (pid : Pid)
  | pollSleep (evictions : Nat) (pid : Pid)
  | calling (k : Callback)
  | pending (k : Callback) (i : CallId)
  | recreateDelay (e : CdcError)
  | recreateSleep
  | dropping
  | dropSleep
  | creating
  | backfillDelay (n : CreationId) (e : CdcError)
  | backfillSleep (n : CreationId)
  | starting
  | streaming
  | handlerDelay (b : Batch) (e : CdcError)
  | handlerSleep (b : Batch)
  | sessionDelay (e : CdcError)
  | sessionSleep
  | done
  deriving DecidableEq, Repr

/-- Where `doStop` is: it was not called, it awaits a call, or it is done.  `isHandling` is the
branch that it took. -/
inductive StopAt
  | notCalled
  | waiting (i : CallId) (isHandling : Bool)
  | done
  deriving DecidableEq, Repr

/-- How a promise of the consumer has settled.  `isRecreate` is the verdict of `onResume`. -/
inductive Settled
  | resolved (isRecreate : Bool)
  | rejected (e : CdcError)
  deriving DecidableEq, Repr

def Settled.isResolved : Settled → Bool
  | .resolved _ => true
  | .rejected _ => false

/-- Who made the slot: this handle, or somebody else. -/
inductive SlotOrigin
  | own (n : CreationId)
  | foreign
  deriving DecidableEq, Repr

/-- A batch that was handed to `onTransaction`, and the connection it came from. -/
structure HandlerCall where
  repl : ReplId
  batch : Batch
  isResolved : Bool := false
  deriving DecidableEq, Repr

structure Cdc where
  stopping : Bool := false
  handling : Bool := false
  fatalFired : Bool := false
  sessions : Nat := 0
  attempt : Nat := 0
  repl : Option ReplId := none
  current : Option CallId := none
  pendingAckLsn : Option Lsn := none
  sawSlot : Bool := false
  lastSystem : Option (String × Nat) := none
  derivedKeepAlive : Bool := false
  ready : Option (Option CdcError) := none
  isAborted : Bool := false
  isListening : Bool := true
  recreate : Option CdcError := none
  windowTimedOut : Bool := false
  runAt : Await := .microtask
  stopAt : StopAt := .notCalled
  results : CallId → Option Settled := fun _ => none
  nextCall : CallId := 0
  nextRepl : ReplId := 0
  nextCreation : CreationId := 0
  slot : Option SlotOrigin := none
  baselines : List CreationId := []
  calls : List HandlerCall := []
  acks : List (ReplId × Lsn) := []
  starts : List SlotOrigin := []
  fatals : List CdcError := []

namespace Cdc

/-! ### The ways out of a session -/

/-- `resolveReady` and `rejectReady`: only the first one counts. -/
def settleReady (s : Cdc) (r : Option CdcError) : Cdc := { s with ready := s.ready.or (some r) }

def fireFatal (o : ReplicateOptions) (s : Cdc) (e : CdcError) : Cdc :=
  if s.fatalFired then s
  else
    { s.settleReady (some e) with
      fatalFired := true
      isListening := false
      fatals := if o.hasOnFatalError then s.fatals ++ [e] else s.fatals }

/-- `fireFatal(e); return`. -/
def giveUp (o : ReplicateOptions) (s : Cdc) (e : CdcError) : Cdc :=
  { s.fireFatal o e with runAt := .done }

/-- The error with which a session has failed, as it is reported: 42704 is an absent slot. -/
def sessionError (o : ReplicateOptions) (e : CdcError) : CdcError :=
  match o.durableName with
  | some name =>
    if e.kind = .pg ∧ e.code = some "42704" then slotInvalidatedError name .absent else e
  | none => e

/-- The catch block of a session, up to the call of `retryDelayMs`. -/
def catchSession (o : ReplicateOptions) (s : Cdc) (e : CdcError) : Cdc :=
  if s.stopping then { s with runAt := .done }
  else
    let e := sessionError o e
    let s := s.settleReady (some e)
    if isPermanentFailure e && !o.isRecreatable e then s.giveUp o e
    else { s with attempt := s.attempt + 1, runAt := .sessionDelay e }

/-- `if (stopping) throw STOP`, before the rest of the session. -/
def unlessStopping (o : ReplicateOptions) (s : Cdc) (next : Cdc) : Cdc :=
  if s.stopping then s.catchSession o stopError else next

/-- A new session. -/
def connect (s : Cdc) : Cdc :=
  { s with sessions := s.sessions + 1, recreate := none, runAt := .connecting }

/-- A connection was made. -/
def openRepl (s : Cdc) : Cdc := { s with repl := some s.nextRepl, nextRepl := s.nextRepl + 1 }

/-! ### The slot -/

/-- After the look at the slot, if it is not resumed. -/
def beginSlot (s : Cdc) : Cdc :=
  match s.recreate with
  | some e => { s with attempt := s.attempt + 1, runAt := .recreateDelay e }
  | none => { s with runAt := .creating }

/-- An error in the block of the durable slot. -/
def durableFailed (o : ReplicateOptions) (s : Cdc) (e : CdcError) : Cdc :=
  if o.isRecreatable e then s.unlessStopping o { s with recreate := some e }.beginSlot
  else s.catchSession o e

/-- The slot is looked at, or it is made. -/
def beginSession (o : ReplicateOptions) (s : Cdc) : Cdc :=
  match o.durableName with
  | some _ => { s with runAt := .identifying }
  | none => s.unlessStopping o s.beginSlot

def identified (o : ReplicateOptions) (name : String) (s : Cdc) (system : String × Nat) : Cdc :=
  if s.lastSystem.any (· ≠ system) then s.durableFailed o (slotInvalidatedError name .systemChanged)
  else
    let s := { s with lastSystem := some system }
    if s.stopping then s.durableFailed o stopError else { s with runAt := .readingHealth 0 }

/-- `PgError` 42703 is an old server. -/
def healthError (e : CdcError) : CdcError :=
  if e.kind = .pg ∧ e.code = some "42703" then unsupportedServerVersionError else e

/-- The slot passed its health check. -/
def resume (o : ReplicateOptions) (s : Cdc) (resumed : Resumed) : Cdc :=
  s.unlessStopping o
    { s with runAt := if o.hasOnResume then .calling (.onResume resumed) else .starting }

def readHealth (o : ReplicateOptions) (name : String) (s : Cdc) (evictions : Nat)
    (row : Option SlotHealthRow) : Cdc :=
  if s.stopping then s.durableFailed o stopError
  else
    match row with
    | none =>
      if s.sawSlot then s.durableFailed o (slotInvalidatedError name .absent)
      else s.unlessStopping o s.beginSlot
    | some r =>
      let s := { s with sawSlot := true }
      if r.isLost then s.durableFailed o (slotInvalidatedError name .walLost)
      else
        match r.confirmedFlush with
        | none => s.durableFailed o (slotInvalidatedError name .noConfirmedFlush)
        | some lsn =>
          match r.isActive, r.activePid with
          | true, some pid =>
            if !o.evictsBusy || evictions ≥ 3 then s.durableFailed o (slotBusyError name pid)
            else
              match pid with
              | .other _ => s.durableFailed o (slotBusyError name pid)
              | .integer _ => { s with runAt := .terminating (evictions + 1) pid }
          | _, _ => s.resume o { confirmedFlush := lsn, restartLsn := r.restartLsn }

/-- The answer of a poll: whether the slot is still active, if it exists. -/
def polled (o : ReplicateOptions) (name : String) (s : Cdc) (evictions : Nat) (pid : Pid)
    (isActive : Option Bool) (isPastDeadline : Bool) : Cdc :=
  match isActive with
  | none => s.durableFailed o (slotInvalidatedError name .absent)
  | some false =>
    if s.stopping then s.durableFailed o stopError else { s with runAt := .readingHealth evictions }
  | some true =>
    if isPastDeadline then s.durableFailed o (slotBusyError name pid)
    else { s with runAt := .pollSleep evictions pid }

/-- The slot is gone. -/
def dropped (o : ReplicateOptions) (s : Cdc) : Cdc := s.unlessStopping o { s with runAt := .creating }

/-- `dropSlot` was rejected. -/
def dropFailed (o : ReplicateOptions) (s : Cdc) (e : CdcError) (isPastDeadline : Bool) : Cdc :=
  if e.kind = .pg ∧ e.code = some "42704" then s.dropped o
  else if e.kind = .pg ∧ e.code = some "55006" ∧ isPastDeadline = false then
    { s with runAt := .dropSleep }
  else s.catchSession o e

/-- The server executes a CREATE_REPLICATION_SLOT. -/
def createSlot (o : ReplicateOptions) (s : Cdc) : Cdc :=
  { s with
    slot := if o.durableName.isSome then some (.own s.nextCreation) else s.slot
    nextCreation := s.nextCreation + 1 }

/-- `createSlot()` resolves. -/
def created (o : ReplicateOptions) (s : Cdc) : Cdc :=
  let n := s.nextCreation
  let s := { s.createSlot o with sawSlot := s.sawSlot || o.durableName.isSome }
  s.unlessStopping o { s with windowTimedOut := false, runAt := .calling (.backfill n) }

/-! ### Callbacks -/

/-- A backfill was rejected, or thrown by. -/
def backfillFailed (o : ReplicateOptions) (s : Cdc) (n : CreationId) (e : CdcError) : Cdc :=
  if s.windowTimedOut then s.catchSession o (backfillTimeoutError (o.backfillTimeoutMs.getD 0))
  else s.unlessStopping o { s with attempt := s.attempt + 1, runAt := .backfillDelay n e }

def abortError : CdcError where message := "This operation was aborted"

/-- A backfill was resolved. -/
def backfillDone (o : ReplicateOptions) (s : Cdc) (n : CreationId) : Cdc :=
  if s.windowTimedOut || s.isAborted then s.backfillFailed o n abortError
  else { s with runAt := .starting }

def handlerFailed (o : ReplicateOptions) (s : Cdc) (b : Batch) (e : CdcError) : Cdc :=
  s.unlessStopping o { s with attempt := s.attempt + 1, runAt := .handlerDelay b e }

/-- `repl.ack(lsn)`. -/
def ack (s : Cdc) (lsn : Lsn) : Cdc :=
  match s.repl with
  | some r => { s with acks := s.acks ++ [(r, lsn)] }
  | none => s

/-- `if (pendingAckLsn) { repl.ack(pendingAckLsn); pendingAckLsn = null }`. -/
def ackPending (s : Cdc) : Cdc :=
  match s.pendingAckLsn with
  | some lsn => { s.ack lsn with pendingAckLsn := none }
  | none => s

/-- The handler of a batch was resolved. -/
def handlerDone (s : Cdc) : Cdc :=
  let s := if s.pendingAckLsn.isSome then { s.ackPending with attempt := 0 } else s
  { s with handling := false, runAt := .streaming }

/-- A batch arrives. -/
def receiveBatch (o : ReplicateOptions) (s : Cdc) (b : Batch) : Cdc :=
  s.unlessStopping o { s with
    handling := true
    pendingAckLsn := b.done
    calls := s.calls ++ s.repl.toList.map fun r => { repl := r, batch := b }
    runAt := .calling (.onTransaction b) }

/-- A callback throws before it returns a promise, or its promise was rejected. -/
def callbackFailed (o : ReplicateOptions) (s : Cdc) (e : CdcError) : Callback → Cdc
  | .onResume _ => s.catchSession o e
  | .backfill n => s.backfillFailed o n e
  | .onTransaction b => s.handlerFailed o b e

/-- `run` goes on after a callback was resolved. -/
def callbackDone (o : ReplicateOptions) (s : Cdc) (isRecreate : Bool) : Callback → Cdc
  | .onResume _ =>
    if isRecreate then { s with recreate := some recreateVerdict }.beginSlot
    else { s with runAt := .starting }
  | .backfill n => s.backfillDone o n
  | .onTransaction _ => s.handlerDone

def markLast : List HandlerCall → List HandlerCall
  | [] => []
  | [c] => [{ c with isResolved := true }]
  | c :: cs => c :: markLast cs

/-- What a resolved callback has achieved. -/
def achieve (s : Cdc) : Callback → Cdc
  | .onResume _ => s
  | .backfill n => { s with baselines := s.baselines ++ [n] }
  | .onTransaction _ => { s with calls := markLast s.calls }

/-- A promise settles, and `current` is cleared. -/
def settleCall (s : Cdc) (k : Callback) (i : CallId) (r : Settled) : Cdc :=
  let s := { s with results := Function.update s.results i (some r), current := none }
  if r.isResolved then s.achieve k else s

/-! ### Retry delays -/

/-- `retryDelayMs` returns: `none` is the end. -/
def delayed (o : ReplicateOptions) (s : Cdc) (d : Option Nat) (e : CdcError) (next : Await) : Cdc :=
  match d with
  | none => s.giveUp o e
  | some _ => { s with runAt := next }

/-! ### Stopping -/

/-- `doStop`, up to its await. -/
def doStop (s : Cdc) : Cdc :=
  let s := { s.settleReady (some stoppedEarlyError) with stopping := true, isListening := false }
  match s.handling, s.current with
  | true, some i => { s with stopAt := .waiting i true }
  | true, none => { s with isAborted := true, stopAt := .done }
  | false, some i => { s with isAborted := true, stopAt := .waiting i false }
  | false, none => { s with isAborted := true, stopAt := .done }

/-- `stop()`. -/
def callStop (s : Cdc) : Cdc := if s.stopAt = .notCalled then s.doStop else s

/-- `doStop` goes on: the call it awaited has settled. -/
def stopContinues (s : Cdc) (isHandling isResolved : Bool) : Cdc :=
  if isHandling then
    { (if isResolved then s.ackPending else s) with isAborted := true, stopAt := .done }
  else { s with stopAt := .done }

end Cdc

end Minipg
