import Mathlib.Data.List.Basic
import Minipg.Lib.Machine

/-!
# A replication connection and its walsender

The driver (`src/replication.ts`) reads one message after the other from its `queue`.  The messages
under way to it are the `wire`; a chunk of bytes that completes `k` messages moves them to the
queue.  A message carries the request that it answers, which the driver does not see.  The socket
stays alive, and the consumer makes one call at a time, apart from calls that the reservation of a
stream refuses.

The walsender answers a query with a ReadyForQuery at the end.  START_REPLICATION is rejected, or
it opens a CopyBoth that ends in one of the ways the driver knows: a CopyDone of either side, an
error, or a CommandComplete or ReadyForQuery without a CopyDone.  Outside of a copy it ignores
CopyData and CopyDone.
-/

namespace Minipg.Walsender

abbrev Request := Nat

/-- The types of messages; `other` are notices and parameters. -/
inductive Kind
  | rowDescription
  | dataRow
  | commandComplete
  | errorResponse
  | readyForQuery
  | copyBoth
  | copyDone
  | copyData
  | other
  deriving DecidableEq, Repr

structure Message where
  kind : Kind
  owner : Request
  deriving DecidableEq, Repr

/-- What the driver sends. -/
inductive Frame
  | query (n : Request) (isStart : Bool)
  | copyDone
  | copyData
  deriving DecidableEq, Repr

inductive Server
  | ready
  | replying (n : Request)
  | starting (n : Request)
  | copying (n : Request)
  /-- A query in the middle of a copy. -/
  | confused
  deriving DecidableEq, Repr

/-- What `run` is called for; `probes` are those of `start()` that follow the current one. -/
inductive Job
  | command
  | start (probes : Nat)
  deriving DecidableEq, Repr

/-- Where the driver waits. -/
inductive Phase
  | idle
  /-- `exitCopyModeIfOpen`, draining the copy of `stream`. -/
  | exiting (stream : Request) (job : Job)
  | running (job : Job) (n : Request) (failed : Bool)
  | setup (n : Request) (failed : Bool)
  | copying (n : Request)
  | yielded (n : Request)
  /-- The server's CopyDone was answered. -/
  | handshake (n : Request)
  /-- A CommandComplete came without a CopyDone. -/
  | spent (n : Request)
  deriving DecidableEq, Repr

/-- How the code of the consumer and `start()` go on after a message. -/
inductive Choice
  | goesOn
  | yields
  /-- A throw (of `onReady`, of decoding, of a check), or a return. -/
  | ends
  deriving DecidableEq, Repr

/-- `stream` is the START_REPLICATION of `copyOpen`; `read` are the messages read so far, each with
the request that it was read for. -/
structure Driver where
  phase : Phase := .idle
  streaming : Bool := false
  copyOpen : Bool := false
  stream : Request := 0
  nextRequest : Request := 0
  server : Server := .ready
  inbox : List Frame := []
  wire : List Message := []
  queue : List Message := []
  read : List (Message × Request) := []
  deriving DecidableEq, Repr

namespace Driver

/-! ### The driver -/

def frame (s : Driver) (f : Frame) : Driver := { s with inbox := s.inbox ++ [f] }

/-- A query, and the wait for its answer. -/
def query (s : Driver) (isStart : Bool) (phase : Request → Phase) : Driver :=
  { s.frame (.query s.nextRequest isStart) with
    nextRequest := s.nextRequest + 1
    phase := phase s.nextRequest }

/-- `run`, with `exitCopyModeIfOpen`. -/
def run (s : Driver) (job : Job) : Driver :=
  if s.copyOpen then
    { s.frame .copyDone with copyOpen := false, phase := .exiting s.stream job }
  else s.query false fun n => .running job n false

/-- The `finally` of `start()`. -/
def finish (s : Driver) : Driver := { s with phase := .idle, streaming := false }

/-- `run` has returned or thrown. -/
def ran (s : Driver) (job : Job) (failed : Bool) (choice : Choice) : Driver :=
  match job with
  | .command => { s with phase := .idle }
  | .start probes =>
    if failed ∨ choice = .ends then s.finish
    else
      match probes with
      | 0 => s.query true fun n => .setup n false
      | k + 1 => s.run (.start k)

def command (s : Driver) : Driver := if s.streaming then s else s.run .command

/-- `start()` up to its first await: it may throw or return before the first probe. -/
def start (s : Driver) (probes : Nat) (choice : Choice) : Driver :=
  if s.streaming then s
  else if choice = .ends then { s with streaming := true }.finish
  else { s with streaming := true }.run (.start probes)

/-- A message is taken from the queue. -/
def handle (s : Driver) (kind : Kind) (choice : Choice) : Driver :=
  match s.phase, kind with
  | .exiting _ job, .readyForQuery => s.query false fun n => .running job n false
  | .running job n _, .errorResponse => { s with phase := .running job n true }
  | .running job _ failed, .readyForQuery => s.ran job failed choice
  | .setup n _, .errorResponse => { s with phase := .setup n true }
  | .setup _ _, .readyForQuery => s.finish
  | .setup n _, .copyBoth =>
    let s := { s with copyOpen := true, stream := n }
    if choice = .ends then s.finish else { s with phase := .copying n }
  | .copying _, .errorResponse => s.finish
  | .copying n, .copyDone => { s.frame .copyDone with copyOpen := false, phase := .handshake n }
  | .copying n, .commandComplete => { s with copyOpen := false, phase := .spent n }
  | .copying _, .readyForQuery => { s with copyOpen := false }.finish
  | .copying n, .copyData =>
    match choice with
    | .goesOn => s
    | .yields => { s with phase := .yielded n }
    | .ends => s.finish
  | .handshake _, .readyForQuery => s.finish
  | .spent _, .readyForQuery => s.finish
  | _, _ => s

/-- The request that a wait reads for. -/
def reader : Phase → Option Request
  | .idle | .yielded _ => none
  | .exiting n _ | .running _ n _ | .setup n _ | .copying n | .handshake n | .spent n => some n

/-- The next message is taken and handled.  `run` puts a CopyBothResponse back. -/
def receive (s : Driver) (choice : Choice) : Driver :=
  match s.queue, reader s.phase with
  | m :: rest, some n =>
    match s.phase, m.kind with
    | .running job _ failed, .copyBoth => s.ran job failed choice
    | _, _ => { s with queue := rest, read := s.read ++ [(m, n)] }.handle m.kind choice
  | _, _ => s

end Driver

/-! ### The walsender -/

/-- The state after a message, if it may be sent. -/
def Server.send : Server → Kind → Option Server
  | s, .other => some s
  | .replying _, .copyBoth => none
  | .replying _, .readyForQuery => some .ready
  | .replying n, _ => some (.replying n)
  | .starting n, .copyBoth => some (.copying n)
  | .starting n, .errorResponse => some (.replying n)
  | .starting _, .readyForQuery => some .ready
  | .copying n, .copyData | .copying n, .copyDone => some (.copying n)
  | .copying n, .errorResponse | .copying n, .commandComplete => some (.replying n)
  | .copying _, .readyForQuery => some .ready
  | _, _ => none

def Server.request : Server → Request
  | .replying n | .starting n | .copying n => n
  | .ready | .confused => 0

/-- A walsender reads between two commands and in a copy. -/
def Server.reads : Server → Bool
  | .ready | .copying _ => true
  | _ => false

def Server.take : Server → Frame → Server
  | .ready, .query n isStart => if isStart then .starting n else .replying n
  | .ready, _ => .ready
  | .copying n, .copyDone => .replying n
  | .copying n, .copyData => .copying n
  | .copying _, .query _ _ => .confused
  | s, _ => s

inductive Event
  | command
  | start (probes : Nat) (choice : Choice)
  | arrives (k : Nat)
  | receive (choice : Choice)
  | next
  | break
  | status
  | serverReads
  | serverSends (kind : Kind)
  deriving DecidableEq, Repr

namespace Driver

def enabled (s : Driver) : Event → Bool
  | .command | .start _ _ => s.phase == .idle || s.streaming
  | .arrives k => k ≤ s.wire.length
  | .receive _ => (reader s.phase).isSome && !s.queue.isEmpty
  | .next | .break =>
    match s.phase with
    | .yielded _ => true
    | _ => false
  | .status => true
  | .serverReads => s.server.reads && !s.inbox.isEmpty
  | .serverSends kind => (s.server.send kind).isSome

def step (s : Driver) : Event → Driver
  | .command => s.command
  | .start probes choice => s.start probes choice
  | .arrives k => { s with queue := s.queue ++ s.wire.take k, wire := s.wire.drop k }
  | .receive choice => s.receive choice
  | .next =>
    match s.phase with
    | .yielded n => { s with phase := .copying n }
    | _ => s
  | .break => s.finish
  | .status => s.frame .copyData
  | .serverReads =>
    match s.inbox with
    | f :: rest => { s with server := s.server.take f, inbox := rest }
    | [] => s
  | .serverSends kind =>
    match s.server.send kind with
    | some server =>
      { s with server := server, wire := s.wire ++ [⟨kind, s.server.request⟩] }
    | none => s

end Driver

def machine : Machine Driver Event := ⟨Driver.enabled, Driver.step⟩

def Reachable : Driver → Prop := machine.Reach Machine.Free (· = {})

end Minipg.Walsender
