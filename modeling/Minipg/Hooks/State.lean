import Mathlib.Logic.Function.Basic
import Minipg.Lib.Machine

/-!
# The hooks around a query

`fireStart` and `fireEnd` of `src/connection.ts` call the hooks of all plugins, and a task comes to
them on its way through the queue and the pipeline: it is serialized, finished, run again,
cancelled, or given up with the connection.  Of a task the state keeps what decides whether its
hooks are called.  A hook that a plugin leaves out counts as called, and a hook does not itself call
the connection.
-/

namespace Minipg.Hooks

abbrev TaskId := Nat

inductive Hook
  | onQueryStart
  | onQueryEnd
  | onQueryError
  deriving DecidableEq, Repr

/-- A hook of a plugin is called for a task. -/
structure Call where
  task : TaskId
  plugin : Nat
  hook : Hook
  deriving DecidableEq, Repr

/-- `hasStates` says that `perf.states` is defined, and `instrDone` is `_instrDone`. -/
structure Task where
  hasPerf : Bool := false
  hasStates : Bool := false
  instrDone : Bool := false
  settled : Bool := false
  retries : Nat := 0
  deriving DecidableEq, Repr

inductive State
  | connecting
  | ready
  | reconnecting
  | closed
  deriving DecidableEq, Repr

/-- A connection with so many plugins. -/
structure Conn where
  plugins : Nat
  state : State := .connecting
  tasks : TaskId → Task := fun _ => {}
  queue : List TaskId := []
  inflight : List TaskId := []
  nextTask : TaskId := 0
  /-- The hooks that were called. -/
  calls : List Call := []

namespace Conn

def modify (c : Conn) (t : TaskId) (f : Task → Task) : Conn :=
  { c with tasks := Function.update c.tasks t (f (c.tasks t)) }

/-- The plugins `0` to `n - 1`, in their order. -/
def call (c : Conn) (t : TaskId) (n : Nat) (hook : Hook) : Conn :=
  { c with calls := c.calls ++ (List.range n).map fun p => ⟨t, p, hook⟩ }

/-- The hooks are called at the start of this task. -/
def firesStart (c : Conn) (t : TaskId) : Bool :=
  (c.tasks t).hasPerf && c.plugins ≠ 0 && !(c.tasks t).hasStates

/-- `thrower` is the plugin whose hook throws: the ones after it are not called, and `states` stays
undefined. -/
def fireStart (c : Conn) (t : TaskId) (thrower : Option Nat) : Conn :=
  if c.firesStart t then
    match thrower with
    | none => (c.call t c.plugins .onQueryStart).modify t fun u => { u with hasStates := true }
    | some i => c.call t (min (i + 1) c.plugins) .onQueryStart
  else c

/-- What the hooks throw here is caught. -/
def fireEnd (c : Conn) (t : TaskId) (hasFailed : Bool) : Conn :=
  if (c.tasks t).hasPerf && !(c.tasks t).instrDone then
    (c.call t c.plugins (if hasFailed then .onQueryError else .onQueryEnd)).modify t
      fun u => { u with instrDone := true }
  else c

/-- `query`, `copyFrom`, or a stream, which has no `perf`. -/
def submit (c : Conn) (isStream metrics : Bool) : Conn :=
  { c with
    tasks := Function.update c.tasks c.nextTask
      { hasPerf := !isStream && (c.plugins ≠ 0 || metrics) }
    queue := c.queue ++ [c.nextTask]
    nextTask := c.nextTask + 1 }

/-- How `startTask` goes. -/
inductive Outcome
  /-- The task cannot be serialized, and is rejected. -/
  | rejected
  | sent (thrower : Option Nat)
  deriving DecidableEq, Repr

/-- `startTask(this.queue.shift())` -/
def startTask (c : Conn) (outcome : Outcome) : Conn :=
  match c.queue with
  | [] => c
  | t :: rest =>
    match outcome with
    | .rejected => { c with queue := rest }
    | .sent thrower => { c with queue := rest, inflight := c.inflight ++ [t] }.fireStart t thrower

/-- What a task ends with.  A statement that became invalid (0A000 or 26000) may run again. -/
inductive Reply
  | completed
  | failed
  | stale
  deriving DecidableEq, Repr

/-- The task at the head has its ReadyForQuery. -/
def finishTask (c : Conn) (reply : Reply) : Conn :=
  match c.inflight with
  | [] => c
  | t :: rest =>
    if reply = .stale ∧ (c.tasks t).settled = false ∧ (c.tasks t).retries < 1 then
      { c.modify t (fun u => { u with retries := u.retries + 1 }) with
        inflight := rest
        queue := c.queue ++ [t] }
    else if (c.tasks t).settled then { c with inflight := rest }
    else { c with inflight := rest }.fireEnd t (reply ≠ Reply.completed)

/-- `cancelTask`: a timeout or an abort. -/
def cancelTask (c : Conn) (t : TaskId) : Conn :=
  if (c.tasks t).settled then c
  else
    let c := c.modify t fun u => { u with settled := true }
    if t ∈ c.inflight then c.fireEnd t true
    else { c with queue := c.queue.erase t }

/-- Every task in flight is rejected. -/
def rejectInflight (c : Conn) : Conn :=
  { c.inflight.foldl (fun c t => if (c.tasks t).settled then c else c.fireEnd t true) c with
    inflight := [] }

def rejectQueue (c : Conn) : Conn := { c with queue := [] }

/-- The queue waits for the next socket, if there will be one. -/
def onSocketDown (c : Conn) (reconnects : Bool) : Conn :=
  if reconnects then { c.rejectInflight with state := .reconnecting }
  else { c.rejectInflight.rejectQueue with state := .closed }

/-- `settlePending`, and what `end` does before. -/
def settlePending (c : Conn) : Conn := { c.rejectInflight.rejectQueue with state := .closed }

/-- The connection cannot be made. -/
def giveUp (c : Conn) : Conn := { c.rejectQueue with state := .closed }

end Conn

inductive Event
  | submit (isStream metrics : Bool)
  | start (outcome : Conn.Outcome)
  | finish (reply : Conn.Reply)
  | cancel (t : TaskId)
  | connected
  | giveUp
  | socketDown (reconnects : Bool)
  | stop
  deriving DecidableEq, Repr

def isConnecting : State → Bool
  | .connecting | .reconnecting => true
  | .ready | .closed => false

def machine : Machine Conn Event where
  enabled c
    | .submit _ _ => c.state ≠ .closed
    | .start _ => c.state = .ready && !c.queue.isEmpty
    | .finish _ => c.state = .ready && !c.inflight.isEmpty
    | .cancel t => t < c.nextTask
    | .connected => isConnecting c.state
    | .giveUp => isConnecting c.state
    | .socketDown _ => c.state = .ready
    | .stop => c.state ≠ .closed
  step c
    | .submit isStream metrics => c.submit isStream metrics
    | .start outcome => c.startTask outcome
    | .finish reply => c.finishTask reply
    | .cancel t => c.cancelTask t
    | .connected => { c with state := .ready }
    | .giveUp => c.giveUp
    | .socketDown reconnects => c.onSocketDown reconnects
    | .stop => c.settlePending

/-- A new connection. -/
def Start (c : Conn) : Prop := ∃ n, c = { plugins := n }

/-- The calls that a plugin got for a task. -/
def Conn.hooks (c : Conn) (t : TaskId) (p : Nat) : List Hook :=
  (c.calls.filter fun k => k.task = t && k.plugin = p).map Call.hook

/-- **Hooks are paired**: a plugin got nothing, a start that is not answered while the task waits or
runs, or a start and then one end. -/
def Paired (c : Conn) : Prop := ∀ t p, c.hooks t p = [] ∨
  c.hooks t p = [.onQueryStart] ∧ (t ∈ c.queue ∨ t ∈ c.inflight) ∨
  c.hooks t p = [.onQueryStart, .onQueryEnd] ∨ c.hooks t p = [.onQueryStart, .onQueryError]

/-- No hook throws at the start of a task, and no task whose hooks were called at its start leaves
the queue but to be sent again. -/
def Sound (c : Conn) : Event → Prop
  | .start .rejected => ∀ t ∈ c.queue.head?, (c.tasks t).hasStates = false
  | .start (.sent thrower) => ∀ t ∈ c.queue.head?, c.firesStart t = true → thrower = none
  | .cancel t => t ∈ c.queue → (c.tasks t).hasStates = false
  | .giveUp | .socketDown false | .stop => ∀ t ∈ c.queue, (c.tasks t).hasStates = false
  | .submit _ _ | .finish _ | .connected | .socketDown true => True

instance (c : Conn) : DecidablePred (Sound c)
  | .start .rejected => inferInstanceAs (Decidable (∀ t ∈ c.queue.head?, _))
  | .start (.sent thrower) =>
    inferInstanceAs (Decidable (∀ t ∈ c.queue.head?, c.firesStart t = true → thrower = none))
  | .cancel t => inferInstanceAs (Decidable (t ∈ c.queue → _))
  | .giveUp | .socketDown false | .stop => inferInstanceAs (Decidable (∀ t ∈ c.queue, _))
  | .submit _ _ | .finish _ | .connected | .socketDown true => instDecidableTrue

end Minipg.Hooks
