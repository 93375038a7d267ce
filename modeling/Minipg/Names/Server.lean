import Minipg.Connection.Contract
import Minipg.Lib.Pending

/-!
# The statements of a server

A session of the server, as far as named statements are concerned: a map from names to
SQL.  It reads the frames that were written to its socket in order, one at a time.  Any
Parse, Describe, Bind or Execute may fail for reasons of its own, and a Parse of a name
that exists, or a Describe or Bind of one that does not, fails in any case (42P05, 26000);
after a failure the server skips everything up to the next Sync.  An Execute may remove
names, as DEALLOCATE and DISCARD do.  What the server answers is not constrained here: the
messages that reach the connection are arbitrary.

`closed` is a history: it remembers the SQL of the statement that a Close removed, until the
name is parsed again or another Parse of the same SQL has failed.
-/

namespace Minipg

structure Statements where
  stmts : String → Option String := fun _ => none
  isSkipping : Bool := false
  closed : String → Option String := fun _ => none

/-- What the sender does not see: whether a message fails, and which names an Execute removes. -/
structure Chance where
  fails : Bool := false
  drops : String → Bool := fun _ => false

namespace Statements

def fail (v : Statements) : Statements := { v with isSkipping := true }

def set (v : Statements) (n : String) (q : Option String) : Statements :=
  { v with stmts := Function.update v.stmts n q }

def setClosed (v : Statements) (n : String) (q : Option String) : Statements :=
  { v with closed := Function.update v.closed n q }

/-- A Parse.  The unnamed statement is replaced by every Parse and is not part of the map. -/
def parse (v : Statements) (x : Chance) (n q : String) : Statements :=
  if n = "" then if x.fails then v.fail else v
  else if (v.stmts n).isSome then v.fail
  else if x.fails then (if v.closed n = some q then v.setClosed n none else v).fail
  else (v.set n (some q)).setClosed n none

/-- A Close.  It is no error if the name does not exist. -/
def close (v : Statements) (n : String) : Statements :=
  match v.stmts n with
  | none => v
  | some q => (v.set n none).setClosed n (some q)

/-- A Describe or a Bind. -/
def useName (v : Statements) (x : Chance) (n : String) : Statements :=
  if n ≠ "" ∧ v.stmts n = none then v.fail else if x.fails then v.fail else v

def execute (v : Statements) (x : Chance) : Statements :=
  if x.fails then v.fail else { v with stmts := fun n => if x.drops n then none else v.stmts n }

/-- One frame. -/
def serve (v : Statements) (x : Chance) (p : Packet) : Statements :=
  match p.frame with
  | .sync => { v with isSkipping := false }
  | .parse n q _ => if v.isSkipping then v else v.parse x n q
  | .describe n => if v.isSkipping then v else v.useName x n
  | .bind n _ _ => if v.isSkipping then v else v.useName x n
  | .execute => if v.isSkipping then v else v.execute x
  | .close n => if v.isSkipping then v else v.close n
  | _ => v

end Statements

/-- A connection, the sessions at the other end of its sockets, and how many of the frames
written to each socket have been read. -/
structure Served where
  conn : Conn := {}
  taken : SocketId → Nat := fun _ => 0
  session : SocketId → Statements := fun _ => {}

/-- A callback of the connection, or a session that reads its next frame. -/
inductive ServedEvent
  | callback (e : Event)
  | read (s : SocketId) (x : Chance)

namespace Served

/-- The frames on their way to a session. -/
def unread (v : Served) (s : SocketId) : List Packet := (v.conn.sent s).drop (v.taken s)

def enabled (v : Served) : ServedEvent → Bool
  | .callback e => v.conn.enabled e
  | .read s _ => !(v.unread s).isEmpty

def step (cfg : Config) (v : Served) : ServedEvent → Served
  | .callback e => { v with conn := v.conn.step cfg e }
  | .read s x =>
    match v.unread s with
    | [] => v
    | p :: _ => { v with
        taken := Function.update v.taken s (v.taken s + 1)
        session := Function.update v.session s ((v.session s).serve x p) }

def machine (cfg : Config) : Machine Served ServedEvent := ⟨enabled, step cfg⟩

/-- A connection and its servers, after any callbacks and any progress of the sessions. -/
def Reachable (cfg : Config) : Served → Prop := (machine cfg).Reach Machine.Free (· = {})

def run (cfg : Config) (es : List ServedEvent) : Served := (machine cfg).exec {} es

theorem reachable_run {cfg : Config} {es : List ServedEvent}
    (h : (machine cfg).Runs Machine.Free {} es) : Reachable cfg (run cfg es) := by
  have hnew : Reachable cfg {} := .start rfl
  exact hnew.exec h

/-- The connection alone makes a run of its own. -/
theorem Reachable.conn {cfg : Config} {v : Served} (h : Reachable cfg v) :
    Conn.Reachable cfg v.conn := by
  unfold Reachable at h
  induction h with
  | start hs =>
    rw [hs]
    exact .start rfl
  | step e _ he _ ih =>
    cases e with
    | callback e => exact .step e ih he trivial
    | read s x =>
      change Conn.Reachable cfg (Served.step cfg _ (.read s x)).conn
      unfold Served.step
      dsimp only
      split
      · exact ih
      · exact ih

end Served

end Minipg
