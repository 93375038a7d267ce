import Minipg.Lib.Machine

/-!
# A cursor and its lease

`src/cursor.ts` reads a query in batches over a connection of its own, the lease.  Its calls
overlap: `open`, `next` and `close` may be called at any time, and two timers abort the cursor.

`wire` are the statements that were sent over the lease, in order, each with the call that waits for
it; they are answered in that order.  `ends` are the calls that wait for `conn.end()`, and `waiting`
is the number of `next()` calls that wait for `opening`.

On the server, `inTransaction` says whether the transaction of the cursor is open.  It is over when
the connection is lost or ended.  ROLLBACK is rejected only then.
-/

namespace Minipg

abbrev TimerId := Nat

structure CursorOptions where
  fullScan : Bool := false
  hasSnapshot : Bool := false
  idleTimeoutMs : Nat := 300000
  maxDurationMs : Option Nat := none
  deriving DecidableEq, Repr

inductive CursorState
  | idle
  | opened
  | done
  deriving DecidableEq, Repr

/-- The statements of `open` after its BEGIN. -/
inductive OpenStmt
  | setIdleTimeout
  | setTupleFraction
  | setSnapshot
  | declare
  deriving DecidableEq, Repr

def CursorOptions.openStmts (o : CursorOptions) : List OpenStmt :=
  (if o.idleTimeoutMs > 0 then [.setIdleTimeout] else []) ++
  (if o.fullScan then [.setTupleFraction] else []) ++
  (if o.hasSnapshot then [.setSnapshot] else []) ++ [.declare]

/-- Who calls `cleanup`. -/
inductive Cleaner
  | opener
  | next
  | abort
  deriving DecidableEq, Repr

/-- A statement, and the call that waits for its answer. -/
inductive CursorStmt
  | begin (rest : List OpenStmt)
  | opening (q : OpenStmt) (rest : List OpenStmt)
  | fetch
  | close
  | commit
  | closeRollback
  | rollback (c : Cleaner)
  deriving DecidableEq, Repr

/-- The promise `opening`. -/
inductive Opening
  | notCalled
  | acquiring
  | running
  | resolved
  | rejected
  deriving DecidableEq, Repr

/-- `idleTimer` is the last one that was armed and not cleared, `idleArmed` are the ones to fire. -/
structure CursorTimers where
  idleTimer : Option TimerId := none
  idleArmed : List TimerId := []
  nextTimer : TimerId := 0
  deadline : Bool := false
  deriving DecidableEq, Repr

structure Cursor where
  state : CursorState := .idle
  isErrored : Bool := false
  hasLease : Bool := false
  opening : Opening := .notCalled
  fetching : Bool := false
  timers : CursorTimers := {}
  waiting : Nat := 0
  wire : List CursorStmt := []
  ends : List Cleaner := []
  isEnded : Bool := false
  inTransaction : Bool := false
  isAcquired : Bool := false
  releases : Nat := 0
  hasThrown : Bool := false
  deriving DecidableEq

namespace CursorTimers

/-- `if (this.idleTimer) { clearTimeout(this.idleTimer); this.idleTimer = null }`. -/
def clearIdle (t : CursorTimers) : CursorTimers :=
  match t.idleTimer with
  | some i => { t with idleArmed := t.idleArmed.erase i, idleTimer := none }
  | none => t

def clear (t : CursorTimers) : CursorTimers := { t.clearIdle with deadline := false }

def armIdle (t : CursorTimers) : CursorTimers :=
  { t with
    idleTimer := some t.nextTimer
    idleArmed := t.nextTimer :: t.idleArmed
    nextTimer := t.nextTimer + 1 }

end CursorTimers

namespace Cursor

def send (s : Cursor) (q : CursorStmt) : Cursor := { s with wire := s.wire ++ [q] }

def clearTimers (s : Cursor) : Cursor := { s with timers := s.timers.clear }

/-- `this.lease?.release(); this.lease = null`. -/
def release (s : Cursor) : Cursor :=
  if s.hasLease then { s with hasLease := false, releases := s.releases + 1 } else s

/-! ### cleanup -/

/-- What follows `await this.cleanup(…)`: `open` and `next` are rejected. -/
def cleaned (s : Cursor) : Cleaner → Cursor
  | .opener => { s with opening := .rejected }
  | .next => { s with fetching := false }
  | .abort => s

/-- The end of `cleanup`: `this.lease.release()` throws if there is no lease any more.  Nobody
awaits an abort. -/
def releaseOrThrow (s : Cursor) (c : Cleaner) : Cursor :=
  if s.hasLease then s.release.cleaned c
  else { s.cleaned c with hasThrown := s.hasThrown || c == .abort }

/-- `conn.end()`. -/
def endConnection (s : Cursor) (c : Cleaner) : Cursor :=
  { s with isEnded := true, inTransaction := false, ends := s.ends ++ [c] }

def cleanup (s : Cursor) (c : Cleaner) : Cursor :=
  let s := { s with isErrored := true, state := .done }.clearTimers
  if s.hasLease then
    if s.fetching then s.endConnection c else s.send (.rollback c)
  else s.cleaned c

def abort (s : Cursor) : Cursor :=
  if s.state = .done ∨ s.isErrored then s else s.cleanup .abort

/-! ### open, next and close -/

def open' (s : Cursor) : Cursor :=
  if s.isErrored ∨ s.state ≠ .idle then s else { s with state := .opened, opening := .acquiring }

/-- `next()`, up to its first wait. -/
def next (s : Cursor) : Cursor :=
  if s.isErrored ∨ s.state = .done then s else { s.open' with waiting := s.waiting + 1 }

/-- `next()` goes on after `opening`. -/
def resume (s : Cursor) : Cursor :=
  let s := { s with waiting := s.waiting - 1 }
  if s.opening = .rejected ∨ s.isErrored then s
  else
    let s := { s with timers := s.timers.clearIdle, fetching := true }
    if s.hasLease then s.send .fetch else s.cleanup .next

def close (s : Cursor) : Cursor :=
  if s.state = .done then s
  else
    let wasOpen := s.state = .opened ∧ s.hasLease
    let s := { s with state := .done }.clearTimers
    if wasOpen ∧ s.isErrored = false then s.send .close else s.release

/-- `acquire()` resolves. -/
def acquired (s : Cursor) (rest : List OpenStmt) : Cursor :=
  { s with isAcquired := true, hasLease := true, opening := .running }.send (.begin rest)

/-! ### Answers -/

/-- A statement was executed, or its query was rejected. -/
inductive Answer
  | ok (isShort : Bool)
  | failed
  deriving DecidableEq, Repr

/-- `open` goes on. -/
def openNext (o : CursorOptions) (s : Cursor) : List OpenStmt → Cursor
  | q :: rest => s.send (.opening q rest)
  | [] =>
    { s with
      timers := { s.timers with deadline := s.timers.deadline || o.maxDurationMs.isSome }
      opening := .resolved }

/-- The call that waits for a statement goes on. -/
def answered (o : CursorOptions) (s : Cursor) : CursorStmt → Answer → Cursor
  | .begin rest, .ok _ => { s with inTransaction := true }.openNext o rest
  | .opening _ rest, .ok _ => s.openNext o rest
  | .begin _, .failed | .opening _ _, .failed => s.cleanup .opener
  | .fetch, .ok isShort =>
    let s := { s with fetching := false }
    if isShort then s.close
    else if o.idleTimeoutMs > 0 then { s with timers := s.timers.armIdle }
    else s
  | .fetch, .failed => s.cleanup .next
  | .close, .ok _ => s.send .commit
  | .close, .failed => s.send .closeRollback
  | .commit, .ok _ => { s with inTransaction := false }.release
  | .commit, .failed => s.send .closeRollback
  | .closeRollback, _ => { s with inTransaction := false }.release
  | .rollback c, _ => { s with inTransaction := false }.releaseOrThrow c

end Cursor

/-! ### Steps -/

inductive CursorEvent
  | open'
  | next
  | close
  | acquired
  | acquireFailed
  | resumed
  | answer (a : Cursor.Answer)
  | ended (c : Cleaner)
  | lost
  | idleFires (t : TimerId)
  | deadlineFires

namespace Cursor

/-- ROLLBACK fails only when the transaction is over. -/
def canFail (s : Cursor) : CursorStmt → Bool
  | .closeRollback | .rollback _ => !s.inTransaction
  | _ => true

def canAnswer (s : Cursor) : Answer → Bool
  | .ok _ => !s.wire.isEmpty && !s.isEnded
  | .failed =>
    match s.wire with
    | q :: _ => s.canFail q
    | [] => false

def enabled (s : Cursor) : CursorEvent → Bool
  | .open' | .next | .close | .lost => true
  | .acquired | .acquireFailed => s.opening == .acquiring
  | .resumed => s.waiting > 0 && (s.opening == .resolved || s.opening == .rejected)
  | .answer a => s.canAnswer a
  | .ended c => s.ends.contains c
  | .idleFires t => s.timers.idleArmed.contains t
  | .deadlineFires => s.timers.deadline

def step (o : CursorOptions) (s : Cursor) : CursorEvent → Cursor
  | .open' => s.open'
  | .next => s.next
  | .close => s.close
  | .acquired => s.acquired o.openStmts
  | .acquireFailed => { s with opening := .rejected }
  | .resumed => s.resume
  | .answer a =>
    match s.wire with
    | q :: qs => { s with wire := qs }.answered o q a
    | [] => s
  | .ended c => { s with ends := s.ends.erase c }.releaseOrThrow c
  | .lost => { s with inTransaction := false }
  | .idleFires t =>
    { s with timers := { s.timers with idleArmed := s.timers.idleArmed.erase t } }.abort
  | .deadlineFires => { s with timers := { s.timers with deadline := false } }.abort

/-- A cursor with its callers and its connection. -/
def machine (o : CursorOptions) : Machine Cursor CursorEvent := ⟨enabled, step o⟩

def ReachableIf (o : CursorOptions) (ok : Cursor → CursorEvent → Prop) : Cursor → Prop :=
  (machine o).Reach ok (· = {})

def Reachable (o : CursorOptions) : Cursor → Prop := ReachableIf o Machine.Free

def run (o : CursorOptions) (es : List CursorEvent) : Cursor := (machine o).exec {} es

theorem reachable_run {o : CursorOptions} {ok : Cursor → CursorEvent → Prop} {es : List CursorEvent}
    (h : (machine o).Runs ok {} es) : ReachableIf o ok (run o es) := by
  have hnew : ReachableIf o ok {} := .start rfl
  exact hnew.exec h

end Cursor

end Minipg
