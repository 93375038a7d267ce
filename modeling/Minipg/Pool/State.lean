import Mathlib.Data.List.Basic
import Mathlib.Logic.Function.Basic
import Minipg.Lib.Machine

/-!
# The state of a pool

`src/pool.ts` keeps the connections it owns (`all`), those that nobody uses (`idle`), those that
a caller holds (`out`), the acquires that wait at the maximum (`waiters`), and the state of a
circuit breaker: `down` while the database is away, `broken` for good, `recovered` for the
acquires that wait until it is back, and the loops that probe it.

Acquires, probe loops and connections are named by number.  An `open()` that is under way is an
entry of `opens`, together with the code that waits for it; one that has failed, whose caller
has not heard of it yet, is an entry of `catching`.  A connection on its way back is `draining`
while a canceled query is settled and `rolling` while its transaction is rolled back.

`checkouts` is what the callers know: the acquires that were resolved with a connection and
have not released it.  The pool does not keep this list.

An event is a call of the pool's interface, a callback of the pool, or something that happens
to a connection: its holder sends a query, the session executes a statement, an answer
arrives, the connection dies.  `opened` and `openFailed` are the two ends of
`conn.connect()`; the code that waits for a failed one runs in a step of its own (`caught`),
because other code can run in between.
-/

namespace Minipg

abbrev ConnId := Nat
abbrev AcquireId := Nat
abbrev ProbeId := Nat

instance : LawfulBEq (AcquireId × ConnId) := inferInstance

/-- An error of the pool or of an `open()`: the parts of it that the pool reads. -/
structure PoolError where
  code : Option String := none
  message : String := ""
  isFatal : Bool := false
  isUntrusted : Bool := false
  deriving DecidableEq, Repr

/-- `FATAL_CODES`. -/
def fatalCodes : List String := ["28P01", "28000", "3D000", "08004"]

/-- `isDisabledEndpoint` is the test of the pattern `DISABLED_ENDPOINT`, and `ctorError` what
the constructor of a connection throws on this configuration. -/
structure PoolConfig where
  max : Nat := 10
  rcEnabled : Bool := true
  acquireTimeout : Nat := 30000
  acquireMs : Nat := 30000
  idleMs : Nat := 0
  isDisabledEndpoint : String → Bool := fun _ => false
  ctorError : Option PoolError := none

/-- `classify(err) === 'fatal'`. -/
def PoolConfig.isFatal (cfg : PoolConfig) (e : PoolError) : Bool :=
  e.code.any (fatalCodes.contains ·) || e.isFatal || e.isUntrusted ||
    cfg.isDisabledEndpoint e.message

def poolClosed : PoolError := { message := "pool is closed" }
def poolEnded : PoolError := { message := "pool ended" }

/-- `TX_GUARD_MSG`. -/
def txGuardError : PoolError where
  message := "minipg: this pool was used INSIDE its own transaction() callback. That checks out a " ++
    "second connection, so the query would run outside the transaction — blind to its uncommitted " ++
    "rows, and untouched by its rollback — and deadlocks the pool once every connection is held. " ++
    "Use the handle the callback is given: pool.transaction(async (tx) => \x7b await tx.query(...) \x7d). " ++
    "Naming that parameter `pool` shadows the outer one and makes the mistake unwriteable. If you " ++
    "really do want a separate connection here, wrap it in pool.outsideTransaction(() => ...). " ++
    "Disable this check with \x7b txGuard: false \x7d."

/-! ### Connections, as the pool meets them -/

/-- What is sent on a pooled connection: a query of its holder, or the ROLLBACK of the pool. -/
inductive Sent
  | query
  | rollback
  deriving DecidableEq, Repr

/-- A connection and the session behind it.  `session` says whether the session is in a
transaction block; `inTransaction` is what the last answer said. -/
structure Client where
  isClosed : Bool := false
  isCanceling : Bool := false
  inTransaction : Bool := false
  session : Bool := false
  unserved : List Sent := []
  unread : List (Sent × Bool) := []
  deriving DecidableEq, Repr

namespace Client

/-- Nothing is queued and nothing in flight. -/
def isQuiet (k : Client) : Bool := k.unserved.isEmpty && k.unread.isEmpty

def send (k : Client) (q : Sent) : Client := { k with unserved := k.unserved ++ [q] }

/-- The session executes the oldest statement.  After a ROLLBACK it is in no transaction. -/
def serve (k : Client) (inTx : Bool) : Client :=
  match k.unserved with
  | [] => k
  | q :: rest =>
    let inTx := inTx && q == .query
    { k with unserved := rest, session := inTx, unread := k.unread ++ [(q, inTx)] }

/-- The oldest answer arrives. -/
def answer (k : Client) : Client :=
  match k.unread with
  | [] => k
  | (_, inTx) :: rest => { k with unread := rest, inTransaction := inTx }

/-- The ROLLBACK of the pool was answered. -/
def isRolledBack (k : Client) : Bool :=
  !k.unserved.contains .rollback && k.unread.all fun r => r.1 == .query

end Client

/-! ### Acquires, opens and probes -/

/-- The code that waits for an `open()`. -/
inductive Opener
  | acquire (a : AcquireId)
  | refill (a : AcquireId)
  | probe (p : ProbeId)
  deriving DecidableEq, Repr

/-- Where an acquire is: waiting for recovery, awake after it, waiting for its own `open()`,
parked at the maximum, shifted from the waiters for a refill, or settled. -/
inductive AcquirePhase
  | new
  | recovering
  | woken
  | opening
  | parked
  | refilled
  | resolved (c : ConnId)
  | rejected (e : PoolError)
  deriving DecidableEq, Repr

/-- The timer of `waitForFree` is armed, and the promise is pending. -/
def AcquirePhase.isWaiting : AcquirePhase → Bool
  | .parked | .refilled => true
  | _ => false

/-- Where a probe loop is: in its nap, after it, waiting for its `open()`, or over. -/
inductive ProbePhase
  | napping
  | awake
  | opening
  | ended
  deriving DecidableEq, Repr

structure Pool where
  idle : List ConnId := []
  all : List ConnId := []
  out : List ConnId := []
  waiters : List AcquireId := []
  closed : Bool := false
  idleTimers : List ConnId := []
  down : Bool := false
  broken : Option PoolError := none
  recovered : List AcquireId := []
  nap : Option ProbeId := none
  lastDownError : Option PoolError := none
  lastProbeError : Option PoolError := none
  acquires : AcquireId → AcquirePhase := fun _ => .new
  nextAcquire : AcquireId := 0
  probes : ProbeId → ProbePhase := fun _ => .ended
  nextProbe : ProbeId := 0
  clients : ConnId → Client := fun _ => {}
  nextConn : ConnId := 0
  opens : List (ConnId × Opener) := []
  catching : List (Opener × PoolError) := []
  draining : List ConnId := []
  rolling : List ConnId := []
  checkouts : List (AcquireId × ConnId) := []

namespace Pool

def setPhase (s : Pool) (a : AcquireId) (ph : AcquirePhase) : Pool :=
  { s with acquires := Function.update s.acquires a ph }

def setProbe (s : Pool) (p : ProbeId) (ph : ProbePhase) : Pool :=
  { s with probes := Function.update s.probes p ph }

def modClient (s : Pool) (c : ConnId) (f : Client → Client) : Pool :=
  { s with clients := Function.update s.clients c (f (s.clients c)) }

/-- `void conn.end()`. -/
def endClient (s : Pool) (c : ConnId) : Pool := s.modClient c fun k => { k with isClosed := true }

/-- The promise of an acquire is resolved. -/
def resolve (s : Pool) (a : AcquireId) (c : ConnId) : Pool :=
  { s.setPhase a (.resolved c) with checkouts := s.checkouts ++ [(a, c)] }

/-- `w.resolve(c)`: it does nothing if the timer of the waiter was first. -/
def resolveWaiter (s : Pool) (w : AcquireId) (c : ConnId) : Pool :=
  if (s.acquires w).isWaiting then s.resolve w c else s

/-- `w.reject(e)`. -/
def rejectWaiter (e : PoolError) (s : Pool) (w : AcquireId) : Pool :=
  if (s.acquires w).isWaiting then s.setPhase w (.rejected e) else s

def armIdleTimer (cfg : PoolConfig) (s : Pool) (c : ConnId) : Pool :=
  if cfg.idleMs = 0 then s else { s with idleTimers := s.idleTimers ++ [c] }

def clearIdleTimer (s : Pool) (c : ConnId) : Pool :=
  { s with idleTimers := s.idleTimers.filter (· ≠ c) }

/-- `this.idle.push(c); this.armIdleTimer(c)`. -/
def pushIdle (cfg : PoolConfig) (s : Pool) (c : ConnId) : Pool :=
  { s with idle := s.idle ++ [c] }.armIdleTimer cfg c

/-- `open()`, up to its first await.  A constructor that throws marks its error as fatal. -/
def openFor (cfg : PoolConfig) (s : Pool) (o : Opener) : Pool :=
  match cfg.ctorError with
  | some e => { s with catching := s.catching ++ [(o, { e with isFatal := true })] }
  | none =>
    { s with
      all := s.all ++ [s.nextConn]
      opens := s.opens ++ [(s.nextConn, o)]
      nextConn := s.nextConn + 1 }

/-! ### The circuit breaker -/

/-- `cancelProbeNap`: only the nap that was taken last can be cancelled. -/
def cancelProbeNap (s : Pool) : Pool :=
  match s.nap with
  | none => s
  | some p => { s with nap := none }.setProbe p .awake

/-- `onRecover`. -/
def onRecover (s : Pool) (a : AcquireId) : Pool :=
  if s.closed then s.setPhase a (.rejected poolClosed)
  else
    match s.broken with
    | some e => s.setPhase a (.rejected e)
    | none => s.setPhase a .woken

/-- `for (const w of this.recovered.splice(0)) w()`. -/
def wakeRecovered (s : Pool) : Pool := s.recovered.foldl onRecover { s with recovered := [] }

def settleBreaker (s : Pool) : Pool := { s with down := false }.cancelProbeNap.wakeRecovered

/-- The top of the probe loop, up to its nap. -/
def probeTop (s : Pool) (p : ProbeId) : Pool :=
  if s.down && !s.closed then { s with nap := some p }.setProbe p .napping
  else s.setProbe p .ended

def startProbe (s : Pool) : Pool := { s with nextProbe := s.nextProbe + 1 }.probeTop s.nextProbe

def trip (cfg : PoolConfig) (s : Pool) (e : PoolError) : Pool :=
  if cfg.isFatal e then { s with broken := some e }.settleBreaker
  else if s.down || s.closed then s
  else { s with lastDownError := some e, lastProbeError := none, down := true }.startProbe

/-! ### Acquiring -/

/-- `waitForFree`. -/
def waitForFree (s : Pool) (a : AcquireId) : Pool :=
  { s with waiters := s.waiters ++ [a] }.setPhase a .parked

/-- The loop over `idle`: the youngest live connection, if there is one.  Dead ones go. -/
def takeIdle : Nat → Pool → Pool × Option ConnId
  | 0, s => (s, none)
  | n + 1, s =>
    match s.idle.getLast? with
    | none => (s, none)
    | some c =>
      let s := { s with idle := s.idle.dropLast }.clearIdleTimer c
      if (s.clients c).isClosed then takeIdle n { s with all := s.all.erase c }
      else ({ s with out := s.out ++ [c] }, some c)

/-- `acquire()` after the breaker. -/
def grab (cfg : PoolConfig) (s : Pool) (a : AcquireId) : Pool :=
  match takeIdle s.idle.length s with
  | (s, some c) => s.resolve a c
  | (s, none) =>
    if s.all.length < cfg.max then (s.setPhase a .opening).openFor cfg (.acquire a)
    else s.waitForFree a

/-- `acquire()`, from the top. -/
def acquire (cfg : PoolConfig) (s : Pool) (a : AcquireId) (isGuarded : Bool) : Pool :=
  if s.closed then s.setPhase a (.rejected poolClosed)
  else if isGuarded then s.setPhase a (.rejected txGuardError)
  else
    match s.broken with
    | some e => s.setPhase a (.rejected e)
    | none =>
      if s.down && cfg.rcEnabled then
        { s with recovered := s.recovered ++ [a] }.setPhase a .recovering
      else s.grab cfg a

/-- `stuckHint`. -/
def stuckHint (s : Pool) : String :=
  if s.out.isEmpty then ""
  else if s.out.all fun c => (s.clients c).inTransaction && (s.clients c).isQuiet then
    " Every one of them is sitting IDLE inside an open transaction, so none will be released:" ++
      " a common cause is using the pool inside a transaction() callback (which needs a second " ++
      "connection while the first is still held) — use the `tx` handle passed to the callback instead."
  else ""

def acquireTimeoutError (cfg : PoolConfig) (s : Pool) : PoolError where
  message := "minipg: pool acquire timed out after " ++ toString cfg.acquireMs ++ "ms — all " ++
    toString cfg.max ++ " connection(s) are checked out." ++ s.stuckHint

def recoverTimeoutError (cfg : PoolConfig) (s : Pool) : PoolError where
  message := "pool acquire timed out after " ++ toString cfg.acquireTimeout ++
    "ms waiting for the database to recover" ++
    match s.lastProbeError.or s.lastDownError with
    | some e => " (last error: " ++ e.message ++ ")"
    | none => ""

/-! ### Checkout and checkin -/

def checkin (cfg : PoolConfig) (s : Pool) (c : ConnId) : Pool :=
  if s.down then (s.pushIdle cfg c).settleBreaker
  else
    match s.waiters with
    | [] => s.pushIdle cfg c
    | w :: ws => { s with waiters := ws, out := s.out ++ [c] }.resolveWaiter w c

/-- A waiter is shifted for a refill. -/
def shift (s : Pool) (w : AcquireId) : Pool :=
  if s.acquires w = .parked then s.setPhase w .refilled else s

/-- The loop of `refill`: each round shifts a waiter. -/
def refillLoop (cfg : PoolConfig) : Nat → Pool → Pool
  | 0, s => s
  | n + 1, s =>
    match s.waiters with
    | [] => s
    | w :: ws =>
      if s.all.length < cfg.max then
        refillLoop cfg n (({ s with waiters := ws }.shift w).openFor cfg (.refill w))
      else s

def refill (cfg : PoolConfig) (s : Pool) : Pool :=
  if s.down || s.closed then s else refillLoop cfg s.waiters.length s

def reclaim (cfg : PoolConfig) (s : Pool) (c : ConnId) : Pool :=
  if (s.clients c).isClosed then { s with all := s.all.erase c }.refill cfg
  else if s.closed then { s with all := s.all.erase c }.endClient c
  else if (s.clients c).inTransaction then
    { s with rolling := s.rolling ++ [c] }.modClient c fun k => k.send .rollback
  else s.checkin cfg c

/-- `release(conn)`. -/
def release (cfg : PoolConfig) (s : Pool) (c : ConnId) : Pool :=
  if c ∈ s.out then
    let s := { s with out := s.out.erase c }
    if (s.clients c).isCanceling then { s with draining := s.draining ++ [c] }
    else s.reclaim cfg c
  else s

/-- The `release` function of a checkout. -/
def giveBack (cfg : PoolConfig) (s : Pool) (a : AcquireId) (c : ConnId) : Pool :=
  { s with checkouts := s.checkouts.filter (· ≠ (a, c)) }.release cfg c

def failWaiters (s : Pool) (e : PoolError) : Pool :=
  s.waiters.foldl (rejectWaiter e) { s with waiters := [] }

/-- The ROLLBACK failed, and the connection goes. -/
def discard (cfg : PoolConfig) (s : Pool) (c : ConnId) : Pool :=
  ({ s with all := s.all.erase c }.endClient c).refill cfg

/-! ### The ends of an `open()` -/

/-- `open()` resolves. -/
def opened (cfg : PoolConfig) (s : Pool) (c : ConnId) : Opener → Pool
  | .acquire a => { s with out := s.out ++ [c] }.resolve a c
  | .refill w => { s with out := s.out ++ [c] }.resolveWaiter w c
  | .probe p => (({ s with lastProbeError := none }.pushIdle cfg c).settleBreaker).setProbe p .ended

/-- A waiter whose refill failed is the first in line again, whether it still waits or not. -/
def unshift (s : Pool) (w : AcquireId) : Pool :=
  if s.acquires w = .refilled then { s with waiters := w :: s.waiters }.setPhase w .parked
  else { s with waiters := w :: s.waiters }

/-- The handler of an `open()` that was rejected. -/
def caught (cfg : PoolConfig) (s : Pool) (e : PoolError) : Opener → Pool
  | .acquire a =>
    if cfg.rcEnabled then
      let s := s.trip cfg e
      match s.broken with
      | some b => s.setPhase a (.rejected b)
      | none => s.acquire cfg a false
    else s.setPhase a (.rejected e)
  | .refill w =>
    if cfg.rcEnabled then
      let s := (s.unshift w).trip cfg e
      match s.broken with
      | some b => s.failWaiters b
      | none => s
    else rejectWaiter e s w
  | .probe p =>
    let s := { s with lastProbeError := some e }
    if cfg.isFatal e then { s with broken := some e }.settleBreaker.setProbe p .ended
    else s.probeTop p

/-- `end()`, up to its await. -/
def endPool (s : Pool) : Pool :=
  let s := ({ s with closed := true }.cancelProbeNap.failWaiters poolEnded).wakeRecovered
  s.all.foldl endClient { s with idleTimers := [], all := [], idle := [], out := [] }

end Pool

/-! ### Events -/

inductive PoolEvent
  | acquire (isGuarded : Bool)
  | woken (a : AcquireId)
  | recoverTimeout (a : AcquireId)
  | acquireTimeout (a : AcquireId)
  | opened (c : ConnId) (o : Opener)
  | openFailed (c : ConnId) (o : Opener) (e : PoolError)
  | caught (o : Opener) (e : PoolError)
  | napDone (p : ProbeId)
  | probe (p : ProbeId)
  | release (a : AcquireId) (c : ConnId)
  | cancelSettled (c : ConnId)
  | rolledBack (c : ConnId)
  | rollbackFailed (c : ConnId)
  | idleTimeout (c : ConnId)
  | submit (a : AcquireId) (c : ConnId)
  | serve (c : ConnId) (inTx : Bool)
  | answer (c : ConnId)
  | cancel (c : ConnId)
  | died (c : ConnId)
  | endPool
  deriving DecidableEq

namespace Pool

/-- A checkout was made: its acquire was resolved with this connection, a while ago perhaps. -/
def isCheckout (s : Pool) (a : AcquireId) (c : ConnId) : Bool := s.acquires a == .resolved c

/-- When an event can happen. -/
def enabled (cfg : PoolConfig) (s : Pool) : PoolEvent → Bool
  | .acquire _ | .endPool => true
  | .woken a => s.acquires a == .woken
  | .recoverTimeout a => s.acquires a == .recovering
  | .acquireTimeout a => decide (0 < cfg.acquireMs) && (s.acquires a).isWaiting
  | .opened c o | .openFailed c o _ => (c, o) ∈ s.opens
  | .caught o e => (o, e) ∈ s.catching
  | .napDone p => s.probes p == .napping
  | .probe p => s.probes p == .awake
  | .release a c => s.isCheckout a c
  | .cancelSettled c => (s.clients c).isCanceling
  | .rolledBack c => c ∈ s.rolling && (s.clients c).isRolledBack
  | .rollbackFailed c => c ∈ s.rolling
  | .idleTimeout c => c ∈ s.idleTimers
  | .submit a c => (a, c) ∈ s.checkouts
  | .serve c _ => !(s.clients c).isClosed && !(s.clients c).unserved.isEmpty
  | .answer c => !(s.clients c).isClosed && !(s.clients c).unread.isEmpty
  | .cancel c => c ∈ s.out
  | .died c => c < s.nextConn

def step (cfg : PoolConfig) (s : Pool) : PoolEvent → Pool
  | .acquire isGuarded =>
    { s with nextAcquire := s.nextAcquire + 1 }.acquire cfg s.nextAcquire isGuarded
  | .woken a => s.grab cfg a
  | .recoverTimeout a =>
    { s with recovered := s.recovered.erase a }.setPhase a (.rejected (recoverTimeoutError cfg s))
  | .acquireTimeout a =>
    { s with waiters := s.waiters.erase a }.setPhase a (.rejected (acquireTimeoutError cfg s))
  | .opened c o => { s with opens := s.opens.erase (c, o) }.opened cfg c o
  | .openFailed c o e =>
    { s.endClient c with
      opens := s.opens.erase (c, o), all := s.all.erase c, catching := s.catching ++ [(o, e)] }
  | .caught o e => { s with catching := s.catching.erase (o, e) }.caught cfg e o
  | .napDone p => { s with nap := none }.setProbe p .awake
  | .probe p =>
    if s.down && !s.closed then (s.setProbe p .opening).openFor cfg (.probe p)
    else s.setProbe p .ended
  | .release a c => s.giveBack cfg a c
  | .cancelSettled c =>
    let s := s.modClient c fun k => { k with isCanceling := false }
    if c ∈ s.draining then { s with draining := s.draining.erase c }.reclaim cfg c else s
  | .rolledBack c => { s with rolling := s.rolling.erase c }.checkin cfg c
  | .rollbackFailed c => { s with rolling := s.rolling.erase c }.discard cfg c
  | .idleTimeout c =>
    let s := s.clearIdleTimer c
    if c ∈ s.idle then { s with idle := s.idle.erase c, all := s.all.erase c }.endClient c else s
  | .submit _ c => s.modClient c fun k => k.send .query
  | .serve c inTx => s.modClient c fun k => k.serve inTx
  | .answer c => s.modClient c Client.answer
  | .cancel c => s.modClient c fun k => { k with isCanceling := true }
  | .died c => s.endClient c
  | .endPool => s.endPool

/-- A pool with its callers, its callbacks and its connections. -/
def machine (cfg : PoolConfig) : Machine Pool PoolEvent := ⟨enabled cfg, step cfg⟩

/-- The states after steps that satisfy `ok`. -/
def ReachableIf (cfg : PoolConfig) (ok : Pool → PoolEvent → Prop) : Pool → Prop :=
  (machine cfg).Reach ok (· = {})

def Reachable (cfg : PoolConfig) : Pool → Prop := ReachableIf cfg Machine.Free

def run (cfg : PoolConfig) (es : List PoolEvent) : Pool := (machine cfg).exec {} es

theorem reachable_run {cfg : PoolConfig} {ok : Pool → PoolEvent → Prop} {es : List PoolEvent}
    (h : (machine cfg).Runs ok {} es) : ReachableIf cfg ok (run cfg es) := by
  have hnew : ReachableIf cfg ok {} := .start rfl
  exact hnew.exec h

end Pool

end Minipg
