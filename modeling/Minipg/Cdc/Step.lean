import Minipg.Cdc.State
import Minipg.Lib.Machine

/-!
# A CDC handle as a state machine

An event ends one wait of `run` or `doStop`, calls `stop()`, or happens to the slot on the server.
An answer carries what the server or the consumer chose.  A command whose answer is lost was
executed (`createLost`, `dropLost`); one that failed was not.
-/

namespace Minipg

inductive CdcEvent
  | start
  | stop
  | abort
  | stopContinues
  | connected
  | probed (walSenderTimeoutMs : Option Nat)
  | identified (system : String × Nat)
  | health (row : Option SlotHealthRow)
  | terminated
  | polled (isActive : Option Bool) (isPastDeadline : Bool)
  | failed (e : CdcError)
  | slept
  | called
  | threw (e : CdcError)
  | settled (r : Settled)
  | goesOn
  | deadline
  | retryDelay (d : Except CdcError (Option Nat))
  | dropped
  | dropLost (e : CdcError) (isPastDeadline : Bool)
  | dropFailed (e : CdcError) (isPastDeadline : Bool)
  | created
  | createLost (e : CdcError)
  | startIssued
  | startAccepted
  | batch (b : Batch)
  | streamEnded
  | slotDropped
  | slotMade

namespace Cdc

/-- The slot whose window is open: its backfill is called, or its retry is under way. -/
def windowOf : Await → Option CreationId
  | .calling (.backfill n) | .pending (.backfill n) _ | .backfillDelay n _ | .backfillSleep n =>
    some n
  | _ => none

/-- The batch whose handler is called, or whose retry is under way. -/
def batchOf : Await → Option Batch
  | .calling (.onTransaction b) | .pending (.onTransaction b) _ | .handlerDelay b _
  | .handlerSleep b => some b
  | _ => none

/-- When an event can happen. -/
def enabled (o : ReplicateOptions) (s : Cdc) : CdcEvent → Bool
  | .start => s.runAt == .microtask
  | .stop => true
  | .abort => s.isListening
  | .stopContinues =>
    match s.stopAt with
    | .waiting i _ => (s.results i).isSome
    | _ => false
  | .connected => s.runAt == .connecting || s.runAt == .reconnecting
  | .probed _ => s.runAt == .probing
  | .identified _ => s.runAt == .identifying
  | .health row =>
    match s.runAt with
    | .readingHealth _ => row.isSome == s.slot.isSome
    | _ => false
  | .terminated =>
    match s.runAt with
    | .terminating _ _ => true
    | _ => false
  | .polled isActive _ =>
    match s.runAt with
    | .polling _ _ => isActive.isSome == s.slot.isSome
    | _ => false
  | .failed _ =>
    match s.runAt with
    | .connecting | .probing | .reconnecting | .identifying | .readingHealth _ | .terminating _ _
    | .polling _ _ | .creating | .starting | .streaming => true
    | _ => false
  | .slept =>
    match s.runAt with
    | .pollSleep _ _ | .recreateSleep | .dropSleep | .backfillSleep _ | .handlerSleep _
    | .sessionSleep => true
    | _ => false
  | .called | .threw _ =>
    match s.runAt with
    | .calling _ => true
    | _ => false
  | .settled _ =>
    match s.runAt with
    | .pending _ i => (s.results i).isNone
    | _ => false
  | .goesOn =>
    match s.runAt with
    | .pending _ i => (s.results i).isSome
    | _ => false
  | .deadline =>
    (windowOf s.runAt).isSome && o.backfillTimeoutMs.isSome && !s.windowTimedOut && !s.isAborted
  | .retryDelay _ =>
    match s.runAt with
    | .recreateDelay _ | .backfillDelay _ _ | .handlerDelay _ _ | .sessionDelay _ => true
    | _ => false
  | .dropped | .dropLost _ _ => s.runAt == .dropping && s.slot.isSome
  | .dropFailed _ _ => s.runAt == .dropping
  | .created | .createLost _ => s.runAt == .creating && (o.durableName.isNone || s.slot.isNone)
  | .startIssued => s.runAt == .starting && !s.isAborted
  | .startAccepted | .batch _ => s.runAt == .streaming
  | .streamEnded => (s.runAt == .starting || s.runAt == .streaming) && s.stopping
  | .slotDropped => s.slot.isSome
  | .slotMade => s.slot.isNone

/-- A command was rejected, or the stream. -/
def failed (o : ReplicateOptions) (s : Cdc) (e : CdcError) : Cdc :=
  match s.runAt with
  | .identifying | .terminating _ _ | .polling _ _ => s.durableFailed o e
  | .readingHealth _ => s.durableFailed o (healthError e)
  | _ => s.catchSession o e

/-- A sleep is over. -/
def slept (o : ReplicateOptions) (s : Cdc) : Cdc :=
  match s.runAt with
  | .pollSleep evictions pid => { s with runAt := .polling evictions pid }
  | .recreateSleep => s.unlessStopping o { s with runAt := .dropping }
  | .dropSleep => { s with runAt := .dropping }
  | .backfillSleep n => s.unlessStopping o { s with runAt := .calling (.backfill n) }
  | .handlerSleep b => s.unlessStopping o { s with runAt := .calling (.onTransaction b) }
  | .sessionSleep => if s.stopping then { s with runAt := .done } else s.connect
  | _ => s

/-- `retryDelayMs` returns or throws. -/
def retryDelay (o : ReplicateOptions) (s : Cdc) (d : Except CdcError (Option Nat)) : Cdc :=
  match s.runAt, d with
  | .recreateDelay _, .error x => s.catchSession o x
  | .recreateDelay e, .ok d => s.delayed o d e .recreateSleep
  | .backfillDelay _ _, .error x => s.catchSession o x
  | .backfillDelay n e, .ok d => s.delayed o d e (.backfillSleep n)
  | .handlerDelay _ _, .error x => s.catchSession o x
  | .handlerDelay b e, .ok d => s.delayed o d e (.handlerSleep b)
  | .sessionDelay _, .error x => s.giveUp o x
  | .sessionDelay e, .ok d => s.delayed o d e .sessionSleep
  | _, _ => s

/-- The wait of `run` for a callback is over. -/
def goesOn (o : ReplicateOptions) (s : Cdc) : Cdc :=
  match s.runAt with
  | .pending k i =>
    match s.results i with
    | some (.resolved isRecreate) => s.callbackDone o isRecreate k
    | some (.rejected e) => s.callbackFailed o e k
    | none => s
  | _ => s

/-- The settings of the connection are known. -/
def probed (o : ReplicateOptions) (s : Cdc) (walSenderTimeoutMs : Option Nat) : Cdc :=
  s.unlessStopping o <|
    if walSenderTimeoutMs = some 0 ∧ o.setsKeepAlive = false ∧ s.derivedKeepAlive = false then
      { s with runAt := .reconnecting }
    else
      { s with derivedKeepAlive := walSenderTimeoutMs == some 0 && !o.setsKeepAlive }.beginSession o

/-- A connection was made. -/
def connected (o : ReplicateOptions) (s : Cdc) : Cdc :=
  let s := s.openRepl
  s.unlessStopping o <|
    if s.runAt = .reconnecting then { s with derivedKeepAlive := true }.beginSession o
    else { s with runAt := .probing }

def step (o : ReplicateOptions) (s : Cdc) : CdcEvent → Cdc
  | .start => if s.stopping then { s with runAt := .done } else s.connect
  | .stop | .abort => s.callStop
  | .stopContinues =>
    match s.stopAt with
    | .waiting i isHandling => s.stopContinues isHandling ((s.results i).any Settled.isResolved)
    | _ => s
  | .connected => s.connected o
  | .probed ms => s.probed o ms
  | .identified system => s.identified o (o.durableName.getD "") system
  | .health row =>
    match s.runAt with
    | .readingHealth evictions => s.readHealth o (o.durableName.getD "") evictions row
    | _ => s
  | .terminated =>
    match s.runAt with
    | .terminating evictions pid => { s with runAt := .polling evictions pid }
    | _ => s
  | .polled isActive isPastDeadline =>
    match s.runAt with
    | .polling evictions pid =>
      s.polled o (o.durableName.getD "") evictions pid isActive isPastDeadline
    | _ => s
  | .failed e => s.failed o e
  | .slept => s.slept o
  | .called =>
    match s.runAt with
    | .calling k =>
      { s with current := some s.nextCall, nextCall := s.nextCall + 1, runAt := .pending k s.nextCall }
    | _ => s
  | .threw e =>
    match s.runAt with
    | .calling k => s.callbackFailed o e k
    | _ => s
  | .settled r =>
    match s.runAt with
    | .pending k i => s.settleCall k i r
    | _ => s
  | .goesOn => s.goesOn o
  | .deadline => { s with windowTimedOut := true }
  | .retryDelay d => s.retryDelay o d
  | .dropped => { s with slot := none }.dropped o
  | .dropLost e isPastDeadline => { s with slot := none }.dropFailed o e isPastDeadline
  | .dropFailed e isPastDeadline => s.dropFailed o e isPastDeadline
  | .created => s.created o
  | .createLost e => (s.createSlot o).catchSession o e
  | .startIssued =>
    { s with starts := if o.durableName.isSome then s.starts ++ s.slot.toList else s.starts
             runAt := .streaming }
  | .startAccepted => s.settleReady none
  | .batch b => s.receiveBatch o b
  | .streamEnded => { s with runAt := .done }
  | .slotDropped => { s with slot := none }
  | .slotMade => { s with slot := some .foreign }

/-- A handle with its consumer, its connections and its slot. -/
def machine (o : ReplicateOptions) : Machine Cdc CdcEvent := ⟨enabled o, step o⟩

/-- The states after steps that satisfy `ok`. -/
def ReachableIf (o : ReplicateOptions) (ok : Cdc → CdcEvent → Prop) : Cdc → Prop :=
  (machine o).Reach ok (· = {})

def Reachable (o : ReplicateOptions) : Cdc → Prop := ReachableIf o Machine.Free

def run (o : ReplicateOptions) (es : List CdcEvent) : Cdc := (machine o).exec {} es

theorem reachable_run {o : ReplicateOptions} {ok : Cdc → CdcEvent → Prop} {es : List CdcEvent}
    (h : (machine o).Runs ok {} es) : ReachableIf o ok (run o es) := by
  have hnew : ReachableIf o ok {} := .start rfl
  exact hnew.exec h

end Cdc

end Minipg
