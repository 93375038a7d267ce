import Mathlib.Algebra.Order.Group.Int
import Minipg.Lib.Machine
import Minipg.Replication.Lsn

/-!
# Progress registers of a replication connection

What is received, delivered and flushed lives on the connection: keepalives, XLogData, status
timers and acks move the registers, and every standby status message reads them.  The events
here are in the order in which the stream's loop and the consumer's calls run; a message is
decoded when the loop gets to it, so what the server sent before it has been delivered.
-/

namespace Minipg

structure Progress where
  lastReceived : Int := 0
  flushed : Int := 0
  /-- The highest commit `endLsn` handed to the consumer, and that commit's `lsn`. -/
  lastDeliveredEnd : Int := 0
  lastDeliveredStart : Int := 0
  deriving DecidableEq, Repr

/-- The positions of a standby status message; `flushed` is also its applied position. -/
structure Status where
  received : Int
  flushed : Int
  deriving DecidableEq, Repr

/-- What a call leaves: the registers, the message it wrote, and whether it threw. -/
structure StatusOutcome where
  progress : Progress
  sent : Option Status := none
  threw : Bool := false
  deriving DecidableEq, Repr

/-- What `writeBigUInt64BE` can write. -/
def fitsUInt64 (n : Int) : Bool := 0 ≤ n ∧ n < 2 ^ 64

def sendStatus (p : Progress) : StatusOutcome :=
  if fitsUInt64 p.lastReceived ∧ fitsUInt64 p.flushed then
    { progress := p, sent := some ⟨p.lastReceived, p.flushed⟩ }
  else { progress := p, threw := true }

/-- A value inside the last delivered commit's record counts as its end. -/
def Progress.normalize (p : Progress) (v : Int) : Int :=
  if p.lastDeliveredStart ≤ v ∧ v < p.lastDeliveredEnd then p.lastDeliveredEnd else v

def ack (p : Progress) (lsn : LsnArg) : StatusOutcome :=
  match toLsn lsn with
  | none => { progress := p, threw := true }
  | some v =>
    if p.flushed < p.normalize v then sendStatus { p with flushed := p.normalize v }
    else { progress := p }

/-- A pgoutput message; what the registers do not read is left out. -/
inductive Pgoutput
  | commit (lsn endLsn : UInt64)
  | other
  deriving DecidableEq, Repr

inductive ReplicationEvent
  | commit (lsn endLsn : String)
  | other
  deriving DecidableEq, Repr

def decode : Pgoutput → ReplicationEvent
  | .commit lsn endLsn => .commit (lsnToString lsn.toNat) (lsnToString endLsn.toNat)
  | .other => .other

/-- A CopyData message; `failed` is one whose decoding throws. -/
inductive CopyData
  | keepalive (walEnd : UInt64) (replyRequested : Bool)
  | xlogData (walStart : UInt64) (message : Pgoutput)
  | failed (walStart : UInt64)
  | other
  deriving DecidableEq, Repr

def Progress.receive (p : Progress) (lsn : UInt64) : Progress :=
  if p.lastReceived < lsn.toNat then { p with lastReceived := lsn.toNat } else p

/-- Nothing unacked: the idle slot's confirmed position follows the server. -/
def Progress.follows (p : Progress) (idleAck : Bool) (walEnd : UInt64) : Bool :=
  idleAck ∧ p.lastDeliveredEnd ≤ p.flushed ∧ p.flushed < walEnd.toNat

def onKeepalive (idleAck : Bool) (p : Progress) (walEnd : UInt64) (replyRequested : Bool) :
    StatusOutcome :=
  let p := p.receive walEnd
  let p := if p.follows idleAck walEnd then { p with flushed := walEnd.toNat } else p
  if replyRequested then sendStatus p else { progress := p }

def deliver (p : Progress) : ReplicationEvent → StatusOutcome
  | .commit lsn endLsn =>
    match lsnFromString endLsn with
    | none => { progress := p, threw := true }
    | some e =>
      if p.lastDeliveredEnd < e then
        match lsnFromString lsn with
        | none => { progress := p, threw := true }
        | some start => { progress := { p with lastDeliveredStart := start, lastDeliveredEnd := e } }
      else { progress := p }
  | .other => { progress := p }

def onCopyData (idleAck : Bool) (p : Progress) : CopyData → StatusOutcome
  | .keepalive walEnd replyRequested => onKeepalive idleAck p walEnd replyRequested
  | .xlogData walStart message => deliver (p.receive walStart) (decode message)
  | .failed walStart => { progress := p.receive walStart, threw := true }
  | .other => { progress := p }

/-! ### Streams -/

/-- A connection and the stream that runs on it; `live` from the stream's start to its end. -/
structure Stream where
  idleAck : Bool := true
  live : Bool := false
  progress : Progress := {}
  deriving DecidableEq, Repr

inductive StreamEvent
  | copyData (m : CopyData)
  | statusTimer
  | ack (lsn : LsnArg)
  /-- The stream ends: a break, an error, the server's CopyDone. -/
  | ended
  deriving DecidableEq, Repr

/-- What an event writes; a message or a timer of a stream that has ended is none. -/
def Stream.outcome (s : Stream) : StreamEvent → StatusOutcome
  | .copyData m => if s.live then onCopyData s.idleAck s.progress m else { progress := s.progress }
  | .statusTimer => if s.live then sendStatus s.progress else { progress := s.progress }
  | .ack lsn => Minipg.ack s.progress lsn
  | .ended => { progress := s.progress }

/-- Whether the stream's loop goes on: a throw inside it ends the stream. -/
def Stream.goesOn (s : Stream) : StreamEvent → Bool
  | .copyData m => s.live && !(s.outcome (.copyData m)).threw
  | .ended => false
  | _ => s.live

def Stream.step (s : Stream) (e : StreamEvent) : Stream :=
  { s with live := s.goesOn e, progress := (s.outcome e).progress }

/-- The status messages of a list of events. -/
def Stream.statuses : Stream → List StreamEvent → List Status
  | _, [] => []
  | s, e :: es => (s.outcome e).sent.toList ++ (s.step e).statuses es

/-- A stream that `start()` has established on a connection with these registers. -/
def Progress.start (p : Progress) (idleAck : Bool) : Stream :=
  { idleAck := idleAck, live := true, progress := p }

/-! ### What one call does -/

@[simp] theorem sendStatus_progress (p : Progress) : (sendStatus p).progress = p := by
  unfold sendStatus
  split <;> rfl

theorem sendStatus_sent {p : Progress} {m : Status} (h : (sendStatus p).sent = some m) :
    m = ⟨p.lastReceived, p.flushed⟩ := by
  unfold sendStatus at h
  split at h
  · exact (Option.some.inj h).symm
  · cases h

@[simp] theorem receive_flushed (p : Progress) (lsn : UInt64) :
    (p.receive lsn).flushed = p.flushed := by
  unfold Progress.receive
  split <;> rfl

@[simp] theorem receive_lastDeliveredEnd (p : Progress) (lsn : UInt64) :
    (p.receive lsn).lastDeliveredEnd = p.lastDeliveredEnd := by
  unfold Progress.receive
  split <;> rfl

@[simp] theorem receive_lastDeliveredStart (p : Progress) (lsn : UInt64) :
    (p.receive lsn).lastDeliveredStart = p.lastDeliveredStart := by
  unfold Progress.receive
  split <;> rfl

theorem receive_lastReceived (p : Progress) (lsn : UInt64) :
    (p.receive lsn).lastReceived = max p.lastReceived lsn.toNat := by
  unfold Progress.receive
  split
  · dsimp only
    omega
  · omega

theorem le_normalize (p : Progress) (v : Int) : v ≤ p.normalize v := by
  unfold Progress.normalize
  split <;> omega

/-- An ack raises the flushed position to its normalized value, or leaves it. -/
theorem ack_progress {p : Progress} {lsn : LsnArg} {v : Int} (h : toLsn lsn = some v) :
    (ack p lsn).progress = { p with flushed := max p.flushed (p.normalize v) } := by
  unfold ack
  rw [h]
  dsimp only
  by_cases hlt : p.flushed < p.normalize v
  · have hmax : max p.flushed (p.normalize v) = p.normalize v := by omega
    rw [if_pos hlt, sendStatus_progress, hmax]
  · have hmax : max p.flushed (p.normalize v) = p.flushed := by omega
    rw [if_neg hlt, hmax]

theorem ack_threw {p : Progress} {lsn : LsnArg} (h : toLsn lsn = none) :
    ack p lsn = { progress := p, threw := true } := by
  unfold ack
  rw [h]

theorem ack_sent {p : Progress} {lsn : LsnArg} {m : Status} (h : (ack p lsn).sent = some m) :
    m = ⟨(ack p lsn).progress.lastReceived, (ack p lsn).progress.flushed⟩ := by
  unfold ack at h ⊢
  cases hv : toLsn lsn with
  | none => rw [hv] at h; cases h
  | some v =>
    rw [hv] at h
    dsimp only at h ⊢
    split at h
    · rw [if_pos ‹_›, sendStatus_progress]
      exact sendStatus_sent h
    · cases h

theorem onKeepalive_progress (idleAck : Bool) (p : Progress) (walEnd : UInt64) (reply : Bool) :
    (onKeepalive idleAck p walEnd reply).progress =
      if p.follows idleAck walEnd then { p.receive walEnd with flushed := walEnd.toNat }
      else p.receive walEnd := by
  have hf : (p.receive walEnd).follows idleAck walEnd = p.follows idleAck walEnd := by
    simp [Progress.follows]
  unfold onKeepalive
  dsimp only
  rw [hf]
  cases reply
  · rfl
  · exact sendStatus_progress _

/-- A commit event's texts are read back as its positions. -/
theorem deliver_commit (p : Progress) (lsn endLsn : UInt64) :
    deliver p (decode (.commit lsn endLsn)) =
      { progress := if p.lastDeliveredEnd < endLsn.toNat then
          { p with lastDeliveredStart := lsn.toNat, lastDeliveredEnd := endLsn.toNat } else p } := by
  unfold deliver decode
  dsimp only
  rw [lsnFromString_lsnToString endLsn.toNat_lt, lsnFromString_lsnToString lsn.toNat_lt]
  dsimp only
  split <;> rfl

theorem deliver_sent (p : Progress) (e : ReplicationEvent) : (deliver p e).sent = none := by
  unfold deliver
  split
  · split
    · rfl
    · split
      · split <;> rfl
      · rfl
  · rfl

theorem deliver_other (p : Progress) : deliver p (decode .other) = { progress := p } := rfl

/-! ### What one event does -/

/-- A message carries the registers that the event leaves. -/
theorem Stream.sent_eq {s : Stream} {e : StreamEvent} {m : Status}
    (h : (s.outcome e).sent = some m) :
    m = ⟨(s.outcome e).progress.lastReceived, (s.outcome e).progress.flushed⟩ := by
  cases e with
  | copyData d =>
    cases hl : s.live with
    | false => simp [Stream.outcome, hl] at h
    | true =>
      simp only [Stream.outcome, hl, if_true] at h ⊢
      cases d with
      | keepalive walEnd reply =>
        cases reply with
        | false => cases h
        | true =>
          show m = ⟨(sendStatus _).progress.lastReceived, (sendStatus _).progress.flushed⟩
          rw [sendStatus_progress]
          exact sendStatus_sent h
      | xlogData walStart message =>
        have hnone := deliver_sent (s.progress.receive walStart) (decode message)
        exact absurd (hnone.symm.trans h) (by simp)
      | failed => cases h
      | other => cases h
  | statusTimer =>
    cases hl : s.live with
    | false => simp [Stream.outcome, hl] at h
    | true =>
      simp only [Stream.outcome, hl, if_true] at h ⊢
      rw [sendStatus_progress]
      exact sendStatus_sent h
  | ack lsn => exact ack_sent h
  | ended => cases h

/-- No register that is compared falls. -/
structure Progress.Le (p q : Progress) : Prop where
  received : p.lastReceived ≤ q.lastReceived
  flushed : p.flushed ≤ q.flushed
  delivered : p.lastDeliveredEnd ≤ q.lastDeliveredEnd

theorem Progress.Le.refl (p : Progress) : p.Le p := ⟨le_refl _, le_refl _, le_refl _⟩

theorem Progress.Le.trans {p q r : Progress} (h : p.Le q) (g : q.Le r) : p.Le r :=
  ⟨h.received.trans g.received, h.flushed.trans g.flushed, h.delivered.trans g.delivered⟩

theorem le_receive (p : Progress) (lsn : UInt64) : p.Le (p.receive lsn) where
  received := by
    rw [receive_lastReceived]
    exact le_max_left _ _
  flushed := by rw [receive_flushed]
  delivered := by rw [receive_lastDeliveredEnd]

theorem le_deliver (p : Progress) (e : ReplicationEvent) : p.Le (deliver p e).progress := by
  unfold deliver
  split
  · split
    · exact .refl p
    · split
      · split
        · exact .refl p
        · exact ⟨le_refl _, le_refl _, le_of_lt ‹_›⟩
      · exact .refl p
  · exact .refl p

theorem le_onKeepalive (idleAck : Bool) (p : Progress) (walEnd : UInt64) (reply : Bool) :
    (p.receive walEnd).Le (onKeepalive idleAck p walEnd reply).progress := by
  rw [onKeepalive_progress]
  split
  · rename_i hf
    simp only [Progress.follows, decide_eq_true_eq] at hf
    refine ⟨le_refl _, ?_, le_refl _⟩
    rw [receive_flushed]
    exact le_of_lt hf.2.2
  · exact .refl _

theorem le_ack (p : Progress) (lsn : LsnArg) : p.Le (ack p lsn).progress := by
  cases hv : toLsn lsn with
  | none =>
    rw [ack_threw hv]
    exact .refl p
  | some v =>
    rw [ack_progress hv]
    exact ⟨le_refl _, le_max_left _ _, le_refl _⟩

theorem le_onCopyData (idleAck : Bool) (p : Progress) (m : CopyData) :
    p.Le (onCopyData idleAck p m).progress := by
  cases m with
  | keepalive walEnd reply => exact (le_receive p walEnd).trans (le_onKeepalive idleAck p walEnd reply)
  | xlogData walStart message => exact (le_receive p walStart).trans (le_deliver _ _)
  | failed walStart => exact le_receive p walStart
  | other => exact .refl p

theorem Stream.le_outcome (s : Stream) (e : StreamEvent) :
    s.progress.Le (s.outcome e).progress := by
  cases e with
  | copyData m =>
    unfold Stream.outcome
    dsimp only
    split
    · exact le_onCopyData s.idleAck s.progress m
    · exact .refl _
  | statusTimer =>
    unfold Stream.outcome
    dsimp only
    split
    · rw [sendStatus_progress]
      exact .refl _
    · exact .refl _
  | ack lsn => exact le_ack s.progress lsn
  | ended => exact .refl _

end Minipg
