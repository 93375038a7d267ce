import Mathlib.Algebra.Ring.Int.Defs
import Minipg.Js
import Minipg.Lib.Machine
import Minipg.Wire.Parser

/-!
# The queue of a replication connection

What the socket brings is queued (`onData` of `src/replication.ts`) until `next()` takes it out, and
`qBytes` counts it.  Above `maxQueue` the socket is paused, and below one half of it resumed.  The
socket pauses and resumes as it is told to; the version that `next()` finds in a ParameterStatus is
not kept here.

Calls of `next()` may overlap: `wake` holds the last one that waits, and a call that it held before
is never woken.
-/

namespace Minipg.Backlog

open Js (Double)
open Js.Double (unit)

/-- `maxQueue`, a multiple of `1 / unit`. -/
inductive Ceiling
  | infinite
  | finite (n : Nat)
  deriving DecidableEq, Repr

namespace Ceiling

def default : Ceiling := .finite (64 * 1024 * 1024 * unit)

/-- `maxQueue` for the option `maxQueueBytes`, at the start of a stream. -/
def ofOption : Option Double → Ceiling
  | none => default
  | some mqb =>
    if mqb.exponent ≠ 2047 ∧ 0 < mqb.scaled then .finite mqb.scaled.toNat
    else if mqb.exponent = 2047 ∧ mqb.fraction = 0 ∧ mqb.negative = false then .infinite
    else default

/-- `qBytes > this.maxQueue` -/
def exceededBy (bytes : Int) : Ceiling → Bool
  | .infinite => false
  | .finite n => n < bytes * unit

/-- One half of a number, to the nearest multiple of `1 / unit` that has an even factor.  Only
numbers below `2 ^ -1021` have an odd factor. -/
def half (n : Nat) : Nat := (n + n / 2 % 2) / 2

/-- `qBytes < this.maxQueue / 2` -/
def drainedAt (bytes : Int) : Ceiling → Bool
  | .infinite => true
  | .finite n => bytes * unit < half n

end Ceiling

/-- The smallest positive number. -/
def minValue : Double := 1#64

/-- What calls `next()`: `run` puts a CopyBothResponse back. -/
inductive Caller
  | run
  | other
  deriving DecidableEq, Repr

/-- How far a call of `next()` is. -/
inductive Call
  | parked
  | woken
  | settled (m : Option RawMessage)
  | thrown (e : JsError)
  /-- The caller has gone on with what it got. -/
  | seen
  deriving DecidableEq, Repr

structure State where
  parser : Parser := {}
  q : List RawMessage := []
  qBytes : Int := 0
  qPaused : Bool := false
  maxQueue : Ceiling := .infinite
  err : Option JsError := none
  ended : Bool := false
  streaming : Bool := false
  wake : Option Nat := none
  calls : List (Caller × Call) := []
  isSocketPaused : Bool := false
  deriving DecidableEq, Repr

/-- What a message counts: its body, its type and its length. -/
def size (m : RawMessage) : Int := m.body.length + 5

def sizes (q : List RawMessage) : Int := (q.map size).sum

/-- ParameterStatus, BackendKeyData, notices and notifications. -/
def isSkipped (m : RawMessage) : Bool :=
  m.type = 'S' || m.type = 'K' || m.type = 'N' || m.type = 'A'

namespace State

def setCall (s : State) (i : Nat) (c : Call) : State :=
  match s.calls[i]? with
  | some (caller, _) => { s with calls := s.calls.set i (caller, c) }
  | none => s

/-- `const w = this.wake; this.wake = null; w?.()` -/
def wakeUp (s : State) : State :=
  match s.wake with
  | some i => { s with wake := none }.setCall i .woken
  | none => s

def fail (s : State) (e : JsError) : State := { s with err := s.err.or (some e) }.wakeUp

def forceResume (s : State) : State :=
  if s.qPaused then { s with qPaused := false, isSocketPaused := false } else s

def pauseAbove (s : State) : State :=
  if s.maxQueue.exceededBy s.qBytes && !s.qPaused then
    { s with qPaused := true, isSocketPaused := true }
  else s

/-- The messages of a chunk. -/
def enqueue (s : State) (msgs : List RawMessage) : State :=
  if msgs ≠ [] then
    { s with q := s.q ++ msgs, qBytes := msgs.foldl (fun n m => n + size m) s.qBytes }.pauseAbove
  else s

def onData (s : State) (chunk : Bytes) : State :=
  let (parser, pushed) := s.parser.push chunk
  let s := { s with parser := parser }
  match pushed with
  | .error e => s.fail e
  | .ok msgs => (s.enqueue msgs).wakeUp

/-- `this.q.shift()`, and what goes with it; `q` are the messages after `m`. -/
def shift (s : State) (m : RawMessage) (q : List RawMessage) : State :=
  let s := { s with q := q, qBytes := s.qBytes - size m }
  if s.qPaused && s.maxQueue.drainedAt s.qBytes then s.forceResume else s

/-- What the loop of `next()` does when there is no message. -/
def onEmpty (s : State) (i : Nat) : State :=
  match s.err with
  | some e => s.setCall i (.thrown e)
  | none =>
    if s.ended then s.setCall i (.settled none)
    else { s with wake := some i }.setCall i .parked

/-- The loop of `next()`, from a queue with the messages `q`. -/
def loop (i : Nat) : List RawMessage → State → State
  | [], s => s.onEmpty i
  | m :: q, s =>
    if isSkipped m then loop i q (s.shift m q) else (s.shift m q).setCall i (.settled (some m))

/-- A call of `next()`. -/
def next (s : State) (caller : Caller) : State :=
  { s with calls := s.calls ++ [(caller, Call.woken)] }.loop s.calls.length s.q

def unshift (s : State) (m : RawMessage) : State :=
  { s with q := m :: s.q, qBytes := s.qBytes + size m }

/-- The caller goes on. -/
def proceed (s : State) (i : Nat) : State :=
  match s.calls[i]? with
  | some (.run, .settled (some m)) =>
    if m.type = 'W' then (s.setCall i .seen).unshift m else s.setCall i .seen
  | some _ => s.setCall i .seen
  | none => s

/-- The `finally` of `start()`. -/
def finish (s : State) : State :=
  let s := { s with streaming := false }.forceResume
  { s with maxQueue := .infinite, qBytes := s.q.foldl (fun n m => n + size m) 0 }

/-- `end()` -/
def close (s : State) : State := ({ s with ended := true }.forceResume).wakeUp

end State

/-- What can happen; `i` are the numbers of calls of `next()`. -/
inductive Event
  | data (chunk : Bytes)
  | fail (e : JsError)
  | next (caller : Caller)
  | resume (i : Nat)
  | proceed (i : Nat)
  | start
  /-- A stream has come to the line that sets `maxQueue`. -/
  | limit (maxQueueBytes : Option Double)
  | finish
  | close
  deriving DecidableEq, Repr

def State.step (s : State) : Event → State
  | .data chunk => s.onData chunk
  | .fail e => s.fail e
  | .next caller => s.next caller
  | .resume i => s.loop i s.q
  | .proceed i => s.proceed i
  | .start => { s with streaming := true }
  | .limit mqb => { s with maxQueue := .ofOption mqb }
  | .finish => s.finish
  | .close => s.close

def State.enabled (s : State) : Event → Bool
  | .resume i => (s.calls[i]?.map Prod.snd) = some .woken
  | .proceed i => match s.calls[i]? with
    | some (_, .settled _) => true
    | some (_, .thrown _) => true
    | _ => false
  | .start => !s.streaming
  | .limit _ => s.streaming
  | .finish => s.streaming
  | _ => true

def machine : Machine State Event where
  enabled := State.enabled
  step := State.step

def Initial (s : State) : Prop := s = {}

/-- The count is right, and no call waits for a socket that is paused. -/
structure Accounted (s : State) : Prop where
  counted : s.qBytes = sizes s.q
  flowing : ∀ c ∈ s.calls, c.2 = .parked → s.q = [] → s.isSocketPaused = false

/-- One half of the limit is not 0. -/
def Event.IsDrainable : Event → Prop
  | .limit mqb => mqb ≠ some minValue
  | _ => True

/-! ### The limit -/

namespace Ceiling

/-- An empty queue is below one half of the limit. -/
def IsDrainable (c : Ceiling) : Prop := c.drainedAt 0 = true

theorem half_pos {n : Nat} : 0 < half n ↔ 1 < n := by
  unfold half
  omega

theorem isDrainable_finite {n : Nat} : IsDrainable (.finite n) ↔ 1 < n := by
  rw [← half_pos]
  simp [IsDrainable, drainedAt]

theorem isDrainable_default : IsDrainable default := by
  have hunit := Js.Double.unit_pos
  apply isDrainable_finite.mpr
  generalize unit = u at hunit ⊢
  omega

/-- The only number whose half is 0 is the smallest. -/
theorem eq_minValue {x : Double} (h : x.scaled = 1) : x = minValue := by
  have hneg : x.negative = false := by
    by_contra hneg
    rw [Js.Double.scaled, if_pos ((Bool.not_eq_false _).mp hneg)] at h
    omega
  have hmul : x.significand * 2 ^ x.scale = 1 := by
    rw [Js.Double.scaled, hneg] at h
    exact Int.ofNat.inj h
  have hsig : x.significand = 1 := Nat.eq_one_of_mul_eq_one_right hmul
  have hexp : x.exponent = 0 := by
    by_contra hexp
    rw [Js.Double.significand, if_neg hexp] at hsig
    omega
  rw [Js.Double.significand, if_pos hexp] at hsig
  apply BitVec.eq_of_toNat_eq
  have hlt := x.isLt
  simp only [Js.Double.negative, decide_eq_false_iff_not] at hneg
  simp only [Js.Double.exponent] at hexp
  simp only [Js.Double.fraction] at hsig
  show x.toNat = 1
  omega

/-- Every option but the smallest number gives a limit that a queue can be drained to. -/
theorem isDrainable_ofOption {mqb : Option Double} :
    IsDrainable (ofOption mqb) ↔ mqb ≠ some minValue := by
  cases mqb with
  | none => simp [ofOption, isDrainable_default]
  | some x =>
    simp only [ofOption]
    split_ifs with hpos hinf
    · rw [isDrainable_finite, ne_eq, Option.some.injEq]
      constructor
      · rintro hlt rfl
        exact absurd hlt (by decide +kernel)
      · intro hne
        have hnot : x.scaled ≠ 1 := fun h => hne (eq_minValue h)
        omega
    · refine iff_of_true rfl ?_
      rintro ⟨⟩
      exact absurd hinf.1 (by decide)
    · refine iff_of_true isDrainable_default ?_
      rintro ⟨⟩
      exact hpos (by decide +kernel)

end Ceiling

/-! ### The invariant -/

/-- The count is right, the socket is paused exactly when `qPaused` says so, a paused queue is not
empty, and it can be drained below one half of the limit. -/
structure Inv (s : State) : Prop where
  counted : s.qBytes = sizes s.q
  paused : s.isSocketPaused = s.qPaused
  filled : s.qPaused = true → s.q ≠ []
  drainable : s.maxQueue.IsDrainable

@[simp] theorem sizes_nil : sizes [] = 0 := rfl

@[simp] theorem sizes_cons (m : RawMessage) (q : List RawMessage) :
    sizes (m :: q) = size m + sizes q := by
  simp [sizes]

@[simp] theorem sizes_append (q q' : List RawMessage) : sizes (q ++ q') = sizes q + sizes q' := by
  simp [sizes]

theorem foldl_sizes (q : List RawMessage) (n : Int) :
    q.foldl (fun n m => n + size m) n = n + sizes q := by
  induction q generalizing n with
  | nil => simp
  | cons m q ih =>
    rw [List.foldl_cons, ih, sizes_cons]
    omega

namespace Inv

variable {s s' : State}

/-- Only these five matter. -/
theorem of_eq (h : Inv s) (hq : s'.q = s.q) (hbytes : s'.qBytes = s.qBytes)
    (hpaused : s'.qPaused = s.qPaused) (hmax : s'.maxQueue = s.maxQueue)
    (hsocket : s'.isSocketPaused = s.isSocketPaused) : Inv s' := by
  obtain ⟨hcounted, hsame, hfilled, hdrainable⟩ := h
  constructor
  · rw [hbytes, hq, hcounted]
  · rw [hsocket, hpaused, hsame]
  · rw [hpaused, hq]
    exact hfilled
  · rw [hmax]
    exact hdrainable

theorem setCall (h : Inv s) (i : Nat) (c : Call) : Inv (s.setCall i c) := by
  rw [State.setCall]
  cases s.calls[i]? with
  | none => exact h
  | some call => exact h.of_eq rfl rfl rfl rfl rfl

theorem wakeUp (h : Inv s) : Inv s.wakeUp := by
  rw [State.wakeUp]
  cases s.wake with
  | none => exact h
  | some i => exact (h.of_eq rfl rfl rfl rfl rfl : Inv { s with wake := none }).setCall i .woken

theorem fail (h : Inv s) (e : JsError) : Inv (s.fail e) :=
  (h.of_eq rfl rfl rfl rfl rfl : Inv { s with err := s.err.or (some e) }).wakeUp

theorem forceResume (h : Inv s) : Inv s.forceResume := by
  rw [State.forceResume]
  split
  · exact ⟨h.counted, rfl, fun hp => (nomatch hp), h.drainable⟩
  · exact h

theorem enqueue (h : Inv s) (msgs : List RawMessage) : Inv (s.enqueue msgs) := by
  rw [State.enqueue]
  split
  next hmsgs =>
    have hne : s.q ++ msgs ≠ [] := by simp [hmsgs]
    have hcounted : msgs.foldl (fun n m => n + size m) s.qBytes = sizes (s.q ++ msgs) := by
      rw [foldl_sizes, sizes_append, h.counted]
    rw [State.pauseAbove]
    split
    · exact ⟨hcounted, rfl, fun _ => hne, h.drainable⟩
    · exact ⟨hcounted, h.paused, fun _ => hne, h.drainable⟩
  next => exact h

theorem onData (h : Inv s) (chunk : Bytes) : Inv (s.onData chunk) := by
  have hparser : ∀ parser, Inv { s with parser := parser } :=
    fun parser => h.of_eq rfl rfl rfl rfl rfl
  rw [State.onData]
  rcases s.parser.push chunk with ⟨parser, e | msgs⟩
  · exact (hparser parser).fail e
  · exact ((hparser parser).enqueue msgs).wakeUp

/-- The queue that a message is taken from is resumed when it was the last. -/
theorem shift {m : RawMessage} {q : List RawMessage} (h : Inv s) (hq : s.q = m :: q) :
    Inv (s.shift m q) := by
  have hcounted : s.qBytes - size m = sizes q := by
    rw [h.counted, hq, sizes_cons]
    omega
  rw [State.shift]
  split
  next hresume =>
    rw [Bool.and_eq_true] at hresume
    rw [State.forceResume, if_pos hresume.1]
    exact ⟨hcounted, rfl, fun hp => (nomatch hp), h.drainable⟩
  next hkeep =>
    refine ⟨hcounted, h.paused, fun hp hnil => hkeep ?_, h.drainable⟩
    obtain rfl : q = [] := hnil
    have hzero : s.qBytes - size m = 0 := hcounted
    have hpaused : s.qPaused = true := hp
    simp only [hzero, hpaused, Bool.true_and]
    exact h.drainable

theorem onEmpty (h : Inv s) (i : Nat) : Inv (s.onEmpty i) := by
  rw [State.onEmpty]
  split
  · exact h.setCall i _
  · split
    · exact h.setCall i _
    · exact (h.of_eq rfl rfl rfl rfl rfl : Inv { s with wake := some i }).setCall i _

theorem loop {i : Nat} {q : List RawMessage} (h : Inv s) (hq : s.q = q) : Inv (s.loop i q) := by
  induction q generalizing s with
  | nil => exact h.onEmpty i
  | cons m q ih =>
    rw [State.loop]
    split
    · apply ih (h.shift hq)
      rw [State.shift, State.forceResume]
      split_ifs <;> rfl
    · exact (h.shift hq).setCall i _

theorem next (h : Inv s) (caller : Caller) : Inv (s.next caller) :=
  (h.of_eq rfl rfl rfl rfl rfl :
    Inv { s with calls := s.calls ++ [(caller, Call.woken)] }).loop rfl

theorem unshift (h : Inv s) (m : RawMessage) : Inv (s.unshift m) := by
  refine ⟨?_, h.paused, fun _ hnil => (nomatch hnil), h.drainable⟩
  show s.qBytes + size m = sizes (m :: s.q)
  rw [sizes_cons, h.counted]
  omega

theorem proceed (h : Inv s) (i : Nat) : Inv (s.proceed i) := by
  rw [State.proceed]
  split
  · split
    · exact (h.setCall i _).unshift _
    · exact h.setCall i _
  · exact h.setCall i _
  · exact h

theorem finish (h : Inv s) : Inv s.finish := by
  have hresumed : Inv { s with streaming := false }.forceResume :=
    (h.of_eq rfl rfl rfl rfl rfl : Inv { s with streaming := false }).forceResume
  refine ⟨?_, hresumed.paused, hresumed.filled, rfl⟩
  show List.foldl (fun n m => n + size m) 0 _ = sizes _
  rw [foldl_sizes, Int.zero_add]
  rfl

theorem close (h : Inv s) : Inv s.close :=
  (h.of_eq rfl rfl rfl rfl rfl : Inv { s with ended := true }).forceResume.wakeUp

/-- Every step keeps the invariant, if a limit that it sets is not the smallest number. -/
theorem step {e : Event} (h : Inv s) (he : e.IsDrainable) : Inv (s.step e) := by
  cases e with
  | data chunk => exact h.onData chunk
  | fail e => exact h.fail e
  | next caller => exact h.next caller
  | resume i => exact h.loop rfl
  | proceed i => exact h.proceed i
  | start => exact h.of_eq rfl rfl rfl rfl rfl
  | limit mqb => exact ⟨h.counted, h.paused, h.filled, Ceiling.isDrainable_ofOption.mpr he⟩
  | finish => exact h.finish
  | close => exact h.close

theorem isAccounted (h : Inv s) : Accounted s := by
  refine ⟨h.counted, fun c _ _ hempty => ?_⟩
  rw [h.paused]
  by_contra hp
  exact h.filled ((Bool.not_eq_false _).mp hp) hempty

end Inv

/-- **The bytes of the queue are counted exactly and no call of `next()` waits for a paused
socket**, in every state that the connection reaches without a limit of `Number.MIN_VALUE`. -/
theorem queue_accounted {s : State} (h : machine.Reach (fun _ e => e.IsDrainable) Initial s) :
    Accounted s := by
  have hinv : Inv s := by
    refine h.invariant ?_ ?_
    · rintro s rfl
      exact ⟨rfl, rfl, fun hp => (nomatch hp), rfl⟩
    · intro s e hs _ he
      exact hs.step he
  exact hinv.isAccounted

/-! ### A stream and a limit -/

/-- A ReadyForQuery. -/
def readyForQuery : Bytes := [0x5a, 0, 0, 0, 5, 0x49]

/-- A stream starts; a message arrives, it is taken and the next one is waited for. -/
def takesOne (mqb : Option Double) : List Event :=
  [.start, .limit mqb, .data readyForQuery, .next .other, .proceed 0, .next .other]

/-- `maxQueueBytes: 5`, which the message exceeds. -/
theorem queue_accounted_five : Accounted (machine.exec {} (takesOne (some 0x4014000000000000))) := by
  refine queue_accounted (Machine.Reach.exec (.start (show Initial {} from rfl)) ?_)
  refine ⟨rfl, trivial, rfl, ?_, rfl, trivial, rfl, trivial, ?_, trivial, rfl, trivial, trivial⟩
  · simp [Event.IsDrainable, minValue]
  · decide +kernel

/-- With `maxQueueBytes: Number.MIN_VALUE` the socket stays paused. -/
theorem minValue_parked : ¬ ∀ s, machine.Reach Machine.Free Initial s → Accounted s := by
  intro h
  have hreach : machine.Reach Machine.Free Initial (machine.exec {} (takesOne (some minValue))) := by
    refine Machine.Reach.exec (.start (show Initial {} from rfl)) ?_
    decide +kernel
  have hflow := (h _ hreach).flowing (.other, .parked) (by decide +kernel) rfl (by decide +kernel)
  exact absurd hflow (by decide +kernel)

end Minipg.Backlog
