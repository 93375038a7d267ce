import Minipg.Transactions.Lane

/-!
# A call of begin()

The top-level branch of `runTx` of `src/connection.ts`, on a connection that everybody else goes on
using: while the call is under way, any statement can be queued, by its callback, which may await
what it sends or not, or by somebody else.  A nested call is such statements too.  `resume` is the
continuation after the statement that the call awaits; it runs some time after the promise is
settled.

However the call ends, its transaction is over (`begin_over`).
-/

namespace Minipg.Transactions

open Blocks Lane

/-- How far the call is: `b` is the number of its BEGIN, `e` that of the statement that followed the
callback, COMMIT or ROLLBACK, and `r` that of ROLLBACK. -/
inductive Phase
  | before
  | opening (b : Nat)
  | running (b : Nat)
  | committing (b e : Nat)
  | rollingBack (b e r : Nat)
  | resolved (b e : Nat)
  | rejected (b e : Nat)
  deriving DecidableEq, Repr

/-- The statement the call awaits.  It has neither a signal nor a timeout. -/
def Phase.awaited : Phase → Option Nat
  | .opening i | .committing _ i | .rollingBack _ _ i => some i
  | _ => none

/-- `isLost` is a history: the answer to a COMMIT that succeeded was lost with its socket. -/
structure Tx where
  lane : Lane := {}
  phase : Phase := .before
  isLost : Bool := false

inductive TxEvent
  | lane (e : LaneEvent)
  | call
  | resume
  | returns
  | throws
  deriving DecidableEq, Repr

namespace Tx

variable (s : Tx)

/-- Whether the promise the call awaits is settled, and how. -/
def answer : Option Bool := s.phase.awaited.bind s.lane.told

/-- `this.query(…)`, and the phase that awaits it. -/
def await (c : Command) (phase : Nat → Phase) : Tx :=
  { s with lane := s.lane.query c, phase := phase s.lane.next }

/-- What `runTx` does after an `await`. -/
def goOn : Tx :=
  match s.phase, s.answer with
  | .opening b, some isOk => { s with phase := if isOk then .running b else .rejected b b }
  | .committing b e, some isOk =>
    if isOk then { s with phase := .resolved b e } else s.await .rollback (.rollingBack b e)
  | .rollingBack b e _, some _ => { s with phase := .rejected b e }
  | _, _ => s

/-- The callback has returned or thrown. -/
def finish (hasReturned : Bool) : Tx :=
  match s.phase with
  | .running b =>
    if hasReturned then s.await .commit (.committing b)
    else s.await .rollback fun r => .rollingBack b r r
  | _ => s

def isRunning : Bool :=
  match s.phase with
  | .running _ => true
  | _ => false

/-- Whether the socket dies when the COMMIT has succeeded and its answer was not read yet. -/
def losesCommit : LaneEvent → Bool
  | .down _ =>
    match s.phase with
    | .committing _ e => s.lane.answered.any fun x => x.1.id = e && x.2.isOk
    | _ => false
  | _ => false

def enabled : TxEvent → Bool
  | .lane (.cancel i) => s.lane.enabled (.cancel i) && decide (s.phase.awaited ≠ some i)
  | .lane e => s.lane.enabled e
  | .call => decide (s.phase = .before) && !s.lane.inTransaction
  | .resume => s.answer.isSome
  | .returns | .throws => s.isRunning

def step : TxEvent → Tx
  | .lane e => { s with lane := s.lane.step e, isLost := s.isLost || s.losesCommit e }
  | .call => s.await .begin .opening
  | .resume => s.goOn
  | .returns => s.finish true
  | .throws => s.finish false

def machine : Machine Tx TxEvent := ⟨enabled, step⟩

/-- A call on a new connection, whatever else happens on it. -/
def Reachable : Tx → Prop := machine.Reach Machine.Free (· = {})

/-! ### Once the call is settled, its transaction is over -/

end Tx

variable {s : Lane} {b i : Nat}

/-- The command of a statement that waits. -/
def Holds (s : Lane) (i : Nat) (c : Command) : Prop := ∀ t ∈ s.pending, t.id = i → t.command = c

theorem Holds.step {c : Command} (h : Holds s i c) (hi : i < s.next) (e : LaneEvent) :
    Holds (s.step e) i c := by
  intro t ht hti
  rcases pending_step ht with ht | ⟨c', -, rfl⟩
  · exact h t ht hti
  · exact absurd hti (Nat.ne_of_gt hi)

theorem holds_next (h : s.Sound) (c : Command) : Holds (s.query c) s.next c := by
  intro t ht hti
  rcases pending_step (e := .query c) ht with ht | ⟨c', he, rfl⟩
  · exact absurd hti (Nat.ne_of_lt (h.pending_lt ht))
  · exact (LaneEvent.query.inj he).symm

/-- BEGIN `b` is under way, or was answered: if it failed, it has opened no block. -/
def Opening (s : Lane) (b : Nat) : Prop :=
  Holds s b .begin ∧ ∃ st, s.At b st ∧
    (st ≠ .answered true → st ≠ .settled true → s.opener ≠ some b)

/-- The end of the transaction that `b` opened is under way as `i`; once that was executed or
dropped, the block is not open. -/
def Ending (s : Lane) (b i : Nat) (c : Command) : Prop :=
  b < s.next ∧ b ∉ s.pending.map (·.id) ∧ Holds s i c ∧
    ∃ st, s.At i st ∧ (st ≠ .waiting → s.opener ≠ some b)

/-- `b` will not have opened a block any more. -/
def Over (s : Lane) (b : Nat) : Prop :=
  b < s.next ∧ b ∉ s.pending.map (·.id) ∧ s.opener ≠ some b

theorem Over.step (h : Over s b) {e : LaneEvent} (he : s.enabled e = true) : Over (s.step e) b :=
  ⟨Nat.lt_of_lt_of_le h.1 (next_le_step s e), notMem_pending_step h.1 h.2.1,
    opener_ne_step he (not_served h.2.1) h.2.2⟩

theorem Opening.step (h : Opening s b) (hs : s.Sound) {e : LaneEvent} (he : s.enabled e = true)
    (hc : e ≠ .cancel b) : Opening (s.step e) b := by
  obtain ⟨hcmd, st, hat, ho⟩ := h
  obtain ⟨st', hat', hmove⟩ := hat.step hs he hc (fun t ht hi => by rw [hcmd t ht hi]; exact nofun)
  refine ⟨hcmd.step (hat.lt hs) e, st', hat', fun hna hns => ?_⟩
  cases hmove with
  | stay hserve _ _ => exact opener_ne_step he hserve (ho hna hns)
  | @serve breaks t ts hsent ht =>
    have hbegin : t.command = .begin :=
      hcmd t (List.mem_append_left _ (hsent ▸ List.mem_cons_self)) ht
    rw [hbegin, ← ht] at hna
    show (s.serve breaks).opener ≠ some b
    rw [serve_opener hsent, hbegin, Backend.exec_begin_fails (by simpa using hna)]
    exact ho nofun nofun
  | @read isOk =>
    show s.ready.opener ≠ some b
    rw [ready_opener]
    exact ho (fun h => hns (by rw [Standing.answered.inj h])) nofun
  | lost _ _ hlost =>
    rw [hlost]
    exact nofun

theorem Ending.step {c : Command} (h : Ending s b i c) (hends : c = .commit ∨ c = .rollback)
    (hs : s.Sound) {e : LaneEvent} (he : s.enabled e = true) (hc : e ≠ .cancel i) :
    Ending (s.step e) b i c := by
  obtain ⟨hb, hp, hcmd, st, hat, ho⟩ := h
  obtain ⟨st', hat', hmove⟩ := hat.step hs he hc (fun t ht hi => by
    rw [hcmd t ht hi]
    rcases hends with rfl | rfl <;> exact nofun)
  refine ⟨Nat.lt_of_lt_of_le hb (next_le_step s e), notMem_pending_step hb hp,
    hcmd.step (hat.lt hs) e, st', hat', fun hw => ?_⟩
  cases hmove with
  | stay _ _ _ => exact opener_ne_step he (not_served hp) (ho hw)
  | @serve breaks t ts hsent ht =>
    have hct : t.command = c := hcmd t (List.mem_append_left _ (hsent ▸ List.mem_cons_self)) ht
    show (s.serve breaks).opener ≠ some b
    rw [serve_opener hsent, Backend.exec_ends (hct ▸ hends)]
    exact nofun
  | read =>
    show s.ready.opener ≠ some b
    rw [ready_opener]
    exact ho nofun
  | lost _ _ hlost =>
    rw [hlost]
    exact nofun

/-- What is known of the transaction in each phase. -/
def Stage (s : Lane) : Phase → Prop
  | .before => True
  | .opening b => Opening s b
  | .running b => b < s.next ∧ b ∉ s.pending.map (·.id)
  | .committing b i => Ending s b i .commit
  | .rollingBack b _ i => Ending s b i .rollback
  | .resolved b _ | .rejected b _ => Over s b

/-- A statement that was answered or dropped. -/
theorem At.settled_of_told {st : Standing} (h : s.At i st) {isOk : Bool} (ht : s.told i = some isOk) :
    st = .settled isOk ∧ i ∉ s.pending.map (·.id) := by
  cases h with
  | waiting _ hn | answered _ _ hn => exact nomatch hn.symm.trans ht
  | settled hs hp => exact ⟨by rw [Option.some.inj (hs.symm.trans ht)], hp⟩

theorem ending_next (hs : s.Sound) (hb : b < s.next) (hp : b ∉ s.pending.map (·.id))
    (c : Command) : Ending (s.query c) b s.next c := by
  refine ⟨Nat.lt_of_lt_of_le hb (next_le_step s (.query c)),
    notMem_pending_step (e := .query c) hb hp, holds_next hs c, ?_⟩
  obtain hw | ⟨hr, ho⟩ := hs.at_next c
  · exact ⟨_, hw, fun h => absurd rfl h⟩
  · refine ⟨_, hr, fun _ => ?_⟩
    have hsame := opener_step (s := s) (e := .query c) (fun _ => nofun) (fun _ => nofun)
    rw [show (s.query c).opener = s.opener from hsame, ho]
    exact nofun

namespace Tx

structure Inv (s : Tx) : Prop where
  sound : s.lane.Sound
  opened : ∀ b, s.lane.opener = some b → b < s.lane.next
  stage : Stage s.lane s.phase

theorem Inv.init : Inv {} := ⟨Sound.init, (fun _ hb => nomatch hb), trivial⟩

theorem Inv.lane {s : Tx} (h : s.Inv) {e : LaneEvent} (he : s.lane.enabled e = true)
    (hc : ∀ i, s.phase.awaited = some i → e ≠ .cancel i) :
    (s.step (.lane e)).Inv := by
  refine ⟨h.sound.step he, opener_lt_step h.sound h.opened he, ?_⟩
  have hstage := h.stage
  show Stage (s.lane.step e) s.phase
  cases hph : s.phase with
  | before => exact trivial
  | opening b =>
    rw [hph] at hstage hc
    exact Opening.step hstage h.sound he (hc b rfl)
  | running b =>
    rw [hph] at hstage
    exact ⟨Nat.lt_of_lt_of_le hstage.1 (next_le_step _ e), notMem_pending_step hstage.1 hstage.2⟩
  | committing b i =>
    rw [hph] at hstage hc
    exact Ending.step hstage (.inl rfl) h.sound he (hc i rfl)
  | rollingBack b _ i =>
    rw [hph] at hstage hc
    exact Ending.step hstage (.inr rfl) h.sound he (hc i rfl)
  | resolved b _ | rejected b _ =>
    rw [hph] at hstage
    exact Over.step hstage he

/-- A new statement, and the phase that awaits it. -/
theorem Inv.await {s : Tx} (h : s.Inv) (c : Command) {phase : Nat → Phase}
    (hstage : Stage (s.lane.query c) (phase s.lane.next)) : (s.await c phase).Inv :=
  ⟨h.sound.query c, opener_lt_step h.sound h.opened (e := .query c) rfl, hstage⟩

theorem told_of_answer {s : Tx} {i : Nat} {isOk : Bool} (hi : s.phase.awaited = some i)
    (ha : s.answer = some isOk) : s.lane.told i = some isOk := by
  rw [answer, hi] at ha
  exact ha

theorem Inv.goOn {s : Tx} (h : s.Inv) : s.goOn.Inv := by
  have hstage := h.stage
  unfold Tx.goOn
  split
  · rename_i b isOk hph ha
    rw [hph] at hstage
    obtain ⟨-, st, hat, ho⟩ := hstage
    obtain ⟨rfl, hp⟩ := At.settled_of_told hat (told_of_answer (by rw [hph]; rfl) ha)
    have hb := hat.lt h.sound
    cases isOk with
    | true => exact ⟨h.sound, h.opened, hb, hp⟩
    | false => exact ⟨h.sound, h.opened, hb, hp, ho nofun nofun⟩
  · rename_i b k isOk hph ha
    rw [hph] at hstage
    obtain ⟨hb, hp, -, st, hat, ho⟩ := hstage
    obtain ⟨rfl, -⟩ := At.settled_of_told hat (told_of_answer (by rw [hph]; rfl) ha)
    cases isOk with
    | true => exact ⟨h.sound, h.opened, hb, hp, ho nofun⟩
    | false => exact h.await .rollback (ending_next h.sound hb hp .rollback)
  · rename_i b e r isOk hph ha
    rw [hph] at hstage
    obtain ⟨hb, hp, -, st, hat, ho⟩ := hstage
    obtain ⟨rfl, -⟩ := At.settled_of_told hat (told_of_answer (by rw [hph]; rfl) ha)
    exact ⟨h.sound, h.opened, hb, hp, ho nofun⟩
  · exact h

theorem Inv.finish {s : Tx} (h : s.Inv) (r : Bool) : (s.finish r).Inv := by
  have hstage := h.stage
  unfold Tx.finish
  split
  · rename_i b hph
    rw [hph] at hstage
    cases r with
    | true => exact h.await .commit (ending_next h.sound hstage.1 hstage.2 .commit)
    | false => exact h.await .rollback (ending_next h.sound hstage.1 hstage.2 .rollback)
  · exact h

theorem Inv.call {s : Tx} (h : s.Inv) : (s.await .begin .opening).Inv := by
  have hne : (s.lane.query .begin).opener ≠ some s.lane.next := by
    have hsame := opener_step (s := s.lane) (e := .query .begin) (fun _ => nofun)
      (fun _ => nofun)
    rw [show (s.lane.query .begin).opener = s.lane.opener from hsame]
    exact fun hb => Nat.lt_irrefl _ (h.opened _ hb)
  refine h.await .begin ⟨holds_next h.sound _, ?_⟩
  obtain hw | ⟨hr, -⟩ := h.sound.at_next .begin
  · exact ⟨_, hw, fun _ _ => hne⟩
  · exact ⟨_, hr, fun _ _ => hne⟩

/-- The step of the connection, and what the call adds to its guard. -/
theorem enabled_lane {s : Tx} {e : LaneEvent} (he : s.enabled (.lane e) = true) :
    s.lane.enabled e = true ∧ ∀ i, s.phase.awaited = some i → e ≠ .cancel i := by
  cases e with
  | cancel i =>
    obtain ⟨he, hi⟩ := Bool.and_eq_true_iff.mp he
    refine ⟨he, fun j hj heq => of_decide_eq_true hi ?_⟩
    rw [hj, LaneEvent.cancel.inj heq]
  | query _ | start | refuse | serve _ | ready | down _ | establish | giveUp =>
    exact ⟨he, fun _ _ => nofun⟩

theorem Reachable.inv {s : Tx} (h : Reachable s) : s.Inv := by
  refine h.invariant (fun s hs => hs ▸ Inv.init) (fun s e hs he _ => ?_)
  cases e with
  | lane e =>
    obtain ⟨hlane, hc⟩ := enabled_lane he
    exact hs.lane hlane hc
  | call => exact hs.call
  | resume => exact hs.goOn
  | returns => exact hs.finish true
  | throws => exact hs.finish false

/-- A call whose callback sends two statements at once and awaits both. -/
def twoStatements : List TxEvent :=
  [.call, .lane .start, .lane (.serve false), .lane .ready, .resume,
    .lane (.query .work), .lane (.query .work), .lane .start, .lane .start,
    .lane (.serve false), .lane (.serve false), .lane .ready, .lane .ready, .returns,
    .lane .start, .lane (.serve false), .lane .ready, .resume]

end Tx

end Minipg.Transactions
