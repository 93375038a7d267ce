import Minipg.Lib.Blocks
import Minipg.Lib.Machine

/-!
# A connection and the session behind it

What a transaction meets on its way: `src/connection.ts` queues statements, puts some of them in
flight, and settles the promise of each by the answer that comes back, in order.  A statement of
the user can be refused by its encoder, or be canceled wherever it is; what is in flight then
still runs.  When the socket dies, what is in flight is rejected, the session aborts its open
block, and the queue waits for a new session or is rejected.  `txStatus` is what the last
ReadyForQuery said; nobody resets it when the socket dies.

A statement is in flight until its answer is read: `sent` are those that the server has not read,
`answered` those whose answers are on their way back.  What the server still executes after a
socket has died counts as executed before.  `log` is a history: every statement that was executed,
with the opener of the block it was executed in.
-/

namespace Minipg.Transactions

open Blocks

/-- `ConnState`, after the first connect. -/
inductive Link
  | ready
  | reconnecting
  | closed
  deriving DecidableEq, Repr

structure Task where
  id : Nat
  command : Command
  deriving DecidableEq, Repr

/-- What ends with ReadyForQuery: the outcome, and the transaction status. -/
structure Answer where
  isOk : Bool
  status : TxStatus
  deriving DecidableEq, Repr

structure Lane where
  link : Link := .ready
  txStatus : TxStatus := .idle
  queue : List Task := []
  sent : List Task := []
  answered : List (Task × Answer) := []
  told : Nat → Option Bool := fun _ => none
  session : Backend Nat := {}
  next : Nat := 0
  log : List (Nat × Option Nat) := []

inductive LaneEvent
  | query (c : Command)
  | start
  | refuse
  | serve (breaks : Bool)
  | ready
  | cancel (i : Nat)
  | down (reconnects : Bool)
  | establish
  | giveUp
  deriving DecidableEq, Repr

namespace Lane

variable (s : Lane)

def inTransaction : Bool := s.txStatus = .active || s.txStatus = .failed

/-- The promises of these statements are settled, unless they already are. -/
def settle (is : List Nat) (isOk : Bool) : Lane := { s with
  told := fun i => if (s.told i).isNone && is.contains i then some isOk else s.told i }

/-- The opener of the block that the session is in. -/
def opener : Option Nat := s.session.opener

/-- `query`. -/
def query (c : Command) : Lane :=
  let s' := { s with next := s.next + 1 }
  if s.link = .closed then s'.settle [s.next] false
  else { s' with queue := s.queue ++ [⟨s.next, c⟩] }

/-- `startTask`. -/
def startTask : Lane :=
  match s.queue with
  | [] => s
  | t :: ts => { s with queue := ts, sent := s.sent ++ [t] }

/-- `startTask`, when the statement cannot be serialized. -/
def refuseTask : Lane :=
  match s.queue with
  | [] => s
  | t :: ts => { s with queue := ts }.settle [t.id] false

/-- The server executes the next statement. -/
def serve (breaks : Bool) : Lane :=
  match s.sent with
  | [] => s
  | t :: ts =>
    let (isOk, session) := s.session.exec t.id t.command breaks
    { s with
      sent := ts
      session
      answered := s.answered ++ [(t, ⟨isOk, session.status⟩)]
      log := s.log ++ [(t.id, s.opener)] }

/-- `ready` and `finishTask`. -/
def ready : Lane :=
  match s.answered with
  | [] => s
  | (t, a) :: as => { s with answered := as, txStatus := a.status }.settle [t.id] a.isOk

/-- `cancelTask`. -/
def cancelTask (i : Nat) : Lane :=
  if (s.told i).isSome then s
  else { s with queue := s.queue.filter fun t => t.id ≠ i }.settle [i] false

/-- The statements in flight, in order. -/
def inflight : List Nat := s.answered.map (·.1.id) ++ s.sent.map (·.id)

/-- `rejectQueue`, on the way to `closed`. -/
def rejectQueue : Lane :=
  let s' := { s with link := .closed, queue := [] }
  s'.settle (s.queue.map (·.id)) false

/-- `onSocketDown`. -/
def onSocketDown (reconnects : Bool) : Lane :=
  let s' := { s with
    answered := []
    sent := []
    session := s.session.lose
    link := .reconnecting }.settle s.inflight false
  if reconnects then s' else s'.rejectQueue

def enabled : LaneEvent → Bool
  | .query _ => true
  | .start => s.link = .ready && !s.queue.isEmpty
  | .refuse => s.link = .ready && s.queue.head?.any (·.command = .work)
  | .serve _ => !s.sent.isEmpty
  | .ready => !s.answered.isEmpty
  | .cancel i => decide (i < s.next)
  | .down _ => s.link = .ready
  | .establish | .giveUp => s.link = .reconnecting

def step : LaneEvent → Lane
  | .query c => s.query c
  | .start => s.startTask
  | .refuse => s.refuseTask
  | .serve breaks => s.serve breaks
  | .ready => s.ready
  | .cancel i => s.cancelTask i
  | .down reconnects => s.onSocketDown reconnects
  | .establish => { s with link := .ready, txStatus := .idle }
  | .giveUp => s.rejectQueue

/-- The statements that the server has not executed, in the order in which it will. -/
def pending : List Task := s.sent ++ s.queue

/-- Statements are executed in the order in which they were submitted. -/
structure Sound : Prop where
  order : (s.log.map (·.1) ++ s.pending.map (·.id)).Pairwise (· < ·)
  fresh : ∀ i ∈ s.log.map (·.1) ++ s.pending.map (·.id), i < s.next
  answers : (s.answered.map (·.1.id)).Pairwise (· < ·)
  logged : ∀ i ∈ s.answered.map (·.1.id), i ∈ s.log.map (·.1)
  told : ∀ i, (s.told i).isSome → i < s.next
  down : s.link ≠ .ready → s.sent = [] ∧ s.answered = [] ∧ s.opener = none
  closed : s.link = .closed → s.queue = []

/-! ### Settling -/

section Settle

variable (is : List Nat) (isOk : Bool)

@[simp] theorem settle_link : (s.settle is isOk).link = s.link := rfl
@[simp] theorem settle_txStatus : (s.settle is isOk).txStatus = s.txStatus := rfl
@[simp] theorem settle_queue : (s.settle is isOk).queue = s.queue := rfl
@[simp] theorem settle_sent : (s.settle is isOk).sent = s.sent := rfl
@[simp] theorem settle_answered : (s.settle is isOk).answered = s.answered := rfl
@[simp] theorem settle_session : (s.settle is isOk).session = s.session := rfl
@[simp] theorem settle_next : (s.settle is isOk).next = s.next := rfl
@[simp] theorem settle_log : (s.settle is isOk).log = s.log := rfl

theorem settle_told (i : Nat) : (s.settle is isOk).told i =
    if (s.told i).isNone && is.contains i then some isOk else s.told i := rfl

variable {s is isOk}

theorem settle_told_of_some {i : Nat} (h : (s.told i).isSome) :
    (s.settle is isOk).told i = s.told i := by
  rw [settle_told, Option.isNone_eq_false_iff.mpr h]
  rfl

theorem settle_told_of_notMem {i : Nat} (h : i ∉ is) : (s.settle is isOk).told i = s.told i := by
  rw [settle_told, List.contains_eq_mem, decide_eq_false h, Bool.and_false]
  rfl

theorem settle_told_of_mem {i : Nat} (hn : s.told i = none) (h : i ∈ is) :
    (s.settle is isOk).told i = some isOk := by
  rw [settle_told, hn, List.contains_eq_mem, decide_eq_true h]
  rfl

theorem settle_told_isSome {i : Nat} (h : ((s.settle is isOk).told i).isSome) :
    (s.told i).isSome ∨ i ∈ is := by
  rw [settle_told] at h
  split at h
  · rename_i hc
    exact .inr (by simpa using (Bool.and_eq_true_iff.mp hc).2)
  · exact .inl h

end Settle

/-! ### Statements stay in order -/

variable {s}

theorem Sound.settle (h : s.Sound) {is : List Nat} (hi : ∀ i ∈ is, i < s.next) (isOk : Bool) :
    (s.settle is isOk).Sound where
  order := h.order
  fresh := h.fresh
  answers := h.answers
  logged := h.logged
  told i hs := by
    obtain ht | hm := settle_told_isSome hs
    · exact h.told i ht
    · exact hi i hm
  down := h.down
  closed := h.closed

theorem Sound.pending_lt (h : s.Sound) {t : Task} (ht : t ∈ s.pending) : t.id < s.next :=
  h.fresh _ (List.mem_append_right _ (List.mem_map_of_mem ht))

theorem Sound.inflight_lt (h : s.Sound) : ∀ i ∈ s.inflight, i < s.next := by
  intro i hi
  rcases List.mem_append.mp hi with ha | hs
  · exact h.fresh i (List.mem_append_left _ (h.logged i ha))
  · obtain ⟨t, ht, rfl⟩ := List.mem_map.mp hs
    exact h.pending_lt (List.mem_append_left _ ht)

/-- Fewer statements wait than before. -/
theorem Sound.drop (h : s.Sound) {sent queue : List Task} (hp : (sent ++ queue).Sublist s.pending)
    (hd : s.link ≠ .ready → sent = []) (hc : s.link = .closed → queue = []) :
    ({ s with sent, queue } : Lane).Sound where
  order := h.order.sublist ((List.Sublist.refl _).append (hp.map _))
  fresh i hi := h.fresh i (((List.Sublist.refl _).append (hp.map _)).subset hi)
  answers := h.answers
  logged := h.logged
  told := h.told
  down hl := ⟨hd hl, (h.down hl).2⟩
  closed := hc

theorem Sound.query (h : s.Sound) (c : Command) : (s.query c).Sound := by
  unfold Lane.query
  have hnext : ({ s with next := s.next + 1 } : Lane).Sound := ⟨h.order,
    fun i hi => Nat.lt_succ_of_lt (h.fresh i hi), h.answers, h.logged,
    fun i hi => Nat.lt_succ_of_lt (h.told i hi), h.down, h.closed⟩
  split
  · refine hnext.settle (fun i hi => ?_) false
    rw [List.mem_singleton.mp hi]
    exact Nat.lt_succ_self _
  · rename_i hl
    have hids : ({ s with next := s.next + 1, queue := s.queue ++ [⟨s.next, c⟩] } : Lane).pending.map
        (·.id) = s.pending.map (·.id) ++ [s.next] := by
      simp [pending]
    refine ⟨?_, ?_, h.answers, h.logged, hnext.told, h.down, fun hc => absurd hc hl⟩
    · rw [hids, ← List.append_assoc, List.pairwise_append]
      refine ⟨h.order, List.pairwise_singleton .., fun i hi j hj => ?_⟩
      rw [List.mem_singleton.mp hj]
      exact h.fresh i hi
    · intro i hi
      rw [hids, ← List.append_assoc] at hi
      rcases List.mem_append.mp hi with hi | hi
      · exact Nat.lt_succ_of_lt (h.fresh i hi)
      · rw [List.mem_singleton.mp hi]
        exact Nat.lt_succ_self _

theorem Sound.startTask (h : s.Sound) (hl : s.link = .ready) : s.startTask.Sound := by
  unfold Lane.startTask
  split
  · exact h
  · rename_i t ts hq
    refine h.drop ?_ (fun hn => absurd hl hn) (fun hn => nomatch hl.symm.trans hn)
    rw [List.append_assoc, List.singleton_append, ← hq]
    exact List.Sublist.refl _

theorem Sound.refuseTask (h : s.Sound) (hl : s.link = .ready) : s.refuseTask.Sound := by
  unfold Lane.refuseTask
  split
  · exact h
  · rename_i t ts hq
    have ht : t ∈ s.pending := List.mem_append_right _ (hq ▸ List.mem_cons_self)
    refine Sound.settle (s := { s with queue := ts }) ?_ (fun i hi => ?_) false
    · refine h.drop ?_ (fun hn => absurd hl hn) (fun hn => nomatch hl.symm.trans hn)
      rw [pending, hq]
      exact (List.Sublist.refl _).append (List.sublist_cons_self ..)
    · rw [List.mem_singleton.mp hi]
      exact h.pending_lt ht

theorem Sound.serve (h : s.Sound) (breaks : Bool) : (s.serve breaks).Sound := by
  unfold Lane.serve
  split
  · exact h
  · rename_i t ts hs
    have hids : s.log.map (·.1) ++ s.pending.map (·.id)
        = (s.log ++ [(t.id, s.opener)]).map (·.1) ++ (ts ++ s.queue).map (·.id) := by
      simp [pending, hs]
    have ho := h.order
    rw [hids] at ho
    have hlt : ∀ i ∈ s.answered.map (·.1.id), i < t.id := by
      intro i hi
      have hp := List.pairwise_append.mp h.order
      exact hp.2.2 i (h.logged i hi) t.id (List.mem_map_of_mem (List.mem_append_left _
        (hs ▸ List.mem_cons_self)))
    refine ⟨ho, fun i hi => h.fresh i (hids ▸ hi), ?_, fun i hi => ?_, h.told, fun hn => ?_,
      h.closed⟩
    · rw [List.map_append, List.pairwise_append]
      refine ⟨h.answers, List.pairwise_singleton .., fun i hi j hj => ?_⟩
      rw [List.mem_singleton.mp hj]
      exact hlt i hi
    · rw [List.map_append]
      rw [List.map_append] at hi
      rcases List.mem_append.mp hi with hi | hi
      · exact List.mem_append_left _ (h.logged i hi)
      · exact List.mem_append_right _ hi
    · exact nomatch (h.down hn).1.symm.trans hs

theorem Sound.ready (h : s.Sound) : s.ready.Sound := by
  unfold Lane.ready
  split
  · exact h
  · rename_i t a as ha
    have hmem : t.id ∈ s.answered.map (·.1.id) := by
      rw [ha]
      exact List.mem_cons_self
    refine Sound.settle (s := { s with answered := as, txStatus := a.status }) ?_ (fun i hi => ?_) _
    · refine ⟨h.order, h.fresh, ?_, fun i hi => h.logged i ?_, h.told, fun hn => ?_, h.closed⟩
      · have hp := h.answers
        rw [ha] at hp
        exact (List.pairwise_cons.mp hp).2
      · rw [ha]
        exact List.mem_cons_of_mem _ hi
      · exact nomatch (h.down hn).2.1.symm.trans ha
    · rw [List.mem_singleton.mp hi]
      exact h.fresh _ (List.mem_append_left _ (h.logged _ hmem))

theorem Sound.cancelTask (h : s.Sound) {i : Nat} (hi : i < s.next) : (s.cancelTask i).Sound := by
  unfold Lane.cancelTask
  split
  · exact h
  · refine Sound.settle (s := { s with queue := s.queue.filter fun t => t.id ≠ i }) ?_
      (fun j hj => List.mem_singleton.mp hj ▸ hi) false
    refine h.drop ((List.Sublist.refl _).append List.filter_sublist) (fun hn => (h.down hn).1)
      (fun hc => ?_)
    rw [h.closed hc]
    rfl

theorem Sound.rejectQueue (h : s.Sound) (hs : s.sent = []) (ha : s.answered = [])
    (hb : s.opener = none) : s.rejectQueue.Sound := by
  unfold Lane.rejectQueue
  refine Sound.settle (s := { s with link := .closed, queue := [] }) ?_ (fun i hi => ?_) false
  · refine ⟨h.order.sublist ?_, fun i hi => h.fresh i ?_, h.answers, h.logged, h.told,
      fun _ => ⟨hs, ha, hb⟩, fun _ => rfl⟩
    · exact (List.Sublist.refl _).append (((List.Sublist.refl _).append (List.nil_sublist _)).map _)
    · exact ((List.Sublist.refl _).append
        (((List.Sublist.refl _).append (List.nil_sublist _)).map _)).subset hi
  · obtain ⟨t, ht, rfl⟩ := List.mem_map.mp hi
    exact h.pending_lt (List.mem_append_right _ ht)

theorem Sound.onSocketDown (h : s.Sound) (reconnects : Bool) :
    (s.onSocketDown reconnects).Sound := by
  have hdown : ({ s with
      answered := []
      sent := []
      session := s.session.lose
      link := .reconnecting } : Lane).Sound := by
    refine ⟨h.order.sublist ?_, fun i hi => h.fresh i ?_, List.Pairwise.nil,
      (fun _ hi => nomatch hi), h.told, fun _ => ⟨rfl, rfl, Backend.lose_opener⟩, fun hc => nomatch hc⟩
    · exact (List.Sublist.refl _).append (((List.nil_sublist _).append (List.Sublist.refl _)).map _)
    · exact ((List.Sublist.refl _).append
        (((List.nil_sublist _).append (List.Sublist.refl _)).map _)).subset hi
  have hrejected := Sound.settle hdown h.inflight_lt false
  unfold Lane.onSocketDown
  cases reconnects with
  | true => exact hrejected
  | false => exact hrejected.rejectQueue rfl rfl (Backend.lose_opener)

/-- **Statements stay in order.** -/
theorem Sound.step (h : s.Sound) {e : LaneEvent} (he : s.enabled e = true) : (s.step e).Sound := by
  cases e with
  | query c => exact h.query c
  | start => exact h.startTask (of_decide_eq_true (Bool.and_eq_true_iff.mp he).1)
  | refuse => exact h.refuseTask (of_decide_eq_true (Bool.and_eq_true_iff.mp he).1)
  | serve breaks => exact h.serve breaks
  | ready => exact h.ready
  | cancel i => exact h.cancelTask (of_decide_eq_true he)
  | down reconnects => exact h.onSocketDown reconnects
  | establish =>
    exact ⟨h.order, h.fresh, h.answers, h.logged, h.told, fun hn => absurd rfl hn,
      fun hc => nomatch hc⟩
  | giveUp =>
    have hl : s.link ≠ .ready := by
      rw [show s.link = .reconnecting from of_decide_eq_true he]
      exact nofun
    obtain ⟨hs, ha, hb⟩ := h.down hl
    exact h.rejectQueue hs ha hb

theorem Sound.init : ({} : Lane).Sound where
  order := List.Pairwise.nil
  fresh _ hi := nomatch hi
  answers := List.Pairwise.nil
  logged _ hi := nomatch hi
  told _ hi := nomatch hi
  down hn := absurd rfl hn
  closed hc := nomatch hc

/-! ### Where a statement is -/

/-- A statement waits for the server, its answer is on its way, or its promise is settled. -/
inductive Standing
  | waiting
  | answered (isOk : Bool)
  | settled (isOk : Bool)
  deriving DecidableEq, Repr

inductive At (s : Lane) (i : Nat) : Standing → Prop
  | waiting (hp : i ∈ s.pending.map (·.id)) (hn : s.told i = none) : At s i .waiting
  | answered {t : Task} {a : Answer} (ha : (t, a) ∈ s.answered) (ht : t.id = i)
      (hn : s.told i = none) : At s i (.answered a.isOk)
  | settled {isOk : Bool} (hs : s.told i = some isOk) (hp : i ∉ s.pending.map (·.id)) :
      At s i (.settled isOk)

/-- How a step moves a statement that nobody cancels and no encoder refuses. -/
inductive Move (s : Lane) (i : Nat) : LaneEvent → Standing → Standing → Prop
  | stay {e : LaneEvent} {st : Standing}
      (hs : ∀ breaks, e = .serve breaks → ∀ t ∈ s.sent.head?, t.id ≠ i)
      (hd : ∀ reconnects, e = .down reconnects → st = .waiting → i ∈ s.queue.map (·.id))
      (ha : ∀ reconnects isOk, e = .down reconnects → st ≠ .answered isOk) : Move s i e st st
  | serve {breaks : Bool} {t : Task} {ts : List Task} (hs : s.sent = t :: ts) (ht : t.id = i) :
      Move s i (.serve breaks) .waiting (.answered (s.session.exec i t.command breaks).1)
  | read {isOk : Bool} : Move s i .ready (.answered isOk) (.settled isOk)
  | lost {e : LaneEvent} {st : Standing} (he : (∃ r, e = .down r) ∨ e = .giveUp)
      (hst : ∀ isOk, st ≠ .settled isOk) (ho : (s.step e).opener = none) :
      Move s i e st (.settled false)

variable {i : Nat} {st : Standing}

theorem At.lt (h : s.At i st) (hs : s.Sound) : i < s.next := by
  cases h with
  | waiting hp _ => exact hs.fresh i (List.mem_append_right _ hp)
  | answered ha ht _ =>
    exact hs.fresh i (List.mem_append_left _ (hs.logged i (List.mem_map.mpr ⟨_, ha, ht⟩)))
  | settled ht _ => exact hs.told i (by rw [ht]; rfl)

/-- An answer on its way back. -/
theorem At.answer {isOk : Bool} (h : s.At i (.answered isOk)) :
    ∃ x ∈ s.answered, x.1.id = i ∧ x.2.isOk = isOk := by
  generalize hst : Standing.answered isOk = st at h
  cases h with
  | waiting _ _ | settled _ _ => cases hst
  | answered ha ht _ => exact ⟨_, ha, ht, (Standing.answered.inj hst).symm⟩

/-- A statement that was executed does not wait any more. -/
theorem Sound.notMem_pending (h : s.Sound) (hi : i ∈ s.answered.map (·.1.id)) :
    i ∉ s.pending.map (·.id) := fun hp =>
  absurd ((List.pairwise_append.mp h.order).2.2 i (h.logged i hi) i hp) (Nat.lt_irrefl i)

/-- A step that the statement does not notice. -/
theorem At.frame {s' : Lane} (h : s.At i st)
    (hp : i ∈ s'.pending.map (·.id) ↔ i ∈ s.pending.map (·.id)) (ht : s'.told i = s.told i)
    (ha : ∀ x ∈ s.answered, x.1.id = i → x ∈ s'.answered) : s'.At i st := by
  cases h with
  | waiting hw hn => exact .waiting (hp.mpr hw) (ht.trans hn)
  | answered hx hi hn => exact .answered (ha _ hx hi) hi (ht.trans hn)
  | settled hs hw => exact .settled (ht.trans hs) (fun hw' => hw (hp.mp hw'))

theorem At.query (h : s.At i st) (hs : s.Sound) (c : Command) : (s.query c).At i st := by
  have hne : i ≠ s.next := Nat.ne_of_lt (h.lt hs)
  unfold Lane.query
  split
  · exact h.frame Iff.rfl (settle_told_of_notMem (by simpa using hne)) (fun x hx _ => hx)
  · refine h.frame ?_ rfl (fun x hx _ => hx)
    simp [pending, hne]

/-- Where a new statement is. -/
theorem Sound.at_next (h : s.Sound) (c : Command) : (s.query c).At s.next .waiting ∨
    (s.query c).At s.next (.settled false) ∧ s.opener = none := by
  have hnone : s.told s.next = none := by
    rw [← Option.not_isSome_iff_eq_none]
    exact fun hs => Nat.lt_irrefl _ (h.told _ hs)
  unfold Lane.query
  split
  · rename_i hl
    have hp : s.next ∉ s.pending.map (·.id) := fun hp =>
      Nat.lt_irrefl _ (h.fresh _ (List.mem_append_right _ hp))
    exact .inr ⟨.settled (settle_told_of_mem hnone List.mem_cons_self) hp,
      (h.down (by rw [hl]; exact nofun)).2.2⟩
  · exact .inl (.waiting (by simp [pending]) hnone)

theorem At.startTask (h : s.At i st) : s.startTask.At i st := by
  unfold Lane.startTask
  split
  · exact h
  · rename_i t ts hq
    refine h.frame ?_ rfl (fun x hx _ => hx)
    rw [pending, pending, hq, List.append_assoc, List.singleton_append]

theorem At.refuseTask (h : s.At i st) (ht : ∀ t ∈ s.queue.head?, t.id ≠ i) :
    s.refuseTask.At i st := by
  unfold Lane.refuseTask
  split
  · exact h
  · rename_i t ts hq
    have hne : i ≠ t.id := fun hi => ht t (by rw [hq]; rfl) hi.symm
    refine h.frame ?_ (settle_told_of_notMem (by simpa using hne)) (fun x hx _ => hx)
    simp [pending, hq, hne]

theorem At.cancelTask (h : s.At i st) {j : Nat} (hj : j ≠ i) : (s.cancelTask j).At i st := by
  unfold Lane.cancelTask
  split
  · exact h
  · refine h.frame ?_ (settle_told_of_notMem (by simpa using hj.symm)) (fun x hx _ => hx)
    simp only [pending, settle_sent, settle_queue, List.map_append, List.mem_append, List.mem_map,
      List.mem_filter, decide_eq_true_eq]
    refine or_congr Iff.rfl ⟨fun ⟨t, ht, hi⟩ => ⟨t, ht.1, hi⟩, fun ⟨t, ht, hi⟩ => ⟨t, ⟨ht, ?_⟩, hi⟩⟩
    exact fun ht => hj (ht.symm.trans hi)

/-- The server executes the statement, or another one. -/
theorem At.serve (h : s.At i st) (hs : s.Sound) (breaks : Bool) :
    ∃ st', (s.serve breaks).At i st' ∧ Move s i (.serve breaks) st st' := by
  unfold Lane.serve
  split
  · rename_i hsent
    refine ⟨st, h, .stay (fun b _ t ht => ?_) (fun _ he => nomatch he) (fun _ _ he => nomatch he)⟩
    rw [hsent] at ht
    cases ht
  · rename_i t ts hsent
    by_cases ht : t.id = i
    · have hnotin : i ∉ (ts ++ s.queue).map (·.id) := by
        have hp := (List.pairwise_append.mp hs.order).2.1
        rw [pending, hsent, List.cons_append, List.map_cons, ht] at hp
        exact fun hi => Nat.lt_irrefl i ((List.pairwise_cons.mp hp).1 i hi)
      have hpend : i ∈ s.pending.map (·.id) :=
        List.mem_map.mpr ⟨t, List.mem_append_left _ (hsent ▸ List.mem_cons_self), ht⟩
      cases h with
      | waiting hp hn =>
        refine ⟨_, ?_, .serve hsent ht⟩
        rw [← ht] at hn ⊢
        exact At.answered (a := ⟨_, _⟩) (List.mem_append_right _ List.mem_cons_self) rfl hn
      | answered ha hi hn =>
        exact absurd hpend (hs.notMem_pending (List.mem_map.mpr ⟨_, ha, hi⟩))
      | settled hsettled hp => exact absurd hpend hp
    · refine ⟨st, h.frame ?_ rfl (fun x hx _ => List.mem_append_left _ hx),
        .stay (fun b _ u hu => ?_) (fun _ he => nomatch he) (fun _ _ he => nomatch he)⟩
      · have hne : i ≠ t.id := fun hi => ht hi.symm
        simp [pending, hsent, hne]
      · rw [hsent] at hu
        cases hu
        exact ht

/-- The client reads the statement's answer, or another one. -/
theorem At.ready (h : s.At i st) (hs : s.Sound) :
    ∃ st', s.ready.At i st' ∧ Move s i .ready st st' := by
  have hstay : Move s i .ready st st :=
    .stay (fun _ he => nomatch he) (fun _ he => nomatch he) (fun _ _ he => nomatch he)
  unfold Lane.ready
  split
  · exact ⟨st, h, hstay⟩
  · rename_i t a as hans
    by_cases ht : t.id = i
    · have hnotin := hs.notMem_pending (i := i)
        (List.mem_map.mpr ⟨(t, a), hans ▸ List.mem_cons_self, ht⟩)
      cases h with
      | waiting hp hn => exact absurd hp hnotin
      | settled hsettled hp =>
        refine ⟨_, .settled ?_ hp, hstay⟩
        rw [settle_told_of_some (by simp only [hsettled, Option.isSome_some])]
        exact hsettled
      | @answered u b hu hi hn =>
        have hsame : b = a := by
          have hanswers := hs.answers
          rw [hans] at hu hanswers
          rcases List.mem_cons.mp hu with heq | hmem
          · exact (Prod.mk.inj heq).2
          · have hlt : t.id < u.id :=
              (List.pairwise_cons.mp hanswers).1 u.id (List.mem_map.mpr ⟨_, hmem, rfl⟩)
            rw [ht, hi] at hlt
            exact absurd hlt (Nat.lt_irrefl i)
        subst hsame
        exact ⟨_, .settled (settle_told_of_mem hn (ht ▸ List.mem_cons_self)) hnotin, .read⟩
    · have hne : i ≠ t.id := fun hi => ht hi.symm
      refine ⟨st, h.frame Iff.rfl (settle_told_of_notMem (by simpa using hne)) (fun x hx hi => ?_),
        hstay⟩
      rw [hans] at hx
      rcases List.mem_cons.mp hx with rfl | hx
      · exact absurd hi ht
      · exact hx

/-- The queue is given up. -/
theorem At.rejectQueue (h : s.At i st) (hs : s.sent = []) (ha : s.answered = []) :
    s.rejectQueue.At i (match st with | .settled isOk => .settled isOk | _ => .settled false) := by
  have hnil : i ∉ s.rejectQueue.pending.map (·.id) := by
    simp [Lane.rejectQueue, pending, hs]
  cases h with
  | waiting hp hn =>
    rw [pending, hs, List.nil_append] at hp
    exact .settled (settle_told_of_mem hn hp) hnil
  | answered hx _ _ =>
    rw [ha] at hx
    exact nomatch hx
  | settled ht _ =>
    refine .settled ?_ hnil
    refine (settle_told_of_some ?_).trans ht
    simp only [ht, Option.isSome_some]

/-- The socket dies: what is in flight is rejected, what is queued waits or is rejected. -/
theorem At.onSocketDown (h : s.At i st) (hs : s.Sound) (reconnects : Bool) :
    ∃ st', (s.onSocketDown reconnects).At i st' ∧ Move s i (.down reconnects) st st' := by
  have ho : (s.onSocketDown reconnects).opener = none := by
    cases reconnects <;> exact Backend.lose_opener
  have hlost : (∀ isOk, st ≠ .settled isOk) → Move s i (.down reconnects) st (.settled false) :=
    fun hst => .lost (.inl ⟨_, rfl⟩) hst ho
  -- the state before the queue is given up
  obtain ⟨s', hs', hsent, hanswered, hat⟩ : ∃ s' : Lane,
      s.onSocketDown reconnects = (if reconnects then s' else s'.rejectQueue) ∧ s'.sent = [] ∧
      s'.answered = [] ∧ ((s'.At i st ∧ (st = .waiting → i ∈ s.queue.map (·.id)) ∧
        ∀ isOk, st ≠ .answered isOk) ∨ s'.At i (.settled false) ∧ ∀ isOk, st ≠ .settled isOk) := by
    refine ⟨_, rfl, rfl, rfl, ?_⟩
    have hsub : ∀ {j}, j ∈ s.queue.map (·.id) → j ∈ s.pending.map (·.id) := by
      intro j hj
      rw [pending, List.map_append]
      exact List.mem_append_right _ hj
    have hqueue : ∀ {j}, j ∈ s.pending.map (·.id) → j ∉ s.queue.map (·.id) → j ∈ s.inflight := by
      intro j hj hq
      rw [pending, List.map_append] at hj
      exact List.mem_append_right _ ((List.mem_append.mp hj).resolve_right hq)
    cases h with
    | waiting hp hn =>
      by_cases hq : i ∈ s.queue.map (·.id)
      · refine .inl ⟨.waiting hq ((settle_told_of_notMem ?_).trans hn), fun _ => hq, fun _ => nofun⟩
        intro hin
        rcases List.mem_append.mp hin with ha | hsent
        · exact hs.notMem_pending ha hp
        · have hord := (List.pairwise_append.mp hs.order).2.1
          rw [pending, List.map_append] at hord
          exact Nat.lt_irrefl i ((List.pairwise_append.mp hord).2.2 i hsent i hq)
      · exact .inr ⟨.settled (settle_told_of_mem hn (hqueue hp hq)) hq, fun _ => nofun⟩
    | answered ha ht hn =>
      have hin : i ∈ s.answered.map (·.1.id) := List.mem_map.mpr ⟨_, ha, ht⟩
      refine .inr ⟨.settled (settle_told_of_mem hn (List.mem_append_left _ hin)) ?_, fun _ => nofun⟩
      exact fun hq => hs.notMem_pending hin (hsub hq)
    | @settled isOk ht hp =>
      refine .inl ⟨.settled ((settle_told_of_some ?_).trans ht) (fun hq => hp (hsub hq)),
        nofun, fun _ => nofun⟩
      simp only [ht, Option.isSome_some]
  rw [hs']
  cases reconnects with
  | true =>
    rcases hat with ⟨hat, hw, ha⟩ | ⟨hat, hst⟩
    · exact ⟨_, hat, .stay (fun _ he => nomatch he) (fun _ _ => hw) (fun _ isOk _ => ha isOk)⟩
    · exact ⟨_, hat, hlost hst⟩
  | false =>
    rcases hat with ⟨hat, hw, ha⟩ | ⟨hat, hst⟩
    · refine ⟨_, hat.rejectQueue hsent hanswered, ?_⟩
      cases st with
      | settled isOk =>
        exact .stay (fun _ he => nomatch he) (fun _ _ => hw) (fun _ isOk _ => ha isOk)
      | waiting => exact hlost (fun _ => nofun)
      | answered isOk => exact absurd rfl (ha isOk)
    · exact ⟨_, hat.rejectQueue hsent hanswered, hlost hst⟩

/-- **What a step does to a statement** that is not canceled and cannot be refused. -/
theorem At.step (h : s.At i st) (hs : s.Sound) {e : LaneEvent} (he : s.enabled e = true)
    (hcancel : e ≠ .cancel i) (hwork : ∀ t ∈ s.pending, t.id = i → t.command ≠ .work) :
    ∃ st', (s.step e).At i st' ∧ Move s i e st st' := by
  have hstay : ∀ {e : LaneEvent}, (∀ breaks, e ≠ .serve breaks) → (∀ r, e ≠ .down r) →
      Move s i e st st := fun hserve hdown =>
    .stay (fun b hb => absurd hb (hserve b)) (fun r hr => absurd hr (hdown r))
      (fun r _ hr => absurd hr (hdown r))
  cases e with
  | query c => exact ⟨st, h.query hs c, hstay (fun _ => nofun) (fun _ => nofun)⟩
  | start => exact ⟨st, h.startTask, hstay (fun _ => nofun) (fun _ => nofun)⟩
  | refuse =>
    refine ⟨st, h.refuseTask (fun t ht hi => ?_), hstay (fun _ => nofun) (fun _ => nofun)⟩
    have hw := (Bool.and_eq_true_iff.mp he).2
    rw [Option.mem_def.mp ht] at hw
    exact hwork t (List.mem_append_right _ (List.mem_of_mem_head? ht)) hi (of_decide_eq_true hw)
  | serve breaks => exact h.serve hs breaks
  | ready => exact h.ready hs
  | cancel j =>
    exact ⟨st, h.cancelTask (fun hj => hcancel (hj ▸ rfl)), hstay (fun _ => nofun) (fun _ => nofun)⟩
  | down r => exact h.onSocketDown hs r
  | establish =>
    exact ⟨st, h.frame Iff.rfl rfl (fun x hx _ => hx), hstay (fun _ => nofun) (fun _ => nofun)⟩
  | giveUp =>
    have hl : s.link ≠ .ready := by
      rw [show s.link = .reconnecting from of_decide_eq_true he]
      exact nofun
    obtain ⟨hsent, hanswered, ho⟩ := hs.down hl
    refine ⟨_, h.rejectQueue hsent hanswered, ?_⟩
    cases st with
    | settled isOk => exact hstay (fun _ => nofun) (fun _ => nofun)
    | waiting => exact .lost (.inr rfl) (fun _ => nofun) ho
    | answered isOk => exact .lost (.inr rfl) (fun _ => nofun) ho

/-! ### What a step does to the block, and what it leaves to do -/

theorem serve_opener {t : Task} {ts : List Task} (hs : s.sent = t :: ts) (breaks : Bool) :
    (s.serve breaks).opener = (s.session.exec t.id t.command breaks).2.opener := by
  unfold Lane.serve
  rw [hs]
  rfl

theorem ready_opener : s.ready.opener = s.opener := by
  unfold Lane.ready
  split <;> rfl

/-- Only a statement that the server executes, or the end of the session, changes the session. -/
theorem session_step {e : LaneEvent} (hserve : ∀ breaks, e ≠ .serve breaks)
    (hdown : ∀ r, e ≠ .down r) : (s.step e).session = s.session ∧ (s.step e).log = s.log := by
  cases e with
  | query c =>
    show (s.query c).session = s.session ∧ (s.query c).log = s.log
    unfold Lane.query
    split <;> exact ⟨rfl, rfl⟩
  | start =>
    show s.startTask.session = s.session ∧ s.startTask.log = s.log
    unfold Lane.startTask
    split <;> exact ⟨rfl, rfl⟩
  | refuse =>
    show s.refuseTask.session = s.session ∧ s.refuseTask.log = s.log
    unfold Lane.refuseTask
    split <;> exact ⟨rfl, rfl⟩
  | serve breaks => exact absurd rfl (hserve breaks)
  | ready =>
    show s.ready.session = s.session ∧ s.ready.log = s.log
    unfold Lane.ready
    split <;> exact ⟨rfl, rfl⟩
  | cancel i =>
    show (s.cancelTask i).session = s.session ∧ (s.cancelTask i).log = s.log
    unfold Lane.cancelTask
    split <;> exact ⟨rfl, rfl⟩
  | down r => exact absurd rfl (hdown r)
  | establish | giveUp => exact ⟨rfl, rfl⟩

theorem opener_step {e : LaneEvent} (hserve : ∀ breaks, e ≠ .serve breaks)
    (hdown : ∀ r, e ≠ .down r) : (s.step e).opener = s.opener :=
  congrArg Backend.opener (session_step hserve hdown).1

theorem down_opener (r : Bool) : (s.onSocketDown r).opener = none := by
  cases r <;> exact Backend.lose_opener

/-- What waits after a step has waited before, or is new. -/
theorem pending_step {e : LaneEvent} {t : Task} (ht : t ∈ (s.step e).pending) :
    t ∈ s.pending ∨ ∃ c, e = .query c ∧ t = ⟨s.next, c⟩ := by
  cases e with
  | query c =>
    have ht : t ∈ (s.query c).pending := ht
    unfold Lane.query at ht
    split at ht
    · exact .inl ht
    · rcases List.mem_append.mp ht with ht | ht
      · exact .inl (List.mem_append_left _ ht)
      · rcases List.mem_append.mp ht with ht | ht
        · exact .inl (List.mem_append_right _ ht)
        · exact .inr ⟨c, rfl, List.mem_singleton.mp ht⟩
  | start =>
    have ht : t ∈ s.startTask.pending := ht
    unfold Lane.startTask at ht
    split at ht
    · exact .inl ht
    · rename_i u us hq
      rw [pending, List.append_assoc, List.singleton_append, ← hq] at ht
      exact .inl ht
  | refuse =>
    have ht : t ∈ s.refuseTask.pending := ht
    unfold Lane.refuseTask at ht
    split at ht
    · exact .inl ht
    · rename_i u us hq
      rcases List.mem_append.mp ht with ht | ht
      · exact .inl (List.mem_append_left _ ht)
      · exact .inl (List.mem_append_right _ (hq ▸ List.mem_cons_of_mem _ ht))
  | serve breaks =>
    have ht : t ∈ (s.serve breaks).pending := ht
    unfold Lane.serve at ht
    split at ht
    · exact .inl ht
    · rename_i u us hs
      rcases List.mem_append.mp ht with ht | ht
      · exact .inl (List.mem_append_left _ (hs ▸ List.mem_cons_of_mem _ ht))
      · exact .inl (List.mem_append_right _ ht)
  | ready =>
    have ht : t ∈ s.ready.pending := ht
    unfold Lane.ready at ht
    split at ht <;> exact .inl ht
  | cancel i =>
    have ht : t ∈ (s.cancelTask i).pending := ht
    unfold Lane.cancelTask at ht
    split at ht
    · exact .inl ht
    · rcases List.mem_append.mp ht with ht | ht
      · exact .inl (List.mem_append_left _ ht)
      · exact .inl (List.mem_append_right _ (List.mem_filter.mp ht).1)
  | down r =>
    have hq : t ∈ s.queue := by
      cases r with
      | true => exact ht
      | false => exact nomatch ht
    exact .inl (List.mem_append_right _ hq)
  | establish => exact .inl ht
  | giveUp =>
    rcases List.mem_append.mp ht with ht | ht
    · exact .inl (List.mem_append_left _ ht)
    · exact nomatch ht

/-- A statement that is not new does not come back. -/
theorem notMem_pending_step {e : LaneEvent} (hi : i < s.next)
    (hp : i ∉ s.pending.map (·.id)) : i ∉ (s.step e).pending.map (·.id) := by
  intro hmem
  obtain ⟨t, ht, rfl⟩ := List.mem_map.mp hmem
  rcases pending_step ht with ht | ⟨c, rfl, rfl⟩
  · exact hp (List.mem_map_of_mem ht)
  · exact Nat.lt_irrefl _ hi

/-- A statement that does not wait is not executed next. -/
theorem not_served (hp : i ∉ s.pending.map (·.id)) {e : LaneEvent} :
    ∀ breaks, e = .serve breaks → ∀ t ∈ s.sent.head?, t.id ≠ i :=
  fun _ _ t ht hi => hp (List.mem_map.mpr ⟨t, List.mem_append_left _ (List.mem_of_mem_head? ht), hi⟩)

/-- A step that does not execute a statement does not open its block. -/
theorem opener_ne_step {e : LaneEvent} (he : s.enabled e = true)
    (hserve : ∀ breaks, e = .serve breaks → ∀ t ∈ s.sent.head?, t.id ≠ i)
    (ho : s.opener ≠ some i) : (s.step e).opener ≠ some i := by
  have hsame : (∀ breaks, e ≠ .serve breaks) → (∀ r, e ≠ .down r) →
      (s.step e).opener ≠ some i := fun hs hd => by
    rw [opener_step hs hd]
    exact ho
  cases e with
  | serve breaks =>
    cases hs : s.sent with
    | nil =>
      simp only [enabled, hs, List.isEmpty_nil, Bool.not_true] at he
      cases he
    | cons t ts =>
      have hne : t.id ≠ i := hserve breaks rfl t (by rw [hs]; rfl)
      show (s.serve breaks).opener ≠ some i
      rw [serve_opener hs]
      rcases @Backend.exec_opener _ s.session t.id t.command breaks with
        h | h | h
      · rw [h]
        exact ho
      · rw [h]
        exact nofun
      · rw [h]
        exact fun hi => hne (Option.some.inj hi)
  | down r =>
    show (s.onSocketDown r).opener ≠ some i
    rw [down_opener]
    exact nofun
  | query _ | start | refuse | ready | cancel _ | establish | giveUp =>
    exact hsame (fun _ => nofun) (fun _ => nofun)

theorem next_le_step (s : Lane) (e : LaneEvent) : s.next ≤ (s.step e).next := by
  cases e with
  | query c =>
    show s.next ≤ (s.query c).next
    unfold Lane.query
    split <;> exact Nat.le_succ _
  | start =>
    show s.next ≤ s.startTask.next
    unfold Lane.startTask
    split <;> exact Nat.le_refl _
  | refuse =>
    show s.next ≤ s.refuseTask.next
    unfold Lane.refuseTask
    split <;> exact Nat.le_refl _
  | serve breaks =>
    show s.next ≤ (s.serve breaks).next
    unfold Lane.serve
    split <;> exact Nat.le_refl _
  | ready =>
    show s.next ≤ s.ready.next
    unfold Lane.ready
    split <;> exact Nat.le_refl _
  | cancel i =>
    show s.next ≤ (s.cancelTask i).next
    unfold Lane.cancelTask
    split <;> exact Nat.le_refl _
  | down r => cases r <;> exact Nat.le_refl _
  | establish | giveUp => exact Nat.le_refl _

/-- The statement that opened the block is an old one. -/
theorem opener_lt_step (hs : s.Sound) (ho : ∀ b, s.opener = some b → b < s.next) {e : LaneEvent}
    (he : s.enabled e = true) : ∀ b, (s.step e).opener = some b → b < (s.step e).next := by
  intro b hb
  refine Nat.lt_of_lt_of_le (Nat.lt_of_not_le fun hle => ?_) (next_le_step s e)
  refine opener_ne_step (i := b) he (fun breaks _ t ht hi => ?_) (fun hb => ?_) hb
  · have hlt := hs.pending_lt (List.mem_append_left _ (List.mem_of_mem_head? ht))
    rw [hi] at hlt
    exact Nat.lt_irrefl _ (Nat.lt_of_lt_of_le hlt hle)
  · exact Nat.lt_irrefl _ (Nat.lt_of_lt_of_le (ho b hb) hle)

end Lane

end Minipg.Transactions
