import Minipg.Js
import Mathlib.Data.List.Forall2

/-!
# Transactions in batches

`batchTransactions` (`src/replication.ts`) makes one batch of each transaction of an event stream,
or several of at most `maxEvents` events.  The batches of a transaction hold its events in their
order, and the last of them, which alone is done, holds the fields of the commit
(`batchTransactions_batched`).
-/

namespace Minipg.Batches

open Js

variable {α ε : Type}

/-- An event; `change` is any of the kinds that `batchTransactions` does not tell apart. -/
inductive ReplicationEvent (α : Type)
  | begin (xid : Nat)
  | commit (lsn endLsn : String) (commitTime : Option Time) (commitTimeUs : Double)
  | message (transactional : Bool) (content : α)
  | change (content : α)
  deriving DecidableEq, Repr

structure CommitFields where
  commitLsn : String
  endLsn : String
  commitTime : Option Time
  commitTimeUs : Double
  deriving DecidableEq, Repr

/-- A batch; the fields of the commit are there when it is done. -/
structure TransactionBatch (α : Type) where
  xid : Nat
  events : List (ReplicationEvent α)
  done : Option CommitFields
  deriving DecidableEq, Repr

/-- How a stream ends. -/
inductive Ending (ε : Type)
  | returns
  | throws (error : ε)
  deriving DecidableEq, Repr

structure Batcher (α : Type) where
  xid : Nat := 0
  events : List (ReplicationEvent α) := []
  deriving DecidableEq, Repr

/-- `opts.maxEvents && opts.maxEvents > 0 ? opts.maxEvents : Infinity`; `none` is `Infinity`. -/
def maxOf (maxEvents : Option Double) : Option Double :=
  maxEvents.filter fun x => x.exponent ≠ 2047 ∧ 0 < x.scaled

/-- `n >= max`. -/
def isFull (max : Option Double) (n : Nat) : Bool :=
  max.any fun x => x.scaled ≤ (n : Int) * Double.unit

namespace Batcher

def push (b : Batcher α) (max : Option Double) (e : ReplicationEvent α) :
    Batcher α × Option (TransactionBatch α) :=
  let events := b.events ++ [e]
  if isFull max events.length then (⟨b.xid, []⟩, some ⟨b.xid, events, none⟩)
  else (⟨b.xid, events⟩, none)

/-- The body of the loop. -/
def next (b : Batcher α) (max : Option Double) :
    ReplicationEvent α → Batcher α × Option (TransactionBatch α)
  | .begin xid => (⟨xid, []⟩, none)
  | .commit lsn endLsn commitTime commitTimeUs =>
    (⟨b.xid, []⟩, some ⟨b.xid, b.events, some ⟨lsn, endLsn, commitTime, commitTimeUs⟩⟩)
  | .message false _ => (b, none)
  | .message true content => b.push max (.message true content)
  | .change content => b.push max (.change content)

/-- The batches of the loop over `stream`, and what it leaves. -/
def run (max : Option Double) (b : Batcher α) :
    List (ReplicationEvent α) → List (TransactionBatch α) × Batcher α
  | [] => ([], b)
  | e :: stream =>
    let (b, yielded) := b.next max e
    let (batches, b) := b.run max stream
    (yielded.toList ++ batches, b)

end Batcher

/-- What is yielded, and how that ends. -/
def batchTransactions (maxEvents : Option Double) (stream : List (ReplicationEvent α))
    (ending : Ending ε) : List (TransactionBatch α) × Ending ε :=
  (((({} : Batcher α).run (maxOf maxEvents) stream)).1, ending)

/-! ### Well-formed streams -/

namespace ReplicationEvent

def isInner : ReplicationEvent α → Bool
  | .begin _ | .commit .. => false
  | .message .. | .change _ => true

/-- Not a message outside the transaction. -/
def isKept : ReplicationEvent α → Bool
  | .message transactional _ => transactional
  | _ => true

end ReplicationEvent

/-- A transaction that has begun, after messages outside any transaction. -/
structure Opened (α : Type) where
  before : List α
  xid : Nat
  body : List (ReplicationEvent α)
  inner : ∀ e ∈ body, e.isInner = true

structure Transaction (α : Type) extends Opened α where
  lsn : String
  endLsn : String
  commitTime : Option Time
  commitTimeUs : Double

/-- Where a stream is cut off. -/
inductive Cut (α : Type)
  | outside (before : List α)
  | inside (t : Opened α)

def messages (before : List α) : List (ReplicationEvent α) := before.map (.message false)

def Opened.stream (t : Opened α) : List (ReplicationEvent α) :=
  messages t.before ++ .begin t.xid :: t.body

/-- The events of the transaction that are to be handed out. -/
def Opened.kept (t : Opened α) : List (ReplicationEvent α) :=
  t.body.filter ReplicationEvent.isKept

def Transaction.stream (t : Transaction α) : List (ReplicationEvent α) :=
  t.toOpened.stream ++ [.commit t.lsn t.endLsn t.commitTime t.commitTimeUs]

def Transaction.fields (t : Transaction α) : CommitFields :=
  ⟨t.lsn, t.endLsn, t.commitTime, t.commitTimeUs⟩

def Cut.stream : Cut α → List (ReplicationEvent α)
  | .outside before => messages before
  | .inside t => t.stream

/-- The least integer that is not below `x`. -/
def roundedUp (x : Double) : Int := -(-x.scaled / Double.unit)

/-- No batch is larger than `max`. -/
def Within (max : Option Double) (bs : List (TransactionBatch α)) : Prop :=
  ∀ b ∈ bs, ∀ x ∈ max, (b.events.length : Int) ≤ roundedUp x

/-- The batches of a transaction. -/
structure Batched (max : Option Double) (t : Transaction α) (bs : List (TransactionBatch α)) :
    Prop where
  xid : ∀ b ∈ bs, b.xid = t.xid
  events : bs.flatMap TransactionBatch.events = t.kept
  within : Within max bs
  done : ∃ chunks last, bs = chunks ++ [last] ∧ (∀ b ∈ chunks, b.done = none) ∧
    last.done = some t.fields

/-- The batches of a transaction whose commit is missing. -/
structure Unfinished (max : Option Double) (t : Opened α) (bs : List (TransactionBatch α)) :
    Prop where
  xid : ∀ b ∈ bs, b.xid = t.xid
  events : bs.flatMap TransactionBatch.events <+: t.kept
  within : Within max bs
  undone : ∀ b ∈ bs, b.done = none

def Cut.Batched (max : Option Double) : Cut α → List (TransactionBatch α) → Prop
  | .outside _, bs => bs = []
  | .inside t, bs => Unfinished max t bs

/-! ### The loop -/

/-- One event more than too few. -/
theorem le_roundedUp {x : Double} {n : Nat} (h : ¬x.scaled ≤ (n : Int) * Double.unit) :
    ((n + 1 : Nat) : Int) ≤ roundedUp x := by
  have hlt : -x.scaled / Double.unit < -n := by
    refine Int.ediv_lt_of_lt_mul Double.unit_pos ?_
    rw [Int.neg_mul]
    omega
  unfold roundedUp
  omega

theorem run_append (max : Option Double) (b : Batcher α) (s t : List (ReplicationEvent α)) :
    b.run max (s ++ t) = ((b.run max s).1 ++ ((b.run max s).2.run max t).1,
      ((b.run max s).2.run max t).2) := by
  induction s generalizing b with
  | nil => rfl
  | cons e s ih =>
    simp only [List.cons_append, Batcher.run]
    rw [ih]
    simp

/-- Messages outside a transaction are dropped. -/
theorem run_messages (max : Option Double) (b : Batcher α) (before : List α) :
    b.run max (messages before) = ([], b) := by
  induction before with
  | nil => rfl
  | cons m before ih =>
    show ([] ++ (b.run max (messages before)).1, (b.run max (messages before)).2) = ([], b)
    rw [ih]
    rfl

/-- What the loop has yielded in a transaction, and what it holds back. -/
structure Chunked (max : Option Double) (xid : Nat) (kept : List (ReplicationEvent α))
    (bs : List (TransactionBatch α)) (b : Batcher α) : Prop where
  same : b.xid = xid
  xids : ∀ c ∈ bs, c.xid = xid
  events : bs.flatMap TransactionBatch.events ++ b.events = kept
  within : Within max bs
  undone : ∀ c ∈ bs, c.done = none
  room : isFull max b.events.length = false

namespace Chunked

variable {max : Option Double} {xid : Nat} {kept : List (ReplicationEvent α)}
  {bs : List (TransactionBatch α)} {b : Batcher α} {e : ReplicationEvent α}

theorem le_of_room (h : isFull max b.events.length = false) : ∀ x ∈ max,
    ((b.events ++ [e]).length : Int) ≤ roundedUp x := by
  intro x hx
  cases hx
  rw [List.length_append]
  exact le_roundedUp (of_decide_eq_false h)

theorem not_full_zero {maxEvents : Option Double} : isFull (maxOf maxEvents) 0 = false := by
  unfold isFull maxOf
  cases maxEvents with
  | none => rfl
  | some x =>
    by_cases hx : x.exponent ≠ 2047 ∧ 0 < x.scaled
    · rw [Option.filter_some, if_pos (decide_eq_true hx)]
      have hlt : ¬x.scaled ≤ ((0 : Nat) : Int) * Double.unit := by
        rw [Int.natCast_zero, Int.zero_mul]
        omega
      exact decide_eq_false hlt
    · rw [Option.filter_some, if_neg (by simpa using hx)]
      rfl

/-- An event that is kept. -/
theorem push (h : Chunked max xid kept bs b) (hzero : isFull max 0 = false) :
    Chunked max xid (kept ++ [e]) (bs ++ (b.push max e).2.toList) (b.push max e).1 := by
  have hall : bs.flatMap TransactionBatch.events ++ (b.events ++ [e]) = kept ++ [e] := by
    rw [← List.append_assoc, h.events]
  unfold Batcher.push
  by_cases hf : isFull max (b.events ++ [e]).length
  · simp only [if_pos hf, Option.toList_some]
    have hone : ∀ {P : TransactionBatch α → Prop}, (∀ c ∈ bs, P c) →
        P ⟨b.xid, b.events ++ [e], none⟩ → ∀ c ∈ bs ++ [⟨b.xid, b.events ++ [e], none⟩], P c := by
      intro P hbs hlast c hc
      rcases List.mem_append.mp hc with hc | hc
      · exact hbs c hc
      · rw [List.mem_singleton.mp hc]
        exact hlast
    refine ⟨h.same, hone h.xids h.same, ?_, hone h.within (le_of_room h.room), hone h.undone rfl,
      hzero⟩
    rw [List.flatMap_append, List.flatMap_singleton, List.append_nil]
    exact hall
  · simp only [if_neg hf, Option.toList_none, List.append_nil]
    exact ⟨h.same, h.xids, hall, h.within, h.undone, Bool.eq_false_iff.mpr hf⟩

/-- An event of the transaction. -/
theorem next (h : Chunked max xid kept bs b) (hzero : isFull max 0 = false)
    (he : e.isInner = true) :
    Chunked max xid (kept ++ [e].filter ReplicationEvent.isKept) (bs ++ (b.next max e).2.toList)
      (b.next max e).1 := by
  cases e with
  | begin => cases he
  | commit => cases he
  | change content => exact h.push hzero
  | message transactional content =>
    cases transactional with
    | true => exact h.push hzero
    | false =>
      show Chunked max xid (kept ++ []) (bs ++ []) b
      rw [List.append_nil, List.append_nil]
      exact h

theorem run (hzero : isFull max 0 = false) (body : List (ReplicationEvent α)) :
    ∀ {kept bs} {b : Batcher α}, Chunked max xid kept bs b →
      (∀ e ∈ body, e.isInner = true) →
      Chunked max xid (kept ++ body.filter ReplicationEvent.isKept)
        (bs ++ (b.run max body).1) (b.run max body).2 := by
  induction body with
  | nil =>
    intro kept bs b h _
    show Chunked max xid (kept ++ []) (bs ++ []) b
    rw [List.append_nil, List.append_nil]
    exact h
  | cons e body ih =>
    intro kept bs b h hin
    have hstep := h.next hzero (hin e List.mem_cons_self)
    have hrest := ih hstep fun e' he' => hin e' (List.mem_cons_of_mem e he')
    have hfilter : (e :: body).filter ReplicationEvent.isKept =
        [e].filter ReplicationEvent.isKept ++ body.filter ReplicationEvent.isKept :=
      List.filter_append [e] body
    rw [hfilter, ← List.append_assoc]
    show Chunked max xid _ (bs ++ ((b.next max e).2.toList ++ _)) _
    rw [← List.append_assoc]
    exact hrest

/-- The loop over a transaction that has begun. -/
theorem opened (hzero : isFull max 0 = false) (b : Batcher α) (t : Opened α) :
    Chunked max t.xid t.kept (b.run max t.stream).1 (b.run max t.stream).2 := by
  have hstart : Chunked max t.xid [] [] (⟨t.xid, []⟩ : Batcher α) :=
    ⟨rfl, fun _ hc => (nomatch hc), rfl, fun _ hc => (nomatch hc), fun _ hc => (nomatch hc),
      hzero⟩
  have hbody := hstart.run hzero t.body t.inner
  have hstream : b.run max t.stream = (⟨t.xid, []⟩ : Batcher α).run max t.body := by
    unfold Opened.stream
    rw [run_append, run_messages]
    rfl
  rw [hstream]
  exact hbody

theorem unfinished {t : Opened α} (h : Chunked max t.xid t.kept bs b) : Unfinished max t bs :=
  ⟨h.xids, ⟨b.events, h.events⟩, h.within, h.undone⟩

end Chunked

/-- One transaction. -/
theorem run_transaction {max : Option Double} (hzero : isFull max 0 = false) (b : Batcher α)
    (t : Transaction α) : Batched max t (b.run max t.stream).1 := by
  have hopen := Chunked.opened hzero b t.toOpened
  unfold Transaction.stream
  rw [run_append]
  generalize b.run max t.toOpened.stream = r at hopen
  obtain ⟨bs, b⟩ := r
  show Batched max t (bs ++ [⟨b.xid, b.events, some t.fields⟩])
  have hlast : Within max [(⟨b.xid, b.events, some t.fields⟩ : TransactionBatch α)] := by
    intro c hc x hx
    rw [List.mem_singleton.mp hc]
    have hle := @Chunked.le_of_room α max b (.begin 0) hopen.room x hx
    rw [List.length_append] at hle
    show (b.events.length : Int) ≤ _
    omega
  refine ⟨?_, ?_, ?_, bs, _, rfl, hopen.undone, rfl⟩
  · intro c hc
    rcases List.mem_append.mp hc with hc | hc
    · exact hopen.xids c hc
    · rw [List.mem_singleton.mp hc]
      exact hopen.same
  · rw [List.flatMap_append, List.flatMap_singleton]
    exact hopen.events
  · intro c hc
    rcases List.mem_append.mp hc with hc | hc
    · exact hopen.within c hc
    · exact hlast c hc

/-- The transactions one after the other. -/
theorem run_transactions {max : Option Double} (hzero : isFull max 0 = false)
    (txs : List (Transaction α)) : ∀ b : Batcher α, ∃ each : List (List (TransactionBatch α)),
      (b.run max (txs.flatMap Transaction.stream)).1 = each.flatten ∧
        List.Forall₂ (Batched max) txs each := by
  induction txs with
  | nil => exact fun b => ⟨[], rfl, .nil⟩
  | cons t txs ih =>
    intro b
    obtain ⟨each, heach, hall⟩ := ih (b.run max t.stream).2
    refine ⟨(b.run max t.stream).1 :: each, ?_, .cons (run_transaction hzero b t) hall⟩
    rw [List.flatMap_cons, run_append, List.flatten_cons, ← heach]

/-- **Batches keep the transactions**: each transaction gives batches of its own with its events,
of which exactly the last is done; one whose commit is missing gives none that is done. -/
theorem batchTransactions_batched (maxEvents : Option Double) (txs : List (Transaction α))
    (cut : Cut α) (ending : Ending ε) :
    ∃ (each : List (List (TransactionBatch α))) (rest : List (TransactionBatch α)),
      batchTransactions maxEvents (txs.flatMap Transaction.stream ++ cut.stream) ending =
        (each.flatten ++ rest, ending) ∧
      List.Forall₂ (Batched (maxOf maxEvents)) txs each ∧
      cut.Batched (maxOf maxEvents) rest := by
  have hzero := @Chunked.not_full_zero maxEvents
  obtain ⟨each, heach, hall⟩ := run_transactions hzero txs {}
  generalize hb : ((({} : Batcher α).run (maxOf maxEvents) (txs.flatMap Transaction.stream))).2 = b
  refine ⟨each, (b.run (maxOf maxEvents) cut.stream).1, ?_, hall, ?_⟩
  · unfold batchTransactions
    rw [run_append, heach, hb]
  · cases cut with
    | outside before => exact congrArg Prod.fst (run_messages (maxOf maxEvents) b before)
    | inside t => exact (Chunked.opened hzero b t).unfinished

/-- With `maxEvents: 1.5` a batch of two events is handed out. -/
theorem two_events_in_a_batch :
    (Double.unit : Int) ≤ (0x3FF8000000000000 : Double).scaled ∧
    (0x3FF8000000000000 : Double).scaled < 2 * (Double.unit : Int) ∧
    batchTransactions (some 0x3FF8000000000000)
        [.begin 7, .change 'a', .change 'b', .commit "0/10" "0/20" none 0]
        (Ending.returns : Ending Unit) =
      ([⟨7, [.change 'a', .change 'b'], none⟩, ⟨7, [], some ⟨"0/10", "0/20", none, 0⟩⟩],
        .returns) := by
  decide +kernel

end Minipg.Batches
