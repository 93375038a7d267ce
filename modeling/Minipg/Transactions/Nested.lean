import Minipg.Lib.Blocks

/-!
# Nested transactions

`runTx` of `src/connection.ts` runs a callback between BEGIN and COMMIT or, inside a transaction,
between SAVEPOINT and RELEASE, and rolls back when the callback or the closing statement fails.
Here every statement is awaited, so the server answers each before the next is sent.

A callback is the tree of what it does: `query` sends a statement and goes on as its outcome
says, `begin` runs a callback in a nested transaction.  Its meaning needs no savepoints: a nested
transaction either leaves its effects or none (`Callback.meaning`), and a statement that failed
aborts the transaction around it.
-/

namespace Minipg.Transactions

open Blocks

variable {ι : Type}

/-- Which of the statements that open and close a transaction fail for a reason of their own. -/
structure Breaks where
  opening : Bool := false
  closing : Bool := false
  deriving DecidableEq, Repr

/-- What a callback does with the transaction it is given. -/
inductive Callback (ι : Type)
  | returns
  | throws
  | query (i : ι) (breaks : Bool) (next : Bool → Callback ι)
  | begin (i : ι) (breaks : Breaks) (body : Callback ι) (next : Bool → Callback ι)

/-! ### The connection -/

/-- A connection on which every answer has been read, and the session behind it. -/
structure Client (ι : Type) where
  session : Backend ι := {}
  txStatus : TxStatus := .idle
  spCounter : Nat := 0

namespace Client

def inTransaction (w : Client ι) : Bool := w.txStatus = .active || w.txStatus = .failed

/-- `await this.query(…)`: whether it resolves. -/
def query (w : Client ι) (i : ι) (c : Command) (breaks : Bool) : Bool × Client ι :=
  let (isOk, session) := w.session.exec i c breaks
  (isOk, { w with session, txStatus := session.status })

/-- The end of a nested transaction, after the callback has returned or thrown. -/
def closeNested (w : Client ι) (i : ι) (sp : String) (breaks hasReturned : Bool) :
    Bool × Client ι :=
  let (isDone, w) := if hasReturned then w.query i (.release sp) breaks else (false, w)
  if isDone then (true, w)
  else
    let (isUndone, w) := w.query i (.rollbackTo sp) false
    (false, if isUndone then (w.query i (.release sp) false).2 else w)

/-- The nested branch of `runTx`. -/
def runNested (w : Client ι) (i : ι) (breaks : Breaks) (fn : Client ι → Bool × Client ι) :
    Bool × Client ι :=
  let w := { w with spCounter := w.spCounter + 1 }
  let sp := "minipg_sp_" ++ toString w.spCounter
  let (isOpen, w) := w.query i (.savepoint sp) breaks.opening
  if isOpen then
    let (hasReturned, w) := fn w
    w.closeNested i sp breaks.closing hasReturned
  else (false, w)

/-- The end of a transaction, after the callback has returned or thrown. -/
def close (w : Client ι) (i : ι) (breaks hasReturned : Bool) : Bool × Client ι :=
  let (isDone, w) := if hasReturned then w.query i .commit breaks else (false, w)
  if isDone then (true, w) else (false, (w.query i .rollback false).2)

def runTx (w : Client ι) (i : ι) (breaks : Breaks) (fn : Client ι → Bool × Client ι) :
    Bool × Client ι :=
  if w.inTransaction then w.runNested i breaks fn
  else
    let (isOpen, w) := w.query i .begin breaks.opening
    if isOpen then
      let (hasReturned, w) := fn w
      w.close i breaks.closing hasReturned
    else (false, w)

end Client

/-- Whether the callback returns, and the connection after it. -/
def Callback.run : Callback ι → Client ι → Bool × Client ι
  | .returns, w => (true, w)
  | .throws, w => (false, w)
  | .query i breaks next, w =>
    let (isOk, w) := w.query i .work breaks
    (next isOk).run w
  | .begin i breaks body next, w =>
    let (isOk, w) := w.runTx i breaks body.run
    (next isOk).run w

/-! ### What a callback means -/

/-- The effects of the transaction so far, unless it is aborted. -/
abbrev Progress (ι : Type) := Option (List ι)

/-- A statement takes effect or aborts the transaction. -/
def statement (i : ι) (breaks : Bool) : Progress ι → Bool × Progress ι
  | none => (false, none)
  | some es => if breaks then (false, none) else (true, some (es ++ [i]))

/-- All the effects of a body that returns, or none. -/
def atomic (breaks : Breaks) (body : Progress ι → Bool × Progress ι) :
    Progress ι → Bool × Progress ι
  | none => (false, none)
  | some es =>
    if breaks.opening then (false, none)
    else
      match body (some es) with
      | (true, some es') => if breaks.closing then (false, some es) else (true, some es')
      | _ => (false, some es)

/-- Whether the callback returns, and how far the transaction is then. -/
def Callback.meaning : Callback ι → Progress ι → Bool × Progress ι
  | .returns, m => (true, m)
  | .throws, m => (false, m)
  | .query i breaks next, m =>
    let (isOk, m) := statement i breaks m
    (next isOk).meaning m
  | .begin _ breaks body next, m =>
    let (isOk, m) := atomic breaks body.meaning m
    (next isOk).meaning m

/-! ### The connection in a block -/

variable {base : Backend ι} {o i : ι} {p : List (String × List ι)}

/-- The connection is in the block that `o` opened, with these savepoints, as far as `m` says. -/
inductive Sits (base : Backend ι) (o : ι) (p : List (String × List ι)) :
    Progress ι → Client ι → Prop
  | underway (es : List ι) (n : Nat) : Sits base o p (some es) ⟨base.setBlock ⟨o, false, es, p⟩, .active, n⟩
  | aborted (es : List ι) (n : Nat) : Sits base o p none ⟨base.setBlock ⟨o, true, es, p⟩, .failed, n⟩

namespace Sits

variable {m : Progress ι} {w : Client ι}

theorem inTransaction (h : Sits base o p m w) : w.inTransaction = true := by
  cases h <;> rfl

end Sits

section Queries

variable (es : List ι) (n : Nat) (st : TxStatus) (breaks : Bool) (sp : String)

theorem query_failed (c : Command) (hc : c.isControl = false) (hr : ∀ sp, c ≠ .rollbackTo sp) :
    Client.query ⟨base.setBlock ⟨o, true, es, p⟩, st, n⟩ i c breaks
      = (false, ⟨base.setBlock ⟨o, true, es, p⟩, .failed, n⟩) := by
  cases c with
  | begin | commit | rollback => cases hc
  | rollbackTo sp => exact absurd rfl (hr sp)
  | savepoint _ | release _ | work => rfl

theorem query_work :
    Client.query ⟨base.setBlock ⟨o, false, es, p⟩, st, n⟩ i .work breaks
      = if breaks then (false, ⟨base.setBlock ⟨o, true, es, p⟩, .failed, n⟩)
        else (true, ⟨base.setBlock ⟨o, false, es ++ [i], p⟩, .active, n⟩) := by
  cases breaks <;> rfl

theorem query_savepoint :
    Client.query ⟨base.setBlock ⟨o, false, es, p⟩, st, n⟩ i (.savepoint sp) breaks
      = if breaks then (false, ⟨base.setBlock ⟨o, true, es, p⟩, .failed, n⟩)
        else (true, ⟨base.setBlock ⟨o, false, es, (sp, es) :: p⟩, .active, n⟩) := by
  cases breaks <;> rfl

variable (es' : List ι)

theorem query_release :
    Client.query ⟨base.setBlock ⟨o, false, es, (sp, es') :: p⟩, st, n⟩ i (.release sp) breaks
      = if breaks then (false, ⟨base.setBlock ⟨o, true, es, (sp, es') :: p⟩, .failed, n⟩)
        else (true, ⟨base.setBlock ⟨o, false, es, p⟩, .active, n⟩) := by
  unfold Client.query
  rw [Backend.exec_within rfl rfl]
  simp only [Backend.within, find_cons_self]
  cases breaks <;> rfl

/-- Whether the block has failed or not, ROLLBACK TO leads back to the savepoint. -/
theorem query_rollbackTo (f : Bool) :
    Client.query ⟨base.setBlock ⟨o, f, es, (sp, es') :: p⟩, st, n⟩ i (.rollbackTo sp) breaks
      = (true, ⟨base.setBlock ⟨o, false, es', (sp, es') :: p⟩, .active, n⟩) := by
  cases f with
  | false =>
    unfold Client.query
    rw [Backend.exec_within rfl rfl]
    simp only [Backend.within, find_cons_self]
    rfl
  | true =>
    unfold Client.query
    rw [Backend.exec_afterFailure rfl rfl]
    simp only [Backend.afterFailure, find_cons_self]
    rfl

end Queries

/-! ### What the connection does is what the callback means -/

/-- In every block, `fn` does what `den` says. -/
def Means (fn : Client ι → Bool × Client ι) (den : Progress ι → Bool × Progress ι) : Prop :=
  ∀ {base : Backend ι} {o : ι} {p : List (String × List ι)} {m : Progress ι} {w : Client ι},
    Sits base o p m w → ∃ w', fn w = ((den m).1, w') ∧ Sits base o p (den m).2 w'

theorem query_means (i : ι) (breaks : Bool) :
    Means (fun w => w.query i .work breaks) (statement i breaks) := by
  intro base o p m w h
  cases h with
  | underway es n =>
    cases breaks with
    | false => exact ⟨_, query_work es n .active false, .underway _ n⟩
    | true => exact ⟨_, query_work es n .active true, .aborted es n⟩
  | aborted es n =>
    exact ⟨_, query_failed es n .failed breaks .work rfl (fun _ => nofun), .aborted es n⟩

/-- ROLLBACK TO and RELEASE, wherever the nested transaction has got to. -/
theorem Sits.undo {sp : String} {es : List ι} {m : Progress ι} {w : Client ι}
    (h : Sits base o ((sp, es) :: p) m w) (i : ι) :
    ∃ w₁ w₂, w.query i (.rollbackTo sp) false = (true, w₁) ∧
      w₁.query i (.release sp) false = (true, w₂) ∧ Sits base o p (some es) w₂ := by
  cases h with
  | underway es' n =>
    exact ⟨_, _, query_rollbackTo es' n .active false sp es false,
      query_release es n .active false sp es, .underway es n⟩
  | aborted es' n =>
    exact ⟨_, _, query_rollbackTo es' n .failed false sp es true,
      query_release es n .active false sp es, .underway es n⟩

/-- A nested transaction leaves its effects if the callback has returned in a transaction that is
not aborted and RELEASE succeeds; otherwise ROLLBACK TO leads back to the savepoint. -/
theorem closeNested_sits {sp : String} {es : List ι} {m : Progress ι} {w : Client ι}
    (h : Sits base o ((sp, es) :: p) m w) (breaks r : Bool) :
    ∃ w', w.closeNested i sp breaks r = (r && m.isSome && !breaks, w') ∧
      Sits base o p (if r && m.isSome && !breaks then m else some es) w' := by
  have hback : ∀ {m' : Progress ι} {v : Client ι}, Sits base o ((sp, es) :: p) m' v →
      (if r then w.query i (.release sp) breaks else (false, w)) = (false, v) →
      ∃ w', w.closeNested i sp breaks r = (false, w') ∧ Sits base o p (some es) w' := by
    intro m' v hv heq
    obtain ⟨w₁, w₂, h₁, h₂, hs⟩ := hv.undo i
    refine ⟨w₂, ?_, hs⟩
    simp only [Client.closeNested, heq, h₁, h₂, Bool.false_eq_true, if_false, if_true]
  cases r with
  | false => exact hback h rfl
  | true =>
    cases h with
    | aborted es' n =>
      exact hback (.aborted es' n) (query_failed es' n .failed breaks _ rfl (fun _ => nofun))
    | underway es' n =>
      have hrel := @query_release _ base o i p es' n .active breaks sp es
      cases breaks with
      | true => exact hback (.aborted es' n) hrel
      | false =>
        refine ⟨_, ?_, .underway es' n⟩
        simp only [Client.closeNested, if_true, hrel, Bool.false_eq_true, if_false]
        rfl

theorem runTx_means {fn : Client ι → Bool × Client ι} {den : Progress ι → Bool × Progress ι}
    (hfn : Means fn den) (i : ι) (breaks : Breaks) :
    Means (fun w => w.runTx i breaks fn) (atomic breaks den) := by
  intro base o p m w h
  have hnested : w.runTx i breaks fn = w.runNested i breaks fn := by
    unfold Client.runTx
    rw [if_pos h.inTransaction]
  simp only [hnested]
  cases h with
  | aborted es n =>
    have hq := @query_failed _ base o i p es (n + 1) .failed
      breaks.opening (.savepoint ("minipg_sp_" ++ toString (n + 1))) rfl (fun _ => nofun)
    refine ⟨_, ?_, .aborted es (n + 1)⟩
    simp only [Client.runNested, hq, Bool.false_eq_true, if_false]
    rfl
  | underway es n =>
    have hq := @query_savepoint _ base o i p es (n + 1) .active
      breaks.opening ("minipg_sp_" ++ toString (n + 1))
    cases hopen : breaks.opening with
    | true =>
      rw [hopen, if_pos rfl] at hq
      have hrun : Client.runNested ⟨base.setBlock ⟨o, false, es, p⟩, .active, n⟩ i breaks fn
          = (false, ⟨base.setBlock ⟨o, true, es, p⟩, .failed, n + 1⟩) := by
        simp only [Client.runNested, hopen, hq, Bool.false_eq_true, if_false]
      have hatomic : atomic breaks den (some es) = (false, none) := by
        unfold atomic
        rw [hopen]
        rfl
      exact ⟨_, by rw [hrun, hatomic], by rw [hatomic]; exact .aborted es (n + 1)⟩
    | false =>
      rw [hopen, if_neg Bool.false_ne_true] at hq
      obtain ⟨w₁, hw₁, hs₁⟩ := hfn (@Sits.underway _ base o
        (("minipg_sp_" ++ toString (n + 1), es) :: p) es (n + 1))
      obtain ⟨w₂, hw₂, hs₂⟩ := closeNested_sits (i := i) hs₁ breaks.closing (den (some es)).1
      have hrun : Client.runNested ⟨base.setBlock ⟨o, false, es, p⟩, .active, n⟩ i breaks fn
          = w₁.closeNested i ("minipg_sp_" ++ toString (n + 1)) breaks.closing (den (some es)).1 := by
        simp only [Client.runNested, hopen, hq, if_true, hw₁]
      have hatomic : atomic breaks den (some es) = ((den (some es)).1 && (den (some es)).2.isSome &&
          !breaks.closing, if (den (some es)).1 && (den (some es)).2.isSome && !breaks.closing
            then (den (some es)).2 else some es) := by
        simp only [atomic, hopen, Bool.false_eq_true, if_false]
        rcases den (some es) with ⟨_ | _, _ | es'⟩ <;> cases breaks.closing <;> rfl
      exact ⟨w₂, by rw [hrun, hw₂, hatomic], by rw [hatomic]; exact hs₂⟩

/-- The client goes through a callback as the callback's meaning says. -/
theorem run_means (cb : Callback ι) : Means cb.run cb.meaning := by
  induction cb with
  | returns => exact fun h => ⟨_, rfl, h⟩
  | throws => exact fun h => ⟨_, rfl, h⟩
  | query i breaks next ih =>
    intro base o p m w h
    obtain ⟨w₁, hw₁, hs₁⟩ := query_means i breaks h
    obtain ⟨w₂, hw₂, hs₂⟩ := ih (statement i breaks m).1 hs₁
    exact ⟨w₂, by simp only [Callback.run, hw₁, hw₂, Callback.meaning], hs₂⟩
  | begin i breaks body next ihb ihn =>
    intro base o p m w h
    obtain ⟨w₁, hw₁, hs₁⟩ := runTx_means ihb i breaks h
    obtain ⟨w₂, hw₂, hs₂⟩ := ihn (atomic breaks body.meaning m).1 hs₁
    exact ⟨w₂, by simp only [Callback.run, hw₁, hw₂, Callback.meaning], hs₂⟩

/-! ### A transaction of its own -/

/-- What `begin()` does on a connection that is not in a transaction, once BEGIN has succeeded. -/
structure Result (ι : Type) where
  resolves : Bool
  isCommitted : Bool
  effects : List ι
  deriving DecidableEq, Repr

/-- How a transaction ends: an aborted one is rolled back by its COMMIT, and `begin()` resolves
nevertheless. -/
def closing (breaks : Bool) : Bool × Progress ι → Result ι
  | (true, some es) => ⟨!breaks, !breaks, if breaks then [] else es⟩
  | (true, none) => ⟨true, false, []⟩
  | (false, _) => ⟨false, false, []⟩

/-- The callback runs in a transaction that starts with no effects, unless BEGIN fails. -/
def Callback.transact (cb : Callback ι) (breaks : Breaks) : Option (Result ι) :=
  if breaks.opening then none else some (closing breaks.closing (cb.meaning (some [])))

/-- The session after a transaction. -/
def settle (s : Backend ι) (i : ι) (r : Result ι) : Backend ι := { s with
  durable := s.durable ++ r.effects
  ended := s.ended ++ [(i, r.isCommitted)] }

theorem query_rollback (b : Block ι) (st : TxStatus) (n : Nat) :
    Client.query ⟨base.setBlock b, st, n⟩ i .rollback false
      = (true, ⟨base.finish b false, .idle, n⟩) := by
  unfold Client.query
  cases hf : b.isFailed with
  | false =>
    rw [Backend.exec_within rfl hf]
    rfl
  | true =>
    rw [Backend.exec_afterFailure rfl hf]
    rfl

/-- Where no block is open, ROLLBACK does nothing. -/
theorem query_rollback_alone (b : Block ι) (st : TxStatus) (n : Nat) :
    Client.query ⟨base.finish b false, st, n⟩ i .rollback false
      = (true, ⟨base.finish b false, .idle, n⟩) := rfl

theorem query_commit (es : List ι) (f : Bool) (st : TxStatus) (n : Nat) (breaks : Bool) :
    Client.query ⟨base.setBlock ⟨o, f, es, p⟩, st, n⟩ i .commit breaks
      = (f || !breaks, ⟨base.finish ⟨o, f, es, p⟩ (!f && !breaks), .idle, n⟩) := by
  unfold Client.query
  cases f with
  | false =>
    rw [Backend.exec_within rfl rfl]
    rfl
  | true =>
    rw [Backend.exec_afterFailure rfl rfl]
    rfl

theorem finish_committed (h : base.block = none) (es : List ι) (f r : Bool) :
    base.finish ⟨o, f, es, p⟩ true = settle base o ⟨r, true, es⟩ := by
  unfold Backend.finish settle
  rw [if_pos rfl, ← h]

theorem finish_dropped (h : base.block = none) (es : List ι) (f r : Bool) :
    base.finish ⟨o, f, es, p⟩ false = settle base o ⟨r, false, []⟩ := by
  unfold Backend.finish settle
  rw [if_neg Bool.false_ne_true, List.append_nil, ← h]

/-- COMMIT or ROLLBACK, or a COMMIT that fails and a ROLLBACK that finds no block. -/
theorem close_settles (h : base.block = none) {m : Progress ι} {w : Client ι}
    (hs : Sits base o p m w) (i : ι) (breaks r : Bool) :
    ∃ n, w.close i breaks r =
      ((closing breaks (r, m)).resolves, ⟨settle base o (closing breaks (r, m)), .idle, n⟩) := by
  cases r with
  | false =>
    have hback : ∀ (b : Block ι) (st : TxStatus) (n : Nat),
        Client.close ⟨base.setBlock b, st, n⟩ i breaks false
          = (false, ⟨base.finish b false, .idle, n⟩) := by
      intro b st n
      simp only [Client.close, Bool.false_eq_true, if_false, query_rollback]
    cases hs with
    | underway es n => exact ⟨n, by rw [hback, finish_dropped h]; rfl⟩
    | aborted es n => exact ⟨n, by rw [hback, finish_dropped h]; rfl⟩
  | true =>
    cases hs with
    | aborted es n =>
      refine ⟨n, ?_⟩
      simp only [Client.close, if_true, query_commit, Bool.true_or, Bool.not_true, Bool.false_and]
      rw [finish_dropped h]
      rfl
    | underway es n =>
      refine ⟨n, ?_⟩
      simp only [Client.close, if_true, query_commit, Bool.false_or, Bool.not_false, Bool.true_and]
      cases breaks with
      | false =>
        rw [Bool.not_false, if_pos rfl, finish_committed h]
        rfl
      | true =>
        rw [if_neg (by decide), Bool.not_true, query_rollback_alone, finish_dropped h]
        rfl

end Minipg.Transactions
