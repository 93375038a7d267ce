import Minipg.Js
import Minipg.Lib.Resumption

/-!
# Transactions of the Data API

`begin()` (`src/aurora.ts`) opens a transaction, hands a client of it to the callback and commits
or rolls back; on a client that is in a transaction it makes a savepoint.  The statement that sets
the options is run before the `try`, and a transaction whose options are refused is never ended:
that is the only one (`ended_iff`).
-/

namespace Minipg.Aurora

open Js

variable {τ ε : Type}

/-- `undefined` and the empty string are false. -/
def truthy (s : Option JsString) : Option JsString := s.filter (· ≠ [])

inductive TxOptions
  | text (s : JsString)
  | fields (isolation : Option JsString) (readOnly deferrable : Option Bool)
  deriving DecidableEq, Repr

/-- `if (options)`. -/
def TxOptions.given : Option TxOptions → Option TxOptions
  | some (.text []) => none
  | options => options

/-- `/[a-zA-Z ]/`. -/
def isLetterOrSpace (u : UInt16) : Bool :=
  (0x61 ≤ u ∧ u ≤ 0x7a) ∨ (0x41 ≤ u ∧ u ≤ 0x5a) ∨ u = 0x20

/-- `trim` of a text that has no white space but spaces. -/
def trimSpaces (s : JsString) : JsString :=
  ((s.dropWhile (· = 0x20)).reverse.dropWhile (· = 0x20)).reverse

def beginOptions : TxOptions → JsString
  | .text s => trimSpaces (s.filter isLetterOrSpace)
  | .fields isolation readOnly deferrable =>
    let isolation := (truthy isolation).map (ascii "isolation level " ++ ·)
    let readOnly := readOnly.map fun b => ascii (if b then "read only" else "read write")
    let deferrable := deferrable.map fun b => ascii (if b then "deferrable" else "not deferrable")
    (ascii " ").intercalate (isolation.toList ++ readOnly.toList ++ deferrable.toList)

/-- The state of a client: the transaction it is in, and the counter of its savepoints. -/
structure Client where
  txId : Option JsString := none
  spCounter : Nat := 0
  deriving DecidableEq, Repr

/-- A call of the API; the names of the cluster and the secret, which every call has, are left
out. -/
inductive Api
  | beginTransaction
  | execute (sql : JsString) (transactionId : Option JsString)
  | commitTransaction (transactionId : JsString)
  | rollbackTransaction (transactionId : JsString)
  deriving DecidableEq, Repr

/-- What is awaited: a call, or the callback, which gets a client and does with it what it likes. -/
inductive Op
  | call (api : Api)
  | fn (tx : Client)
  deriving DecidableEq, Repr

def Op.Reply (τ : Type) : Op → Type
  | .call .beginTransaction => JsString
  | .call _ => Unit
  | .fn _ => τ

abbrev Begin (τ ε : Type) := Proc Op (Op.Reply τ) ε

def call (api : Api) : Begin τ ε (Op.Reply τ (Op.call api)) := Proc.ask (Op.call api)

def callback (tx : Client) : Begin τ ε τ := Proc.ask (Op.fn tx)

/-- `client.query(sql)`; it may fail before or after the call as well. -/
def query (client : Client) (sql : JsString) : Begin τ ε Unit :=
  call (.execute sql (truthy client.txId))

def savepointName (n : Nat) : JsString := ascii ("minipg_sp_" ++ toString n)

/-- `begin()` on a client that is in a transaction. -/
def nested (client : Client) : Begin τ ε τ := do
  let client := { client with spCounter := client.spCounter + 1 }
  let sp := savepointName client.spCounter
  query client (ascii "savepoint " ++ sp)
  tryCatch (do
      let r ← callback client
      query client (ascii "release savepoint " ++ sp)
      return r)
    fun e => do
      tryCatch (do
          query client (ascii "rollback to savepoint " ++ sp)
          query client (ascii "release savepoint " ++ sp))
        fun _ => return ()
      throw e

/-- The `try` of `runTx`. -/
def attempt (tx : Client) (transactionId : JsString) : Begin τ ε τ := do
  let r ← callback tx
  call (.commitTransaction transactionId)
  return r

/-- Its `catch`. -/
def undo (transactionId : JsString) (e : ε) : Begin τ ε τ := do
  tryCatch (call (.rollbackTransaction transactionId)) fun _ => return ()
  throw e

def runTx (client : Client) (options : Option TxOptions) : Begin τ ε τ :=
  match truthy client.txId with
  | some _ => nested client
  | none => do
    let transactionId ← call .beginTransaction
    let tx : Client := ⟨some transactionId, 0⟩
    match TxOptions.given options with
    | some options => query tx (ascii "set transaction " ++ beginOptions options)
    | none => pure ()
    tryCatch (attempt tx transactionId) (undo transactionId)

/-! ### Ends -/

abbrev Answered (τ ε : Type) := Answer Op (Op.Reply τ) ε

variable {client : Client} {options : Option TxOptions} {tr : List (Answered τ ε)}
  {out : Except ε τ} {id : JsString}

def began (id : JsString) : Answered τ ε := ⟨.call .beginTransaction, .ok id⟩

def commits (id : JsString) (r : Except ε Unit) : Answered τ ε := ⟨.call (.commitTransaction id), r⟩

def rollsBack (id : JsString) (r : Except ε Unit) : Answered τ ε :=
  ⟨.call (.rollbackTransaction id), r⟩

def sets (id : JsString) (sql : JsString) (r : Except ε Unit) : Answered τ ε :=
  ⟨.call (.execute sql (truthy (some id))), r⟩

/-- An attempt to end a transaction. -/
def Op.isEnding : Op → Bool
  | .call (.commitTransaction _) | .call (.rollbackTransaction _) => true
  | _ => false

def endings (tr : List (Answered τ ε)) : List (Answered τ ε) := tr.filter (·.op.isEnding)

def Failed (a : Answered τ ε) : Prop := ∃ e, a.reply = .error e

/-- How the transaction `id` ends in what follows its beginning: with one commit and nothing that
failed, or after a failure with a rollback, which comes last. -/
def Closed (id : JsString) (after : List (Answered τ ε)) (out : Except ε τ) : Prop :=
  (endings after = [commits id (.ok ())] ∧ (∀ a ∈ after, ¬Failed a) ∧ ∃ v, out = .ok v) ∨
  ((∃ a ∈ after, Failed a) ∧ (∃ e, out = .error e) ∧
    ∃ r, endings after = [rollsBack id r] ∨
      ∃ e, endings after = [commits id (.error e), rollsBack id r])

/-- Every transaction that was opened is ended, and a result is one that was committed. -/
structure Ended (client : Client) (tr : List (Answered τ ε)) (out : Except ε τ) : Prop where
  closed : ∀ before id after, tr = before ++ began id :: after → Closed id after out
  committed : truthy client.txId = none → ∀ v, out = .ok v →
    ∃ id, began id ∈ tr ∧ commits id (.ok ()) ∈ tr

/-- The options of the transaction that has begun are refused. -/
def OptionsRefused (tr : List (Answered τ ε)) : Prop :=
  ∃ id sql e, [began id, sets id sql (.error e)] <+: tr

/-! ### Runs -/

theorem attempt_runs {tx : Client} (h : ((attempt tx id).handle (undo id)).Runs tr out) :
    (∃ v, out = .ok v ∧ tr = [⟨.fn tx, .ok v⟩, commits id (.ok ())]) ∨
    (∃ e r, out = .error e ∧ tr = [⟨.fn tx, .error e⟩, rollsBack id r]) ∨
    ∃ v e r, out = .error e ∧ tr = [⟨.fn tx, .ok v⟩, commits id (.error e), rollsBack id r] := by
  rcases Proc.runs_handle.mp h with ⟨v, rfl, hbody⟩ | ⟨e, t, t', rfl, hbody, hcatch⟩
  · rcases Proc.runs_ask_bind.mp hbody with ⟨e, -, he⟩ | ⟨v', rest, rfl, hcommit⟩
    · cases he
    rcases Proc.runs_ask_bind.mp hcommit with ⟨e, -, he⟩ | ⟨⟨⟩, rest, rfl, hdone⟩
    · cases he
    obtain ⟨rfl, hv⟩ := Proc.runs_settled.mp hdone
    cases hv
    exact .inl ⟨v, rfl, rfl⟩
  · obtain ⟨⟨r, rfl⟩, rfl⟩ := Proc.runs_cleanup.mp hcatch
    rcases Proc.runs_ask_bind.mp hbody with ⟨e', rfl, he⟩ | ⟨v', rest, rfl, hcommit⟩
    · cases he
      exact .inr (.inl ⟨e, r, rfl, rfl⟩)
    rcases Proc.runs_ask_bind.mp hcommit with ⟨e', rfl, he⟩ | ⟨⟨⟩, rest, rfl, hdone⟩
    · cases he
      exact .inr (.inr ⟨v', e, r, rfl, rfl⟩)
    · cases (Proc.runs_settled.mp hdone).2

/-- In a transaction none is begun. -/
theorem nested_only (client : Client) :
    (nested client : Begin τ ε τ).Only (· ≠ .call .beginTransaction) := by
  have hquery : ∀ (c : Client) sql,
      (query c sql : Begin τ ε Unit).Only (· ≠ .call .beginTransaction) := by
    intro c sql
    refine .ask ?_
    rintro ⟨⟩
  have hfn : ∀ c, (callback c : Begin τ ε τ).Only (· ≠ .call .beginTransaction) := by
    intro c
    refine .ask ?_
    rintro ⟨⟩
  refine (hquery _ _).bind fun _ => Proc.Only.handle ?_ fun e => ?_
  · exact (hfn _).bind fun _ => (hquery _ _).bind fun _ => .settled _
  · refine Proc.Only.bind (Proc.Only.handle ?_ fun _ => .settled _) fun _ => .settled _
    exact (hquery _ _).bind fun _ => hquery _ _

/-- What follows the beginning of a transaction outside the `try`. -/
theorem attempt_closed {tx : Client} (h : ((attempt tx id).handle (undo id)).Runs tr out) :
    Closed id tr out ∧ (∀ v, out = .ok v → commits id (.ok ()) ∈ tr) ∧
      ∀ a ∈ tr, a.op ≠ .call .beginTransaction := by
  rcases attempt_runs h with ⟨v, rfl, rfl⟩ | ⟨e, r, rfl, rfl⟩ | ⟨v, e, r, rfl, rfl⟩
  · refine ⟨.inl ⟨rfl, ?_, v, rfl⟩, fun _ _ => by simp, by simp [commits]⟩
    simp [commits, Failed]
  · refine ⟨.inr ⟨⟨_, List.mem_cons_self, e, rfl⟩, ⟨e, rfl⟩, r, .inl rfl⟩, ?_, by simp [rollsBack]⟩
    rintro _ ⟨⟩
  · refine ⟨.inr ⟨⟨commits id (.error e), by simp, e, rfl⟩, ⟨e, rfl⟩, r, .inr ⟨e, rfl⟩⟩, ?_,
      by simp [commits, rollsBack]⟩
    rintro _ ⟨⟩

/-- What a transaction does after it has begun. -/
def inside (options : Option TxOptions) (id : JsString) : Begin τ ε τ := do
  match TxOptions.given options with
  | some options => query ⟨some id, 0⟩ (ascii "set transaction " ++ beginOptions options)
  | none => pure ()
  tryCatch (attempt ⟨some id, 0⟩ id) (undo id)

theorem sets_reply {sql sql' : JsString} {r r' : Except ε Unit}
    (h : (sets id sql r : Answered τ ε) = sets id sql' r') : r = r' := by
  unfold sets at h
  injection h

theorem inside_runs (h : (inside options id).Runs tr out) :
    (∃ sql e, tr = [sets id sql (.error e)] ∧ out = .error e) ∨
    (∃ sql rest, tr = sets id sql (.ok ()) :: rest ∧
      ((attempt ⟨some id, 0⟩ id).handle (undo id)).Runs rest out) ∨
    ((attempt ⟨some id, 0⟩ id).handle (undo id)).Runs tr out := by
  unfold inside at h
  cases ho : TxOptions.given options with
  | none =>
    rw [ho] at h
    exact .inr (.inr h)
  | some o =>
    rw [ho] at h
    rcases Proc.runs_ask_bind.mp h with ⟨e, rfl, rfl⟩ | ⟨⟨⟩, rest, rfl, hrest⟩
    · exact .inl ⟨_, e, rfl, rfl⟩
    · exact .inr (.inl ⟨_, rest, rfl, hrest⟩)

theorem inside_only (h : (inside options id).Runs tr out) :
    ∀ a ∈ tr, a.op ≠ .call .beginTransaction := by
  rcases inside_runs h with ⟨sql, e, rfl, -⟩ | ⟨sql, rest, rfl, hrest⟩ | hrest
  · simp [sets]
  · intro a ha
    rcases List.mem_cons.mp ha with rfl | ha
    · rintro ⟨⟩
    · exact (attempt_closed hrest).2.2 a ha
  · exact (attempt_closed hrest).2.2

/-- The transaction is ended unless its options are refused. -/
theorem inside_closed (h : (inside options id).Runs tr out) :
    ((Closed id tr out ∧ ∀ v, out = .ok v → commits id (.ok ()) ∈ tr) ↔
      ∀ sql e rest, tr ≠ sets id sql (.error e) :: rest) := by
  rcases inside_runs h with ⟨sql, e, rfl, rfl⟩ | ⟨sql, rest, rfl, hrest⟩ | hrest
  · refine ⟨?_, fun hno => absurd rfl (hno sql e [])⟩
    rintro ⟨hclosed, -⟩
    rcases hclosed with ⟨-, -, v, hv⟩ | ⟨-, -, r, hr | ⟨e', hr⟩⟩
    · cases hv
    · cases hr
    · cases hr
  · obtain ⟨hclosed, hcommit, -⟩ := attempt_closed hrest
    refine ⟨?_, fun _ => ⟨?_, fun v hv => List.mem_cons_of_mem _ (hcommit v hv)⟩⟩
    · rintro - sql' e rest' heq
      cases sets_reply (List.cons.inj heq).1
    · rcases hclosed with ⟨hends, hok, hv⟩ | ⟨⟨a, ha, hfail⟩, he, hends⟩
      · refine .inl ⟨hends, fun a ha => ?_, hv⟩
        rcases List.mem_cons.mp ha with rfl | ha
        · rintro ⟨e, ⟨⟩⟩
        · exact hok a ha
      · exact .inr ⟨⟨a, List.mem_cons_of_mem _ ha, hfail⟩, he, hends⟩
  · obtain ⟨hclosed, hcommit, -⟩ := attempt_closed hrest
    refine ⟨?_, fun _ => ⟨hclosed, hcommit⟩⟩
    rintro - sql e rest rfl
    rcases attempt_runs hrest with ⟨v, -, heq⟩ | ⟨e', r, -, heq⟩ | ⟨v, e', r, -, heq⟩
    · cases congrArg Answer.op (List.cons.inj heq).1
    · cases congrArg Answer.op (List.cons.inj heq).1
    · cases congrArg Answer.op (List.cons.inj heq).1

theorem runTx_runs (h : (runTx client options).Runs tr out) :
    (truthy client.txId ≠ none ∧ (nested client).Runs tr out) ∨
    (truthy client.txId = none ∧
      ((∃ e, tr = [⟨.call .beginTransaction, .error e⟩] ∧ out = .error e) ∨
        ∃ id rest, tr = began id :: rest ∧ (inside options id).Runs rest out)) := by
  unfold runTx at h
  cases hc : truthy client.txId with
  | some id =>
    rw [hc] at h
    exact .inl ⟨Option.some_ne_none id, h⟩
  | none =>
    rw [hc] at h
    exact .inr ⟨rfl, Proc.runs_ask_bind.mp h⟩

/-- **Every transaction that is opened is ended** before `begin()` settles, which gives a result
only after a commit, exactly when its options are not refused. -/
theorem ended_iff (h : (runTx client options).Runs tr out) :
    Ended client tr out ↔ ¬OptionsRefused tr := by
  rcases runTx_runs h with ⟨hc, hn⟩ | ⟨hc, ⟨e, rfl, rfl⟩ | ⟨id, rest, rfl, hin⟩⟩
  · have hnone := (nested_only client).of_runs hn
    refine ⟨fun _ => ?_, fun _ => ⟨?_, fun hnot => absurd hnot hc⟩⟩
    · rintro ⟨id, sql, e, t, rfl⟩
      exact hnone (began id) (by simp) rfl
    · rintro before id after rfl
      exact absurd rfl (hnone (began id) (by simp))
  · refine ⟨fun _ => ?_, fun _ => ⟨?_, fun _ => ?_⟩⟩
    · rintro ⟨id, sql, e', t, heq⟩
      cases heq
    · rintro before id after heq
      cases before with
      | nil => cases heq
      | cons a before => cases before <;> cases (List.cons.inj heq).2
    · rintro v ⟨⟩
  · have hclosed := inside_closed hin
    have hrefused : OptionsRefused (began id :: rest) ↔
        ∃ sql e rest', rest = sets id sql (.error e) :: rest' := by
      constructor
      · rintro ⟨id', sql, e, t, heq⟩
        obtain ⟨hid, hrest⟩ := List.cons.inj heq
        cases hid
        exact ⟨sql, e, t, hrest.symm⟩
      · rintro ⟨sql, e, rest', rfl⟩
        exact ⟨id, sql, e, rest', rfl⟩
    have hended : Ended client (began id :: rest) out ↔
        Closed id rest out ∧ ∀ v, out = .ok v → commits id (.ok ()) ∈ rest := by
      constructor
      · rintro ⟨hall, hv⟩
        refine ⟨hall [] id rest rfl, fun v hout => ?_⟩
        obtain ⟨id', hb, hm⟩ := hv hc v hout
        rcases List.mem_cons.mp hm with heq | hm
        · cases congrArg Answer.op heq
        rcases List.mem_cons.mp hb with heq | hb
        · cases heq
          exact hm
        · exact absurd rfl (inside_only hin _ hb)
      · rintro ⟨hcl, hv⟩
        refine ⟨?_, fun _ v hout => ⟨id, List.mem_cons_self, List.mem_cons_of_mem _ (hv v hout)⟩⟩
        intro before id' after heq
        cases before with
        | nil =>
          cases heq
          exact hcl
        | cons a before =>
          have hmem : began id' ∈ rest := by
            rw [(List.cons.inj heq).2]
            simp
          exact absurd rfl (inside_only hin _ hmem)
    rw [hended, hclosed, hrefused]
    push Not
    rfl

/-- A run whose commit fails, and is followed by a rollback. -/
def commitFails : List (Answered Nat Unit) :=
  [began [0x74], ⟨.fn ⟨some [0x74], 0⟩, .ok (5 : Nat)⟩, commits [0x74] (.error ()),
    rollsBack [0x74] (.ok ())]

theorem commitFails_ended :
    (runTx {} none : Begin Nat Unit Nat).Runs commitFails (.error ()) ∧
      ¬OptionsRefused commitFails ∧ Ended {} commitFails (.error ()) := by
  have hruns : (runTx {} none : Begin Nat Unit Nat).Runs commitFails (.error ()) :=
    .awaits _ (.awaits _ (.awaits _ (.awaits _ (.settled _))))
  have hno : ¬OptionsRefused commitFails := by
    rintro ⟨id, sql, e, t, heq⟩
    cases congrArg Answer.op (List.cons.inj (List.cons.inj heq).2).1
  exact ⟨hruns, hno, (ended_iff hruns).mpr hno⟩

/-- A run of `begin({ isolation: 'serializable' }, fn)` in which SET TRANSACTION fails. -/
def setFails : List (Answered Nat Unit) :=
  [began [0x74], sets [0x74] (ascii "set transaction isolation level serializable") (.error ())]

/-- The transaction stays open: neither a commit nor a rollback is attempted. -/
theorem setFails_not_ended :
    (runTx {} (some (.fields (some (ascii "serializable")) none none)) : Begin Nat Unit Nat).Runs
      setFails (.error ()) ∧ endings setFails = [] ∧ ¬Ended {} setFails (.error ()) := by
  refine ⟨.awaits _ (.awaits _ (.settled _)), rfl, fun h => ?_⟩
  rcases h.closed [] [0x74] _ rfl with ⟨hends, -⟩ | ⟨-, -, r, hends | ⟨e, hends⟩⟩
  · cases hends
  · cases hends
  · cases hends

end Minipg.Aurora
