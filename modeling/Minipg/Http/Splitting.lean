import Minipg.Http.Elision

/-!
# The results of a response

A response to `batch` or `pipeline` (`src/http.ts`) is one list of messages for all statements:
what a statement has been answered with ends with its CommandComplete, EmptyQueryResponse or
ErrorResponse, and an ErrorResponse after the last of them is one of the COMMIT.  `split` finds the
answers again (`split_answers`).
-/

namespace Minipg.Http

/-- What the answer to a statement ends with. -/
inductive Ending
  | commandComplete (tag : String)
  | emptyQuery
  | errorResponse (e : JsError)
  deriving DecidableEq, Repr

def Ending.message : Ending → Message
  | .commandComplete tag => .commandComplete tag
  | .emptyQuery => .emptyQuery
  | .errorResponse e => .errorResponse e

/-- The error of the statement. -/
def Ending.error : Ending → Option JsError
  | .errorResponse e => some e
  | _ => none

def Ending.command : Ending → Option String
  | .commandComplete tag => some (commandWord tag)
  | _ => none

def Ending.rowCount : Ending → Option Nat
  | .commandComplete tag => commandCount tag
  | _ => none

/-- What a statement is answered with; the RowDescription, its frame and what is read of it, may be
left out. -/
structure Answer where
  described : Option (Bytes × List Field) := none
  rows : List Bytes := []
  ending : Ending
  deriving DecidableEq, Repr

namespace Answer

def description (a : Answer) : List Message :=
  a.described.toList.map fun d => .rowDescription d.1 (some d.2)

def messages (a : Answer) : List Message :=
  a.description ++ a.rows.map .dataRow ++ [a.ending.message]

/-- The result of the statement. -/
def result (a : Answer) : RawResult where
  fields := a.described.map Prod.snd
  rows := a.rows
  command := a.ending.command
  rowCount := a.ending.rowCount
  error := a.ending.error

/-- What the answer to `sql` leaves in the cache. -/
def harvested (a : Answer) (sql : String) (cache : Cache) : Cache :=
  match a.described with
  | some (frame, fields) => Function.update cache sql (some ⟨fnv1a64 frame, fields⟩)
  | none => cache

end Answer

/-- The cache after the answers to the statements. -/
def harvestedAll (answers : List (String × Answer)) (cache : Cache) : Cache :=
  answers.foldl (fun cache a => a.2.harvested a.1 cache) cache

/-- The messages of a response. -/
def response (answers : List (String × Answer)) (trailing : Option JsError) : List Message :=
  answers.flatMap (fun a => a.2.messages) ++ trailing.toList.map .errorResponse

variable {sqls : List String} {st st' : Split}

theorem split_cons {m : Message} (h : st.step sqls m = .ok st') (msgs : List Message) :
    split sqls (m :: msgs) st = split sqls msgs st' := by
  rw [split, h]

/-- The rows of an answer. -/
theorem split_rows (rows : List Bytes) (msgs : List Message) : ∀ st : Split,
    split sqls (rows.map .dataRow ++ msgs) st =
      split sqls msgs { st with cur := { st.cur with rows := st.cur.rows ++ rows } } := by
  induction rows with
  | nil =>
    intro st
    simp
  | cons row rows ih =>
    intro st
    rw [List.map_cons, List.cons_append, split_cons (by rfl), ih]
    simp

/-- What an answer ends with. -/
theorem split_ending (ending : Ending) (hlen : st.results.length < sqls.length)
    (hcur : st.cur.error = none ∧ st.cur.command = none ∧ st.cur.rowCount = none)
    (msgs : List Message) : split sqls (ending.message :: msgs) st =
      split sqls msgs (st.push { st.cur with
        command := ending.command, rowCount := ending.rowCount, error := ending.error }) := by
  obtain ⟨herror, hcommand, hcount⟩ := hcur
  cases ending with
  | commandComplete tag =>
    apply split_cons
    simp [Ending.message, Split.step, Ending.command, Ending.rowCount, Ending.error, ← herror]
  | emptyQuery =>
    apply split_cons
    simp [Ending.message, Split.step, Ending.command, Ending.rowCount, Ending.error, ← herror,
      ← hcommand, ← hcount]
  | errorResponse e =>
    apply split_cons
    have hnot : ¬ st.results.length ≥ sqls.length := Nat.not_le_of_lt hlen
    simp [Ending.message, Split.step, hnot, Ending.command, Ending.rowCount, Ending.error,
      ← hcommand, ← hcount]

/-- The answer to the statement that comes next. -/
theorem split_answer {sql : String} (a : Answer) (hsql : sqls[st.results.length]? = some sql)
    (hcur : st.cur = {}) (msgs : List Message) : split sqls (a.messages ++ msgs) st =
      split sqls msgs { st with
        cache := a.harvested sql st.cache, results := st.results ++ [a.result], cur := {} } := by
  obtain ⟨cache, results, cur, trailing⟩ := st
  obtain rfl : cur = {} := hcur
  have hlen : results.length < sqls.length := (List.getElem?_eq_some_iff.mp hsql).1
  obtain ⟨described, rows, ending⟩ := a
  cases described with
  | none =>
    simp only [Answer.messages, Answer.description, Option.toList_none, List.map_nil,
      List.nil_append, List.append_assoc, List.singleton_append]
    rw [split_rows, split_ending _ hlen ⟨rfl, rfl, rfl⟩]
    rfl
  | some d =>
    simp only [Answer.messages, Answer.description, Option.toList_some, List.map_cons,
      List.map_nil, List.cons_append, List.nil_append, List.append_assoc]
    rw [split_cons (by rfl), split_rows, split_ending _ hlen ⟨rfl, rfl, rfl⟩]
    simp only [Split.harvest, hsql]
    rfl

/-- The answers to the statements that come next. -/
theorem split_all (answers : List (String × Answer)) (msgs : List Message) :
    ∀ st : Split, sqls.drop st.results.length = answers.map Prod.fst → st.cur = {} →
      split sqls (answers.flatMap (fun a => a.2.messages) ++ msgs) st =
        split sqls msgs { st with
          cache := harvestedAll answers st.cache
          results := st.results ++ answers.map fun a => a.2.result
          cur := {} } := by
  induction answers with
  | nil =>
    intro st _ hcur
    obtain ⟨cache, results, cur, trailing⟩ := st
    obtain rfl : cur = {} := hcur
    simp [harvestedAll]
  | cons a answers ih =>
    intro st hdrop hcur
    have hsql : sqls[st.results.length]? = some a.1 := by
      rw [← List.head?_drop, hdrop]
      rfl
    have hrest : sqls.drop (st.results.length + 1) = answers.map Prod.fst := by
      rw [← List.drop_drop, hdrop]
      rfl
    rw [List.flatMap_cons, List.append_assoc, split_answer a.2 hsql hcur, ih _ ?_ rfl]
    · simp [harvestedAll]
    · simpa using hrest

/-- An ErrorResponse after the answers to all statements is none of a statement. -/
theorem split_trailing (trailing : Option JsError) (hlen : sqls.length ≤ st.results.length) :
    split sqls (trailing.toList.map .errorResponse) st =
      ({ st with trailing := trailing.or st.trailing }, none) := by
  cases trailing with
  | none => rfl
  | some e =>
    have hstep : st.step sqls (.errorResponse e) = .ok { st with trailing := some e } := if_pos hlen
    exact split_cons hstep []

/-- **The answers are found again**: for any statements and whatever each is answered with, there is
a result for each of them, in their order, an error is in the result of the statement that it has
ended, and `trailing` is the ErrorResponse after the last answer if there is one. -/
theorem split_answers (cache : Cache) (answers : List (String × Answer))
    (trailing : Option JsError) :
    split (answers.map Prod.fst) (response answers trailing) { cache := cache } =
      ({ cache := harvestedAll answers cache
         results := answers.map fun a => a.2.result
         trailing := trailing }, none) := by
  rw [response, split_all answers _ _ rfl rfl, split_trailing trailing (by simp)]
  simp

/-- Of any messages, only an ErrorResponse after as many results as there are statements is reported
as trailing. -/
theorem trailing_late {e : JsError} (msgs : List Message) : ∀ st : Split, st.trailing = none →
    (split sqls msgs st).1.trailing = some e →
    ∃ before after, msgs = before ++ .errorResponse e :: after ∧
      sqls.length ≤ (split sqls before st).1.results.length := by
  suffices hgen : ∀ st : Split, (split sqls msgs st).1.trailing = some e →
      st.trailing = some e ∨ ∃ before after, msgs = before ++ .errorResponse e :: after ∧
        sqls.length ≤ (split sqls before st).1.results.length by
    intro st hnone h
    refine (hgen st h).resolve_left fun hsome => ?_
    rw [hnone] at hsome
    cases hsome
  induction msgs with
  | nil => exact fun st h => .inl h
  | cons m msgs ih =>
    intro st h
    cases hs : st.step sqls m with
    | error thrown =>
      rw [split, hs] at h
      exact .inl h
    | ok st' =>
      rw [split_cons hs] at h
      rcases ih st' h with hnow | ⟨before, after, rfl, hlen⟩
      · cases m with
        | rowDescription frame fields =>
          cases fields with
          | none => cases hs
          | some fields =>
            cases hs
            exact .inl hnow
        | errorResponse e' =>
          by_cases hlen : st.results.length ≥ sqls.length
          · rw [Split.step, if_pos hlen] at hs
            cases hs
            cases hnow
            exact .inr ⟨[], msgs, rfl, hlen⟩
          · rw [Split.step, if_neg hlen] at hs
            cases hs
            exact .inl hnow
        | connectionLevel => cases hs
        | _ =>
          cases hs
          exact .inl hnow
      · exact .inr ⟨m :: before, after, rfl, by rwa [split_cons hs]⟩

/-! ### The calls -/

/-- What a statement of a pipeline settles with. -/
def Answer.outcome (a : Answer) (sql : String) (cache : Cache) : Except JsError Decoded :=
  decode cache a.result sql

/-- `pipeline` settles with the outcome of every statement. -/
theorem pipeline_answers (cache : Cache) (answers : List (String × Answer)) :
    settle .pipeline (answers.map Prod.fst)
        (split (answers.map Prod.fst) (response answers none) { cache := cache }).1 =
      .ok (answers.map fun a => a.2.outcome a.1 (harvestedAll answers cache)) := by
  rw [split_answers]
  simp [settle, List.zipWith_map, List.zipWith_self, Answer.outcome]

/-- `batch` rejects with the first error of a statement, else with that of the COMMIT. -/
theorem batch_answers_error {e : JsError} (cache : Cache) (answers : List (String × Answer))
    (trailing : Option JsError)
    (he : (answers.findSome? fun a => a.2.ending.error).or trailing = some e) :
    settle .batch (answers.map Prod.fst)
        (split (answers.map Prod.fst) (response answers trailing) { cache := cache }).1 =
      .error e := by
  rw [split_answers]
  have hfirst : (answers.map fun a => a.2.result).findSome? RawResult.error =
      answers.findSome? fun a => a.2.ending.error := by
    rw [List.findSome?_map]
    rfl
  simp only [settle, hfirst, he]

end Minipg.Http
