import Minipg.Protocol
import Mathlib.Logic.Function.Basic

/-!
# Descriptors that the gateway leaves out

An `HttpClient` (`src/http.ts`) sends with a statement the hash of the RowDescription that it has
seen of it last, and the gateway may leave an unchanged RowDescription out.  A response is decoded
with what the cache holds when the response arrives, which is the last description that a response
to any request has brought (`elided_iff`).
-/

namespace Minipg.Http

/-- FNV-1a over a frame; the text that is sent has the hexadecimal digits of it. -/
def fnv1a64 (frame : Bytes) : UInt64 :=
  frame.foldl (fun h b => (h ^^^ b.toUInt64) * 0x100000001b3) 0xcbf29ce484222325

/-- An entry of the cache. -/
structure Desc where
  hash : UInt64
  fields : List Field
  deriving DecidableEq, Repr

abbrev Cache := String → Option Desc

/-- A message of a response.  The fields of a RowDescription are `none` where it is too short to be
read; `connectionLevel` are R, K, S and Z, and `ignored` are n, s and the unknown types. -/
inductive Message
  | rowDescription (frame : Bytes) (fields : Option (List Field))
  | dataRow (body : Bytes)
  | commandComplete (tag : String)
  | emptyQuery
  | errorResponse (e : JsError)
  | ignored
  | connectionLevel (type : Char)
  deriving DecidableEq, Repr

def Message.isRowDescription : Message → Bool
  | .rowDescription .. => true
  | _ => false

structure RawResult where
  fields : Option (List Field) := none
  rows : List Bytes := []
  command : Option String := none
  rowCount : Option Nat := none
  error : Option JsError := none
  deriving DecidableEq, Repr

/-- The variables of `split`, and the cache that it writes to. -/
structure Split where
  cache : Cache
  results : List RawResult := []
  cur : RawResult := {}
  trailing : Option JsError := none

def Split.push (st : Split) (r : RawResult) : Split :=
  { st with results := st.results ++ [r], cur := {} }

/-- What a RowDescription is harvested for. -/
def Split.harvest (sqls : List String) (st : Split) (d : Desc) : Cache :=
  match sqls[st.results.length]? with
  | some sql => Function.update st.cache sql (some d)
  | none => st.cache

/-- The `RangeError` of a reader that runs out of the body. -/
def tooShort : JsError := { code := some "ERR_OUT_OF_RANGE" }

def refused (type : Char) : JsError :=
  jsError ("minipg/http: connection-level frame '" ++ type.toString ++
    "' in the response — the gateway must never forward it; refusing to parse")

def Split.step (sqls : List String) (st : Split) : Message → Except JsError Split
  | .rowDescription _ none => .error tooShort
  | .rowDescription frame (some fields) => .ok { st with
      cur := { st.cur with fields := some fields }
      cache := st.harvest sqls ⟨fnv1a64 frame, fields⟩ }
  | .dataRow body => .ok { st with cur := { st.cur with rows := st.cur.rows ++ [body] } }
  | .commandComplete tag => .ok (st.push { st.cur with
      command := some (commandWord tag), rowCount := commandCount tag })
  | .emptyQuery => .ok (st.push st.cur)
  | .errorResponse e =>
    if st.results.length ≥ sqls.length then .ok { st with trailing := some e }
    else .ok (st.push { st.cur with error := some e })
  | .ignored => .ok st
  | .connectionLevel type => .error (refused type)

/-- `split`: the results, or what it throws; the cache keeps what was written to it. -/
def split (sqls : List String) : List Message → Split → Split × Option JsError
  | [], st => (st, none)
  | m :: msgs, st =>
    match st.step sqls m with
    | .ok st => split sqls msgs st
    | .error e => (st, some e)

/-- A decoded result, with the descriptor that its rows are decoded by. -/
structure Decoded where
  fields : Option (List Field)
  rows : List Bytes
  command : Option String
  rowCount : Option Nat
  deriving DecidableEq, Repr

def desync : JsError :=
  jsError ("minipg/http: rows arrived with no RowDescription and no cached descriptor — desc " ++
    "elision desync (the gateway omitted T for a statement this client never saw)")

/-- `decode`, up to the mapping of the rows. -/
def decode (cache : Cache) (r : RawResult) (sql : String) : Except JsError Decoded :=
  match r.error with
  | some e => .error e
  | none =>
    match r.fields.or ((cache sql).map Desc.fields) with
    | none => if r.rows ≠ [] then .error desync else .ok ⟨none, [], r.command, r.rowCount⟩
    | some fields => .ok ⟨some fields, r.rows, r.command, r.rowCount⟩

/-! ### The calls -/

inductive Method
  | query
  | batch
  | pipeline
  deriving DecidableEq, Repr

/-- What a call settles with: an error, or the outcome of each statement. -/
abbrev Outcome := Except JsError (List (Except JsError Decoded))

/-- A call whose request has been sent; `sent` is the descriptor whose hash went with it. -/
structure Request where
  method : Method
  sqls : List String
  sent : Option Desc := none
  outcome : Option Outcome := none

structure Client where
  sendDesc : Bool := true
  descCache : Cache := fun _ => none
  requests : List Request := []

/-- The error of a response with too few or too many results. -/
def miscounted : Method → Nat → Nat → JsError
  | .query, _, results => jsError ("minipg/http: expected 1 result, got " ++ toString results ++
      " — refusing to mis-attribute")
  | _, statements, results => jsError ("minipg/http: " ++ toString statements ++
      " statements but " ++ toString results ++ " results — refusing to mis-attribute")

/-- The results of a request, decoded. -/
def settle (method : Method) (sqls : List String) (st : Split) : Outcome :=
  let decoded := st.results.zipWith (decode st.cache) sqls
  match method with
  | .query =>
    match st.trailing with
    | some e => .error e
    | none =>
      if st.results.length ≠ 1 then .error (miscounted method sqls.length st.results.length)
      else decoded.mapM fun d => d.map .ok
  | .batch =>
    match (st.results.findSome? RawResult.error).or st.trailing with
    | some e => .error e
    | none =>
      if st.results.length ≠ sqls.length then
        .error (miscounted method sqls.length st.results.length)
      else decoded.mapM fun d => d.map .ok
  | .pipeline =>
    match st.trailing with
    | some e => .error e
    | none =>
      if st.results.length ≠ sqls.length then
        .error (miscounted method sqls.length st.results.length)
      else .ok decoded

/-- What can happen: calls are made, and their requests are answered or fail, in any order. -/
inductive Event
  | query (sql : String)
  | batch (sqls : List String)
  | pipeline (sqls : List String)
  | response (i : Nat) (msgs : List Message)
  | failed (i : Nat) (e : JsError)

namespace Client

def send (c : Client) (r : Request) : Client := { c with requests := c.requests ++ [r] }

/-- `this.sendDesc ? this.descCache.get(sql) : undefined`. -/
def cached (c : Client) (sql : String) : Option Desc :=
  if c.sendDesc then c.descCache sql else none

def settled (c : Client) (i : Nat) (r : Request) (o : Outcome) : Client :=
  { c with requests := c.requests.set i { r with outcome := some o } }

/-- The response of the request `i`, which has not been answered before. -/
def receive (c : Client) (i : Nat) (r : Request) (msgs : List Message) : Client :=
  let (st, thrown) := split r.sqls msgs { cache := c.descCache }
  { c with descCache := st.cache }.settled i r
    (match thrown with
      | some e => .error e
      | none => settle r.method r.sqls st)

def pending (c : Client) (i : Nat) : Option Request :=
  (c.requests[i]?).filter fun r => r.outcome.isNone

def step (c : Client) : Event → Client
  | .query sql => c.send { method := .query, sqls := [sql], sent := c.cached sql }
  | .batch sqls => c.send { method := .batch, sqls := sqls }
  | .pipeline sqls => c.send { method := .pipeline, sqls := sqls }
  | .response i msgs =>
    match c.pending i with
    | some r => c.receive i r msgs
    | none => c
  | .failed i e =>
    match c.pending i with
    | some r => c.settled i r (.error e)
    | none => c

def run (c : Client) (es : List Event) : Client := es.foldl step c

end Client

/-! ### The last description -/

/-- The description of `sql` in a message. -/
def describes (sqls : List String) (sql : String) (st : Split) : Message → Option Desc
  | .rowDescription frame (some fields) =>
    if sqls[st.results.length]? = some sql then some ⟨fnv1a64 frame, fields⟩ else none
  | _ => none

/-- The last description of `sql` in the messages of a response. -/
def describedIn (sqls : List String) (sql : String) : List Message → Split → Option Desc
  | [], _ => none
  | m :: msgs, st =>
    match st.step sqls m with
    | .error _ => none
    | .ok st' => (describedIn sqls sql msgs st').or (describes sqls sql st m)

/-- The last description of `sql` that an event brings. -/
def brings (sql : String) (c : Client) : Event → Option Desc
  | .response i msgs =>
    (c.pending i).bind fun r => describedIn r.sqls sql msgs { cache := c.descCache }
  | _ => none

/-- The last description of `sql` that a response has brought in a run from `c`. -/
def lastDescribed (sql : String) (c : Client) : List Event → Option Desc
  | [] => none
  | e :: es => (lastDescribed sql (c.step e) es).or (brings sql c e)

variable {sqls : List String} {sql : String} {st st' : Split} {c : Client}

/-- What one message harvests. -/
theorem step_cache {m : Message} (h : st.step sqls m = .ok st') :
    st'.cache sql = (describes sqls sql st m).or (st.cache sql) := by
  cases m with
  | rowDescription frame fields =>
    cases fields with
    | none => cases h
    | some fields =>
      cases h
      show st.harvest sqls ⟨fnv1a64 frame, fields⟩ sql =
        (if sqls[st.results.length]? = some sql then some _ else none).or (st.cache sql)
      unfold Split.harvest
      cases hq : sqls[st.results.length]? with
      | none => simp
      | some q =>
        by_cases hs : q = sql
        · simp [hs]
        · simp [hs, Function.update_of_ne (Ne.symm hs)]
  | errorResponse e =>
    simp only [Split.step] at h
    split at h <;> cases h <;> rfl
  | connectionLevel => cases h
  | _ =>
    cases h
    rfl

theorem split_cache (msgs : List Message) : ∀ st : Split,
    (split sqls msgs st).1.cache sql = (describedIn sqls sql msgs st).or (st.cache sql) := by
  induction msgs with
  | nil => exact fun _ => rfl
  | cons m msgs ih =>
    intro st
    cases hs : st.step sqls m with
    | error e => simp only [split, describedIn, hs, Option.none_or]
    | ok st' =>
      simp only [split, describedIn, hs]
      rw [ih st', step_cache hs, Option.or_assoc]

/-- What a call makes of the cache. -/
theorem step_descCache (c : Client) (e : Event) :
    (c.step e).descCache sql = (brings sql c e).or (c.descCache sql) := by
  cases e with
  | response i msgs =>
    simp only [Client.step, brings]
    cases hp : c.pending i with
    | none => rfl
    | some r => exact split_cache msgs _
  | failed i e =>
    simp only [Client.step]
    cases hp : c.pending i <;> rfl
  | _ => rfl

/-- **The cache holds the last description**, or what it held before the run. -/
theorem run_descCache (es : List Event) : ∀ c : Client,
    (c.run es).descCache sql = (lastDescribed sql c es).or (c.descCache sql) := by
  induction es with
  | nil => exact fun _ => rfl
  | cons e es ih =>
    intro c
    show ((c.step e).run es).descCache sql = _
    rw [ih (c.step e), step_descCache, lastDescribed, Option.or_assoc]

/-! ### One call -/

/-- The request stays what it was. -/
def Asked (c : Client) (i : Nat) (r : Request) : Prop :=
  ∃ r', c.requests[i]? = some r' ∧ r'.method = r.method ∧ r'.sqls = r.sqls ∧ r'.sent = r.sent

theorem asked_step {i : Nat} {r : Request} (h : Asked c i r) (e : Event) :
    Asked (c.step e) i r := by
  obtain ⟨r', hr', hsame⟩ := h
  have hi : i < c.requests.length := (List.getElem?_eq_some_iff.mp hr').1
  have hsend : ∀ q : Request, Asked (c.send q) i r := by
    intro q
    refine ⟨r', ?_, hsame⟩
    show (c.requests ++ [q])[i]? = some r'
    rw [List.getElem?_append_left hi, hr']
  have hset : ∀ (c' : Client) (j : Nat) (q : Request) (o : Outcome), c'.requests = c.requests →
      c.pending j = some q → Asked (c'.settled j q o) i r := by
    intro c' j q o hc hq
    unfold Client.settled Asked
    rw [hc]
    by_cases hj : j = i
    · subst hj
      refine ⟨{ q with outcome := some o }, ?_, ?_⟩
      · show (c.requests.set j _)[j]? = _
        rw [List.getElem?_set_self hi]
      · unfold Client.pending at hq
        rw [hr'] at hq
        obtain ⟨-, -⟩ := Option.filter_eq_some_iff.mp hq
        cases (Option.filter_eq_some_iff.mp hq).1
        exact hsame
    · refine ⟨r', ?_, hsame⟩
      show (c.requests.set j _)[i]? = _
      rw [List.getElem?_set_ne hj, hr']
  cases e with
  | query => exact hsend _
  | batch => exact hsend _
  | pipeline => exact hsend _
  | response j msgs =>
    simp only [Client.step]
    cases hp : c.pending j with
    | none => exact ⟨r', hr', hsame⟩
    | some q => exact hset { c with descCache := _ } j q _ rfl hp
  | failed j e =>
    simp only [Client.step]
    cases hp : c.pending j with
    | none => exact ⟨r', hr', hsame⟩
    | some q => exact hset c j q _ rfl hp

theorem asked_run {i : Nat} {r : Request} (es : List Event) : ∀ {c : Client}, Asked c i r →
    Asked (c.run es) i r := by
  induction es with
  | nil => exact fun h => h
  | cons e es ih => exact fun h => ih (asked_step h e)

/-- Without a RowDescription no result has fields, and the cache stays. -/
theorem split_elided {msgs : List Message} (hno : ∀ m ∈ msgs, m.isRowDescription = false) :
    ∀ st : Split, st.cur.fields = none → (∀ r ∈ st.results, r.fields = none) →
      (split sqls msgs st).1.cache = st.cache ∧
        ∀ r ∈ (split sqls msgs st).1.results, r.fields = none := by
  induction msgs with
  | nil => exact fun st _ hres => ⟨rfl, hres⟩
  | cons m msgs ih =>
    intro st hcur hres
    have hrest := ih fun m' hm' => hno m' (List.mem_cons_of_mem m hm')
    have hpush : ∀ r : RawResult, r.fields = none →
        (split sqls msgs (st.push r)).1.cache = st.cache ∧
          ∀ q ∈ (split sqls msgs (st.push r)).1.results, q.fields = none := by
      intro r hr
      refine hrest (st.push r) rfl fun q hq => ?_
      rcases List.mem_append.mp hq with hq | hq
      · exact hres q hq
      · rw [List.mem_singleton.mp hq]
        exact hr
    cases m with
    | rowDescription frame fields => cases hno _ List.mem_cons_self
    | dataRow body => exact hrest _ hcur hres
    | commandComplete tag => exact hpush _ hcur
    | emptyQuery => exact hpush _ hcur
    | ignored => exact hrest _ hcur hres
    | connectionLevel type => exact ⟨rfl, hres⟩
    | errorResponse e =>
      by_cases hlen : st.results.length ≥ sqls.length
      · have hstep : st.step sqls (.errorResponse e) = .ok { st with trailing := some e } :=
          if_pos hlen
        simp only [split, hstep]
        exact hrest _ hcur hres
      · have hstep : st.step sqls (.errorResponse e) =
            .ok (st.push { st.cur with error := some e }) := if_neg hlen
        simp only [split, hstep]
        exact hpush _ hcur

theorem decode_elided {cache : Cache} {r : RawResult} {dec : Decoded} (hr : r.fields = none)
    (h : decode cache r sql = .ok dec) : dec.fields = (cache sql).map Desc.fields := by
  unfold decode at h
  rw [hr, Option.none_or] at h
  cases he : r.error with
  | some e =>
    rw [he] at h
    cases h
  | none =>
    rw [he] at h
    cases hc : (cache sql).map Desc.fields with
    | none =>
      simp only [hc] at h
      split at h
      · cases h
      · cases h
        rfl
    | some fields =>
      simp only [hc] at h
      cases h
      rfl

/-- A query that gives a result has decoded the one result of its response. -/
theorem settle_query {o : List (Except JsError Decoded)} (h : settle .query [sql] st = .ok o) :
    ∃ r dec, st.results = [r] ∧ decode st.cache r sql = .ok dec ∧ o = [.ok dec] := by
  unfold settle at h
  cases ht : st.trailing with
  | some e =>
    rw [ht] at h
    cases h
  | none =>
    simp only [ht] at h
    split at h
    · cases h
    next hlen =>
      obtain ⟨r, hr⟩ := List.length_eq_one_iff.mp (not_not.mp hlen)
      rw [hr] at h
      cases hd : decode st.cache r sql with
      | error e =>
        simp only [List.zipWith, hd, List.mapM_cons] at h
        cases h
      | ok dec =>
        simp only [List.zipWith, hd, List.mapM_cons] at h
        cases h
        exact ⟨r, dec, hr, hd, rfl⟩

/-- How the request `i` has settled. -/
def Client.outcome (c : Client) (i : Nat) : Option Outcome := c.requests[i]?.bind Request.outcome

theorem receive_outcome {i : Nat} {r : Request} {msgs : List Message}
    (hi : i < c.requests.length) : (c.receive i r msgs).outcome i =
      some (match (split r.sqls msgs { cache := c.descCache }).2 with
        | some e => .error e
        | none => settle r.method r.sqls (split r.sqls msgs { cache := c.descCache }).1) := by
  show ((c.requests.set i _)[i]?).bind Request.outcome = _
  rw [List.getElem?_set_self hi]
  rfl

/-- **An elided response is decoded by the descriptor whose hash was sent** with its request exactly
when the last description of the statement that arrived in between, if any, is the same. -/
theorem elided_iff (c : Client) {d : Desc} (mid : List Event) {msgs : List Message} {dec : Decoded}
    (hsent : c.cached sql = some d)
    (hopen : (((c.step (.query sql)).run mid).pending c.requests.length).isSome = true)
    (hno : ∀ m ∈ msgs, m.isRowDescription = false)
    (hdec : (((c.step (.query sql)).run mid).step (.response c.requests.length msgs)).outcome
      c.requests.length = some (.ok [.ok dec])) :
    dec.fields = some d.fields ↔
      ∀ d' ∈ lastDescribed sql (c.step (.query sql)) mid, d'.fields = d.fields := by
  have hcache : (c.step (.query sql)).descCache sql = some d := by
    unfold Client.cached at hsent
    split at hsent
    · exact hsent
    · cases hsent
  have hasked : Asked (c.step (.query sql)) c.requests.length ⟨.query, [sql], some d, none⟩ := by
    refine ⟨⟨.query, [sql], c.cached sql, none⟩, ?_, rfl, rfl, hsent⟩
    show (c.requests ++ [_])[c.requests.length]? = _
    rw [List.getElem?_append_right (Nat.le_refl _), Nat.sub_self]
    rfl
  obtain ⟨r', hr', hmethod, hsqls, -⟩ := asked_run mid hasked
  have hlast := @run_descCache sql mid (c.step (.query sql))
  rw [hcache] at hlast
  generalize (c.step (.query sql)).run mid = c' at hopen hdec hr' hlast
  obtain ⟨r, hr⟩ := Option.isSome_iff_exists.mp hopen
  have hsame : r = r' := by
    unfold Client.pending at hr
    rw [hr'] at hr
    exact (Option.some.inj (Option.filter_eq_some_iff.mp hr).1).symm
  subst hsame
  have hstep : c'.step (.response c.requests.length msgs) =
      c'.receive c.requests.length r msgs := by
    simp only [Client.step, hr]
  rw [hstep, receive_outcome (List.getElem?_eq_some_iff.mp hr').1, hsqls, hmethod] at hdec
  obtain ⟨hkeep, hnone⟩ := @split_elided [sql] msgs hno { cache := c'.descCache } rfl
    fun _ h => (nomatch h)
  cases hthrown : (split [sql] msgs { cache := c'.descCache }).2 with
  | some e =>
    rw [hthrown] at hdec
    cases hdec
  | none =>
    rw [hthrown] at hdec
    obtain ⟨res, dec', hres, hd, ho⟩ := settle_query (Option.some.inj hdec)
    cases ho
    have hfields := decode_elided (hnone res (by rw [hres]; exact List.mem_cons_self)) hd
    rw [hfields, hkeep]
    show (c'.descCache sql).map Desc.fields = some d.fields ↔ _
    rw [hlast]
    cases lastDescribed sql (c.step (.query sql)) mid with
    | none => simp
    | some d' => simp

/-! ### A change between two requests -/

/-- `SELECT *` of a table with an int4 and, after a change, of one with a text. -/
def before : Message := .rowDescription [84, 1] (some [⟨"n", 23⟩])

def after : Message := .rowDescription [84, 2] (some [⟨"t", 25⟩])

def sentBefore : Desc := ⟨fnv1a64 [84, 1], [⟨"n", 23⟩]⟩

/-- A client that has seen the first description. -/
def warm : Client :=
  ({} : Client).run [.query "q", .response 0 [before, .commandComplete "SELECT 0"]]

/-- Another request for the statement is answered with the same description. -/
def unchanged : List Event := [.query "q", .response 2 [before, .commandComplete "SELECT 0"]]

theorem elided_unchanged :
    (((warm.step (.query "q")).run unchanged).step
      (.response 1 [.dataRow [0, 0], .commandComplete "SELECT 1"])).outcome 1 =
        some (.ok [.ok ⟨some sentBefore.fields, [[0, 0]], some "SELECT", some 1⟩]) ∧
    ∀ d' ∈ lastDescribed "q" (warm.step (.query "q")) unchanged, d'.fields = sentBefore.fields := by
  have hsent : warm.cached "q" = some sentBefore := by decide +kernel
  have hno : ∀ m ∈ [Message.dataRow [0, 0], .commandComplete "SELECT 1"],
      m.isRowDescription = false := by decide
  have hdec : (((warm.step (.query "q")).run unchanged).step
      (.response 1 [.dataRow [0, 0], .commandComplete "SELECT 1"])).outcome 1 =
        some (.ok [.ok ⟨some sentBefore.fields, [[0, 0]], some "SELECT", some 1⟩]) := by
    decide +kernel
  exact ⟨hdec, (elided_iff warm unchanged hsent (by decide +kernel) hno hdec).mp rfl⟩

/-- Two requests send the hash of the first description; the second is answered after a change of
the table, and its answer arrives first. -/
theorem elided_by_another : warm.cached "q" = some sentBefore ∧
    (warm.run [.query "q", .query "q", .response 2 [after, .commandComplete "SELECT 0"],
      .response 1 [.dataRow [0, 0], .commandComplete "SELECT 1"]]).outcome 1 =
        some (.ok [.ok ⟨some [⟨"t", 25⟩], [[0, 0]], some "SELECT", some 1⟩]) ∧
    sentBefore.fields ≠ [⟨"t", 25⟩] := by
  decide +kernel

end Minipg.Http
