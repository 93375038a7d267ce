import Minipg.Sigv4.Canonical

/-!
# When a request is signed as AWS reads it

The headers of the two canonical requests are the same if no name comes twice in lower case and none
is `__proto__`.  Otherwise `signV4` keeps the last value of a name where AWS joins them, or leaves
the name out, and what it signs is shorter.
-/

namespace Minipg.Sigv4

open Js Delimited

/-- The names of headers, in lower case. -/
def lowerNames (env : Env) (entries : List (JsString × JsString)) : List JsString :=
  entries.map fun p => env.toLowerCase p.1

def proto : JsString := ascii "__proto__"

/-- No name comes twice in lower case, and none is `__proto__`. -/
def NamesAgree (env : Env) (entries : List (JsString × JsString)) : Prop :=
  (lowerNames env entries).Nodup ∧ proto ∉ lowerNames env entries

/-- What a request must be like, if its query has names and values. -/
def Agrees (env : Env) (i : SigV4Input) : Prop :=
  ∀ params, Aws.parameters i.query = some params → HasForm params →
    QueryAgrees params ∧ NamesAgree env i.headers.entries

/-! ### Lists of headers -/

section Lists

variable (l : List (JsString × JsString)) (k v n : JsString) (g : JsString → JsString)

theorem keys_put : (if k ∈ l.map Prod.fst then l.map fun p => if p.1 = k then (k, g p.2) else p
    else l ++ [(k, v)]).map Prod.fst =
      if k ∈ l.map Prod.fst then l.map Prod.fst else l.map Prod.fst ++ [k] := by
  split
  next =>
    rw [List.map_map]
    refine List.map_congr_left fun p _ => ?_
    by_cases hp : p.1 = k
    · simp [hp]
    · simp [hp]
  next => simp

theorem lookup_cons (p : JsString × JsString) :
    lookup (p :: l) n = if p.1 = n then p.2 else lookup l n := by
  rw [lookup, List.find?_cons]
  by_cases hp : p.1 = n
  · simp [hp]
  · simp [hp, lookup]

/-- A value that is set, or changed, changes no other. -/
theorem lookup_put : lookup (if k ∈ l.map Prod.fst then
    l.map fun p => if p.1 = k then (k, g p.2) else p else l ++ [(k, v)]) n =
      if n = k then if k ∈ l.map Prod.fst then g (lookup l k) else v else lookup l n := by
  split
  next hk =>
    induction l with
    | nil => cases hk
    | cons p l ih =>
      rw [List.map_cons, lookup_cons, lookup_cons, lookup_cons]
      by_cases hp : p.1 = k
      · by_cases hn : n = k
        · simp [hp, hn]
        · have hrest :
              lookup (l.map fun p => if p.1 = k then (k, g p.2) else p) n = lookup l n := by
            by_cases hmem : k ∈ l.map Prod.fst
            · rw [ih hmem, if_neg hn]
            · congr 1
              refine (List.map_congr_left (g := id) fun q hq => ?_).trans (List.map_id l)
              have hq : q.1 ≠ k := fun heq => hmem (heq ▸ List.mem_map_of_mem hq)
              exact if_neg hq
          simp [hp, hn, Ne.symm hn, hrest]
      · have hmem : k ∈ l.map Prod.fst := by
          rcases List.mem_cons.mp hk with heq | hmem
          · exact absurd heq.symm hp
          · exact hmem
        by_cases hn : n = k
        · subst hn
          simp [hp, ih hmem]
        · simp [hp, hn, ih hmem]
  next hk =>
    induction l with
    | nil =>
      rw [List.nil_append, lookup_cons]
      by_cases hn : n = k
      · simp [hn]
      · simp [hn, Ne.symm hn]
    | cons p l ih =>
      have hmem : k ∉ l.map Prod.fst := fun hmem => hk (List.mem_cons_of_mem _ hmem)
      have hp : p.1 ≠ k := fun heq => hk (heq ▸ List.mem_cons_self)
      rw [List.cons_append, lookup_cons, lookup_cons, ih hmem]
      by_cases hn : n = k
      · subst hn
        simp [hp]
      · simp [hn]

end Lists

/-! ### What the two keep of the headers -/

section Entries

variable (env : Env)

def lowered (entries : List (JsString × JsString)) : List (JsString × JsString) :=
  entries.foldl (fun lc p => assign lc (env.toLowerCase p.1) p.2) []

def joined (entries : List (JsString × JsString)) : List (JsString × JsString) :=
  entries.foldl (fun hs p => Aws.combine hs (env.toLowerCase p.1) (Aws.trimAll p.2)) []

/-- The names are the same but for `__proto__`, no value is longer, and unless the names agree
something is missing. -/
structure Kept (entries lc hs : List (JsString × JsString)) : Prop where
  keys : lc.map Prod.fst = (hs.map Prod.fst).filter (· ≠ proto)
  names : ∀ n, n ∈ hs.map Prod.fst ↔ n ∈ lowerNames env entries
  values : ∀ n ≠ proto, (Aws.trimAll (lookup lc n)).length ≤ (lookup hs n).length
  missing : ¬NamesAgree env entries → proto ∈ hs.map Prod.fst ∨
    ∃ n ∈ hs.map Prod.fst, n ≠ proto ∧ (Aws.trimAll (lookup lc n)).length < (lookup hs n).length
  same : NamesAgree env entries → ∀ n, lookup hs n = Aws.trimAll (lookup lc n)

theorem namesAgree_concat (entries : List (JsString × JsString)) (p : JsString × JsString) :
    NamesAgree env (entries ++ [p]) ↔ NamesAgree env entries ∧ env.toLowerCase p.1 ≠ proto ∧
      env.toLowerCase p.1 ∉ lowerNames env entries := by
  rw [NamesAgree, NamesAgree, lowerNames, List.map_append, List.nodup_append]
  simp only [List.map_cons, List.map_nil, List.mem_append, List.mem_singleton, not_or]
  constructor
  · rintro ⟨⟨hnodup, -, hapart⟩, hproto, hp⟩
    exact ⟨⟨hnodup, hproto⟩, Ne.symm hp, fun hmem => hapart _ hmem _ rfl rfl⟩
  · rintro ⟨⟨hnodup, hproto⟩, hp, hnew⟩
    refine ⟨⟨hnodup, by simp, ?_⟩, hproto, Ne.symm hp⟩
    rintro a ha b rfl rfl
    exact hnew ha

variable {env}

/-- One more header. -/
theorem Kept.concat {entries lc hs : List (JsString × JsString)} (h : Kept env entries lc hs)
    (p : JsString × JsString) :
    Kept env (entries ++ [p]) (assign lc (env.toLowerCase p.1) p.2)
      (Aws.combine hs (env.toLowerCase p.1) (Aws.trimAll p.2)) := by
  have hiff := namesAgree_concat env entries p
  generalize hk : env.toLowerCase p.1 = k at hiff
  have hhs : (Aws.combine hs k (Aws.trimAll p.2)).map Prod.fst =
      if k ∈ hs.map Prod.fst then hs.map Prod.fst else hs.map Prod.fst ++ [k] :=
    keys_put hs k _ fun old => old ++ 44 :: Aws.trimAll p.2
  have hlookup : ∀ n, lookup (Aws.combine hs k (Aws.trimAll p.2)) n = if n = k then
      if k ∈ hs.map Prod.fst then lookup hs k ++ 44 :: Aws.trimAll p.2 else Aws.trimAll p.2
      else lookup hs n := fun n => lookup_put hs k _ n fun old => old ++ 44 :: Aws.trimAll p.2
  have hnames : ∀ n, n ∈ (Aws.combine hs k (Aws.trimAll p.2)).map Prod.fst ↔
      n ∈ lowerNames env (entries ++ [p]) := by
    intro n
    rw [hhs, lowerNames, List.map_append, List.mem_append, ← lowerNames, ← h.names]
    simp only [List.map_cons, List.map_nil, List.mem_singleton, hk]
    split
    next hmem =>
      constructor
      · exact .inl
      · rintro (hn | rfl)
        · exact hn
        · exact hmem
    next => simp
  by_cases hproto : k = proto
  · have hlc : assign lc k p.2 = lc := if_pos hproto
    have hmem : proto ∈ (Aws.combine hs k (Aws.trimAll p.2)).map Prod.fst := by
      rw [hhs, hproto]
      split
      next hmem => exact hmem
      next => simp
    rw [hlc]
    refine ⟨?_, hnames, fun n hn => ?_, fun _ => .inl hmem, fun hagree => ?_⟩
    · rw [h.keys, hhs]
      split
      next => rfl
      next => simp [hproto]
    · rw [hlookup, if_neg fun heq => hn (heq.trans hproto)]
      exact h.values n hn
    · exact absurd hproto (hiff.mp hagree).2.1
  · have hmem : k ∈ lc.map Prod.fst ↔ k ∈ hs.map Prod.fst := by
      rw [h.keys, List.mem_filter]
      simp [hproto]
    have hassign : assign lc k p.2 = if k ∈ lc.map Prod.fst then
        lc.map fun q => if q.1 = k then (k, p.2) else q else lc ++ [(k, p.2)] := if_neg hproto
    have hlc : (assign lc k p.2).map Prod.fst =
        if k ∈ lc.map Prod.fst then lc.map Prod.fst else lc.map Prod.fst ++ [k] := by
      rw [hassign]
      exact keys_put lc k p.2 fun _ => p.2
    have hvalue : ∀ n, lookup (assign lc k p.2) n = if n = k then p.2 else lookup lc n := by
      intro n
      rw [hassign]
      refine (lookup_put lc k p.2 n fun _ => p.2).trans ?_
      rw [ite_self]
    by_cases hold : k ∈ hs.map Prod.fst
    · have hlonger : (Aws.trimAll (lookup (assign lc k p.2) k)).length <
          (lookup (Aws.combine hs k (Aws.trimAll p.2)) k).length := by
        rw [hvalue, hlookup, if_pos rfl, if_pos rfl, if_pos hold]
        simp
        omega
      refine ⟨?_, hnames, fun n hn => ?_, fun _ => .inr ⟨k, ?_, hproto, hlonger⟩, fun hagree => ?_⟩
      · rw [hlc, hhs, if_pos hold, if_pos (hmem.mpr hold), h.keys]
      · by_cases hnk : n = k
        · rw [hnk]
          exact Nat.le_of_lt hlonger
        · rw [hvalue, hlookup, if_neg hnk, if_neg hnk]
          exact h.values n hn
      · rw [hhs, if_pos hold]
        exact hold
      · exact absurd ((h.names k).mp hold) (hiff.mp hagree).2.2
    · refine ⟨?_, hnames, fun n hn => ?_, fun hagree => ?_, fun hagree n => ?_⟩
      · rw [hlc, hhs, if_neg hold, if_neg fun hk => hold (hmem.mp hk), h.keys]
        simp [hproto]
      · rw [hvalue, hlookup]
        by_cases hnk : n = k
        · rw [if_pos hnk, if_pos hnk, if_neg hold]
        · rw [if_neg hnk, if_neg hnk]
          exact h.values n hn
      · have hbefore : ¬NamesAgree env entries := fun hbefore =>
          hagree (hiff.mpr ⟨hbefore, hproto, fun hn => hold ((h.names k).mpr hn)⟩)
        rw [hhs, if_neg hold]
        rcases h.missing hbefore with hproto' | ⟨n, hn, hne, hlt⟩
        · exact .inl (List.mem_append_left _ hproto')
        · have hnk : n ≠ k := by
            rintro rfl
            exact hold hn
          refine .inr ⟨n, List.mem_append_left _ hn, hne, ?_⟩
          rwa [hvalue, hlookup, if_neg hnk, if_neg hnk]
      · rw [hvalue, hlookup]
        by_cases hnk : n = k
        · rw [if_pos hnk, if_pos hnk, if_neg hold]
        · rw [if_neg hnk, if_neg hnk]
          exact h.same (hiff.mp hagree).1 n

theorem kept (entries : List (JsString × JsString)) :
    Kept env entries (lowered env entries) (joined env entries) := by
  induction entries using List.reverseRecOn with
  | nil =>
    refine ⟨rfl, fun _ => Iff.rfl, fun _ _ => Nat.le_refl _, fun hno => ?_, fun _ _ => rfl⟩
    exact absurd ⟨List.nodup_nil, nofun⟩ hno
  | append_singleton entries p ih =>
    rw [lowered, joined, List.foldl_append, List.foldl_append]
    exact ih.concat p

end Entries

/-! ### How long the headers are -/

section Lengths

variable {α χ : Type} {f g : α → Nat} {p : α → Bool}

theorem length_join (c : χ) : ∀ l : List (List χ),
    (join c l).length = (l.map List.length).sum + (l.length - 1)
  | [] => rfl
  | [u] => by simp [join]
  | u :: v :: l => by
    have ih := length_join c (v :: l)
    simp only [join, List.length_append, List.length_cons, List.map_cons, List.sum_cons] at ih ⊢
    omega

theorem sum_filter_le (h : ∀ a, p a = true → f a ≤ g a) (l : List α) :
    ((l.filter p).map f).sum ≤ (l.map g).sum := by
  induction l with
  | nil => exact Nat.le_refl _
  | cons a l ih =>
    rw [List.map_cons, List.sum_cons]
    cases hp : p a with
    | true =>
      have ha := h a hp
      rw [List.filter_cons_of_pos hp, List.map_cons, List.sum_cons]
      omega
    | false =>
      rw [List.filter_cons_of_neg (by simp [hp])]
      omega

/-- Something is left out, or one of the terms is less. -/
theorem sum_filter_lt (h : ∀ a, p a = true → f a ≤ g a) (hpos : ∀ a, 0 < g a) {l : List α} {a : α}
    (ha : a ∈ l) (hless : p a = false ∨ f a < g a) :
    ((l.filter p).map f).sum < (l.map g).sum := by
  induction l with
  | nil => cases ha
  | cons b l ih =>
    have hle := sum_filter_le h l
    have hb := hpos b
    rw [List.map_cons, List.sum_cons]
    rcases List.mem_cons.mp ha with rfl | ha
    · cases hp : p a with
      | true =>
        have hlt := hless.resolve_left (by simp [hp])
        rw [List.filter_cons_of_pos hp, List.map_cons, List.sum_cons]
        omega
      | false =>
        rw [List.filter_cons_of_neg (by simp [hp])]
        omega
    · have hlt := ih ha
      cases hp : p b with
      | true =>
        have hfg := h b hp
        rw [List.filter_cons_of_pos hp, List.map_cons, List.sum_cons]
        omega
      | false =>
        rw [List.filter_cons_of_neg (by simp [hp])]
        omega

end Lengths

/-- The lines of the headers, an empty line, and the names. -/
def headerLines (names : List JsString) (value : JsString → JsString) : JsString :=
  (names.flatMap fun n => n ++ [58] ++ value n ++ [10]) ++ 10 :: join 59 names

theorem length_headerLines (names : List JsString) (value : JsString → JsString) :
    (headerLines (sortNames names) value).length =
      (names.map fun n => 2 * n.length + (value n).length + 2).sum + (names.length - 1) + 1 := by
  have hperm : (sortNames names).Perm names := List.mergeSort_perm ..
  have hterms : ∀ names : List JsString,
      ((names.map fun n => (n ++ [58] ++ value n ++ [10]).length).sum +
          (names.map List.length).sum) =
        (names.map fun n => 2 * n.length + (value n).length + 2).sum := by
    intro names
    induction names with
    | nil => rfl
    | cons n names ih =>
      simp only [List.map_cons, List.sum_cons, List.length_append, List.length_cons,
        List.length_nil] at ih ⊢
      omega
  have hterm := hterms (sortNames names)
  rw [(hperm.map fun n => 2 * n.length + (value n).length + 2).sum_nat] at hterm
  rw [headerLines, List.length_append, List.length_flatMap, List.length_cons, length_join,
    hperm.length_eq]
  omega

/-- **The headers are the ones of AWS** exactly when the names agree. -/
theorem headerLines_iff (env : Env) (entries : List (JsString × JsString)) :
    headerLines (sortNames ((lowered env entries).map Prod.fst))
        (fun n => Aws.trimAll (lookup (lowered env entries) n)) =
      headerLines (sortNames ((joined env entries).map Prod.fst)) (lookup (joined env entries)) ↔
      NamesAgree env entries := by
  have h : Kept env entries (lowered env entries) (joined env entries) := kept entries
  constructor
  · intro heq
    by_contra hno
    have hlength := congrArg List.length heq
    rw [length_headerLines, length_headerLines, h.keys] at hlength
    have hcount := List.length_filter_le (· ≠ proto) ((joined env entries).map Prod.fst)
    have hless : ∃ n ∈ (joined env entries).map Prod.fst, decide (n ≠ proto) = false ∨
        2 * n.length + (Aws.trimAll (lookup (lowered env entries) n)).length + 2 <
          2 * n.length + (lookup (joined env entries) n).length + 2 := by
      rcases h.missing hno with hproto | ⟨n, hn, -, hlt⟩
      · exact ⟨proto, hproto, .inl (by simp)⟩
      · exact ⟨n, hn, .inr (by omega)⟩
    obtain ⟨n, hn, hless⟩ := hless
    have hterm : ∀ n : JsString, decide (n ≠ proto) = true →
        2 * n.length + (Aws.trimAll (lookup (lowered env entries) n)).length + 2 ≤
          2 * n.length + (lookup (joined env entries) n).length + 2 := by
      intro n hn
      have hle := h.values n (of_decide_eq_true hn)
      omega
    have hsum := sum_filter_lt hterm (fun n => by omega) hn hless
    omega
  · intro hagree
    have hnone : proto ∉ (joined env entries).map Prod.fst := fun hmem =>
      hagree.2 ((h.names proto).mp hmem)
    have hkeys : (lowered env entries).map Prod.fst = (joined env entries).map Prod.fst := by
      rw [h.keys, List.filter_eq_self]
      intro n hn
      exact decide_eq_true fun heq => hnone (heq ▸ hn)
    rw [hkeys, show lookup (joined env entries) = _ from funext (h.same hagree)]

/-! ### The request -/

/-- What follows the query. -/
theorem joinLines_inj {a b q q' h h' s s' z : JsString} (hq : 10 ∉ q) (hq' : 10 ∉ q') :
    joinLines [a, b, q, h, s, z] = joinLines [a, b, q', h', s', z] ↔
      q = q' ∧ h ++ 10 :: s = h' ++ 10 :: s' := by
  simp only [joinLines, join, List.append_cancel_left_eq, List.cons.injEq, true_and]
  constructor
  · intro heq
    obtain ⟨hsame, hrest⟩ := Delimited.cut hq hq' heq
    refine ⟨hsame, ?_⟩
    have hrest : (h ++ 10 :: s) ++ 10 :: z = (h' ++ 10 :: s') ++ 10 :: z := by
      simpa using hrest
    exact List.append_cancel_right hrest
  · rintro ⟨rfl, hrest⟩
    have hrest := congrArg (· ++ 10 :: z) hrest
    simpa using hrest

theorem not_mem_joinPairs {pairs : List (JsString × JsString)} (h : ∀ p ∈ pairs, IsPlain p) :
    10 ∉ joinPairs pairs := by
  refine not_mem_join (by decide) fun u hu hmem => ?_
  obtain ⟨p, hp, rfl⟩ := List.mem_map.mp hu
  obtain ⟨⟨-, -, hname⟩, -, -, hvalue⟩ := h p hp
  rcases List.mem_append.mp hmem with hmem | hmem
  · exact hname hmem
  · rcases List.mem_cons.mp hmem with heq | hmem
    · exact absurd heq (by decide)
    · exact hvalue hmem

/-- **The canonical request whose hash `signV4` signs is the one of AWS** exactly when no decoded
name or value of the query has one of `!'()*`, the values of one name come in order, and the names
of the headers agree. -/
theorem canonicalRequest_iff (env : Env) (i : SigV4Input) :
    (signV4 env i).map Signed.canonicalRequest = Aws.canonicalRequest env i ↔ Agrees env i := by
  have hsigned : (signV4 env i).map Signed.canonicalRequest =
      (canonicalQuery i.query).map fun query => joinLines
        [i.method, if i.path = [] then ascii "/" else i.path, query,
          canonicalHeaders (lowerCased env i.headers)
            (sortNames ((lowerCased env i.headers).map Prod.fst)),
          signedHeaders (sortNames ((lowerCased env i.headers).map Prod.fst)),
          env.sha256Hex i.body] := by
    rw [signV4]
    cases canonicalQuery i.query <;> rfl
  have hdefined : Aws.canonicalRequest env i =
      (Aws.canonicalQuery i.query).map fun query => joinLines
        [i.method, if i.path = [] then ascii "/" else i.path, query,
          (sortNames ((Aws.combined env i.headers).map Prod.fst)).flatMap fun n =>
            n ++ [58] ++ lookup (Aws.combined env i.headers) n ++ [10],
          join 59 (sortNames ((Aws.combined env i.headers).map Prod.fst)),
          env.sha256Hex i.body] := by
    rw [Aws.canonicalRequest]
    cases Aws.canonicalQuery i.query <;> rfl
  have hheaders : canonicalHeaders (lowerCased env i.headers)
        (sortNames ((lowerCased env i.headers).map Prod.fst)) ++ 10 ::
          signedHeaders (sortNames ((lowerCased env i.headers).map Prod.fst)) =
      headerLines (sortNames ((lowered env i.headers.entries).map Prod.fst))
        fun n => Aws.trimAll (lookup (lowered env i.headers.entries) n) := by
    rw [headerLines, canonicalHeaders]
    simp only [collapse_trim]
    rfl
  rw [hsigned, hdefined, canonicalQuery_eq, Aws.canonicalQuery_eq, Agrees]
  cases hparams : Aws.parameters i.query with
  | none => exact iff_of_true rfl nofun
  | some params =>
    by_cases hform : HasForm params
    · have hplain : ∀ (keep : UInt8 → Bool) (le : JsString × JsString → JsString × JsString → Bool),
          (∀ b, keep b = true → keepsMarks b = true) →
            10 ∉ joinPairs ((params.map (encodePair keep)).mergeSort le) := by
        intro keep le hkeep
        refine not_mem_joinPairs fun p hp => ?_
        obtain ⟨q, -, rfl⟩ := List.mem_map.mp (List.mem_mergeSort.mp hp)
        exact isPlain_encodePair hkeep q
      rw [Option.bind_some, Option.bind_some, if_pos hform, if_pos hform, Option.map_some,
        Option.map_some, Option.some.injEq,
        joinLines_inj (hplain keepsMarks byName fun _ hb => hb)
          (hplain isUnreserved Aws.byNameAndValue fun b hb => by rw [keepsMarks, hb, Bool.true_or]),
        query_iff, hheaders]
      refine (and_congr_right fun _ => headerLines_iff env i.headers.entries).trans ?_
      constructor
      · rintro hboth _ ⟨⟩ _
        exact hboth
      · exact fun hall => hall params rfl hform
    · refine iff_of_true ?_ ?_
      · rw [Option.bind_some, Option.bind_some, if_neg hform, if_neg hform]
        rfl
      · rintro _ ⟨⟩ hno
        exact absurd hno hform

/-! ### What `signRequest` signs -/

theorem keys_set (h : Headers) (k v : JsString) : (h.set k v).entries.map Prod.fst =
    if k ∈ h.entries.map Prod.fst then h.entries.map Prod.fst else h.entries.map Prod.fst ++ [k] :=
  keys_put h.entries k v fun _ => v

def amzNames : List JsString :=
  [ascii "content-type", ascii "host", ascii "x-amz-date", ascii "x-amz-content-sha256",
    ascii "x-amz-security-token"]

/-- A request with a content type and no query, such as one to the Data API, is signed as AWS reads
it. -/
theorem signRequest_agrees (env : Env) (i : SignRequestInput)
    (hheaders : i.headers.entries.map Prod.fst = [ascii "Content-Type"])
    (hsearch : i.url.search = [])
    (hcase : env.toLowerCase (ascii "Content-Type") = ascii "content-type")
    (hlower : ∀ n ∈ amzNames, env.toLowerCase n = n) : Agrees env (i.toSign env) := by
  have hkeys : (i.toSign env).headers.entries.map Prod.fst =
        [ascii "Content-Type", ascii "host", ascii "x-amz-date", ascii "x-amz-content-sha256"] ∨
      (i.toSign env).headers.entries.map Prod.fst = [ascii "Content-Type", ascii "host",
        ascii "x-amz-date", ascii "x-amz-content-sha256", ascii "x-amz-security-token"] := by
    have hthree : (((i.headers.set (ascii "host") i.url.host).set (ascii "x-amz-date")
        i.amzDate).set (ascii "x-amz-content-sha256") (env.sha256Hex i.body)).entries.map Prod.fst =
        [ascii "Content-Type", ascii "host", ascii "x-amz-date", ascii "x-amz-content-sha256"] := by
      simp only [keys_set, hheaders]
      decide
    rw [SignRequestInput.toSign]
    dsimp only
    split
    next token _ =>
      split
      · exact .inl hthree
      · right
        rw [keys_set, hthree]
        decide
    next => exact .inl hthree
  have hnames : lowerNames env (i.toSign env).headers.entries =
      ((i.toSign env).headers.entries.map Prod.fst).map env.toLowerCase := by
    rw [lowerNames, List.map_map]
    rfl
  intro params hparams _
  have hquery : (i.toSign env).query = some [] := by
    rw [SignRequestInput.toSign, hsearch]
    rfl
  rw [hquery, Aws.parameters, Option.getD_some, if_pos rfl, Option.some.injEq] at hparams
  subst hparams
  refine ⟨⟨(fun _ h => by cases h), List.Pairwise.nil⟩, ?_⟩
  rw [NamesAgree, hnames]
  simp only [amzNames, List.forall_mem_cons] at hlower
  obtain ⟨-, hhost, hdate, hhash, htoken, -⟩ := hlower
  rcases hkeys with hkeys | hkeys
  · rw [hkeys]
    simp only [List.map_cons, List.map_nil, hcase, hhost, hdate, hhash]
    decide
  · rw [hkeys]
    simp only [List.map_cons, List.map_nil, hcase, hhost, hdate, hhash, htoken]
    decide

/-! ### A parenthesis in a query -/

/-- Any hash will do. -/
def plainEnv : Env where
  digest _ := []
  hmac _ _ := []
  toLowerCase := id

/-- `GET /?a=(` with the header `host`. -/
def parenthesis : SigV4Input where
  method := ascii "GET"
  path := ascii "/"
  query := some (ascii "a=(")
  headers := ⟨[(ascii "host", ascii "h")], by simp⟩
  body := []
  service := ascii "s"
  region := ascii "r"
  credentials := ⟨ascii "k", ascii "s", none⟩
  amzDate := ascii "20260101T000000Z"

/-- AWS signs `a=%28`. -/
theorem parenthesis_kept : ¬ ∀ (env : Env) (i : SigV4Input),
    (signV4 env i).map Signed.canonicalRequest = Aws.canonicalRequest env i := by
  intro h
  have heq := h plainEnv parenthesis
  revert heq
  decide +kernel

end Minipg.Sigv4
