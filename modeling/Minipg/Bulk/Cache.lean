import Minipg.Bulk.Text

/-!
# When two calls may share a statement

A key is the table, the names, the types, the keys and `returning` of a call with NUL in between,
and does not say which is which: a second key column of one call can be the `returning` of another
(`swapped`).  Calls with one key run the same statement exactly when they cut it at the same
places (`sound_iff`), as calls without NUL do that have as many columns and as many keys
(`cut_of_noNul`).
-/

namespace Minipg.Bulk

open Js Reading Call

/-- Where the parts of a key end. -/
structure Cut where
  table : Nat
  names : List Nat
  types : List Nat
  keys : Option (List Nat)
  deriving DecidableEq, Repr

def Call.cut (c : Call) : Cut where
  table := c.table.length
  names := c.names.map List.length
  types := c.types.map List.length
  keys := c.keys.map (List.map List.length)

variable {c c' : Call}

/-! ### Keys -/

theorem returning_inj {r r' : JsString}
    (h : (if r = [] then [] else nul ++ r) = if r' = [] then [] else nul ++ r') : r = r' := by
  by_cases hr : r = []
  · by_cases hr' : r' = []
    · rw [hr, hr']
    · rw [if_pos hr, if_neg hr'] at h
      cases h
  · by_cases hr' : r' = []
    · rw [if_neg hr, if_pos hr'] at h
      cases h
    · rw [if_neg hr, if_neg hr'] at h
      exact (List.cons.inj h).2

/-- **A key that is cut at the same places has the same parts.** -/
theorem parts_of_key (h : c.key = c'.key) (hcut : c.cut = c'.cut) :
    c.table = c'.table ∧ c.names = c'.names ∧ c.types = c'.types ∧ c.keys = c'.keys ∧
      c.returning = c'.returning := by
  obtain ⟨htable, hnames, htypes, hkeys⟩ := Cut.mk.inj hcut
  cases hk : c.keys with
  | none =>
    cases hk' : c'.keys with
    | none =>
      simp only [key, hk, hk', List.append_assoc] at h
      obtain ⟨htable, h⟩ := List.append_inj
        (List.append_cancel_left (List.append_cancel_left h)) htable
      obtain ⟨hnames, h⟩ := join_cut hnames (List.append_cancel_left h)
      obtain ⟨htypes, h⟩ := join_cut htypes (List.append_cancel_left h)
      exact ⟨htable, hnames, htypes, rfl, returning_inj h⟩
    | some ks' => simp [hk, hk'] at hkeys
  | some ks =>
    cases hk' : c'.keys with
    | none => simp [hk, hk'] at hkeys
    | some ks' =>
      simp only [key, hk, hk', List.append_assoc] at h
      simp only [hk, hk', Option.map_some, Option.some.injEq] at hkeys
      obtain ⟨htable, h⟩ := List.append_inj
        (List.append_cancel_left (List.append_cancel_left h)) htable
      obtain ⟨hnames, h⟩ := join_cut hnames (List.append_cancel_left h)
      obtain ⟨htypes, h⟩ := join_cut htypes (List.append_cancel_left h)
      obtain ⟨hkeys, h⟩ := join_cut hkeys (List.append_cancel_left h)
      exact ⟨htable, hnames, htypes, congrArg some hkeys, returning_inj h⟩

theorem statement_of_key (h : c.key = c'.key) (hcut : c.cut = c'.cut) :
    c.statement = c'.statement := by
  obtain ⟨htable, hnames, htypes, hkeys, hreturning⟩ := parts_of_key h hcut
  simp only [statement, sql, oids, casts, located, htable, hnames, htypes, hkeys, hreturning]

/-- **The text of a statement says where the key of its call is to be cut.** -/
theorem cut_of_statement (h : c.statement = c'.statement) : c.cut = c'.cut := by
  have hsql : c.sql = c'.sql := congrArg Statement.sql h
  have htypes : ∀ {l l' : List JsString}, l.map lower = l'.map lower →
      l.map List.length = l'.map List.length := by
    intro l l' hl
    have hlen : ∀ l : List JsString, l.map List.length = (l.map lower).map List.length := by
      intro l
      simp [lower, Function.comp_def]
    rw [hlen, hl, ← hlen]
  cases hk : c.keys with
  | none =>
    cases hk' : c'.keys with
    | none =>
      obtain ⟨ht, hn, hty⟩ := insert_inj hk hk' hsql
      simp only [cut, hk, hk', ht, hn, htypes hty]
    | some ks' =>
      simp only [sql, hk, hk', List.append_assoc] at hsql
      cases hsql
  | some ks =>
    cases hk' : c'.keys with
    | none =>
      simp only [sql, hk, hk', List.append_assoc] at hsql
      cases hsql
    | some ks' =>
      obtain ⟨ht, hn, hty, hks⟩ := update_inj hk hk' hsql
      simp only [cut, hk, hk', ht, hn, htypes hty, hks]

/-! ### Keys without NUL -/

/-- What is joined to a key. -/
def Call.segments (c : Call) : List JsString :=
  [ascii (if c.keys.isSome then "U" else "I"), c.table] ++ c.names ++ c.types ++ c.keys.getD [] ++
    if c.returning = [] then [] else [c.returning]

theorem join_append {l l' : List JsString} (hl : l ≠ []) (hl' : l' ≠ []) :
    [0].intercalate (l ++ l') = [0].intercalate l ++ nul ++ [0].intercalate l' := by
  induction l with
  | nil => exact absurd rfl hl
  | cons a l ih =>
    cases l with
    | nil => simp [List.intercalate_cons_of_ne_nil hl', nul]
    | cons b l =>
      have hstep := ih (List.cons_ne_nil b l)
      simp only [List.cons_append, List.intercalate_cons_cons] at hstep ⊢
      rw [hstep]
      simp

theorem join_eq : ∀ l : List JsString, join nul id l = [0].intercalate l
  | [] => rfl
  | [a] => (List.intercalate_singleton).symm
  | a :: b :: l => by
    rw [join, join_eq (b :: l), List.intercalate_cons_cons]
    rfl

theorem key_eq (c : Call) : c.key = [0].intercalate c.segments := by
  have hn : c.names ≠ [] := by simp [names, c.ne]
  have ht : c.types ≠ [] := by simp [types, c.ne]
  have hret : [0].intercalate c.segments =
      [0].intercalate ([ascii (if c.keys.isSome then "U" else "I"), c.table] ++ c.names ++
        c.types ++ c.keys.getD []) ++ if c.returning = [] then [] else nul ++ c.returning := by
    unfold segments
    by_cases hr : c.returning = []
    · simp [hr]
    · rw [if_neg hr, if_neg hr, join_append (by simp) (by simp)]
      simp
  rw [hret]
  unfold key
  cases hk : c.keys with
  | none =>
    simp only [Option.getD_none, List.append_nil]
    rw [join_append (by simp) ht, join_append (by simp) hn, join_eq, join_eq]
    simp [List.intercalate_cons_cons, nul]
  | some ks =>
    have hks := c.keys_ne ks hk
    simp only [Option.getD_some]
    rw [join_append (by simp) hks, join_append (by simp) ht, join_append (by simp) hn, join_eq,
      join_eq, join_eq]
    simp [List.intercalate_cons_cons, nul]

/-- Without NUL, the numbers of columns and of keys say where to cut. -/
theorem cut_of_noNul (hc : ∀ s ∈ c.segments, 0 ∉ s) (hc' : ∀ s ∈ c'.segments, 0 ∉ s)
    (hcols : c.columns.length = c'.columns.length)
    (hkeys : c.keys.map List.length = c'.keys.map List.length) (h : c.key = c'.key) :
    c.cut = c'.cut := by
  have hne : ∀ c : Call, c.segments ≠ [] := fun c => by simp [segments]
  have hseg : c.segments = c'.segments := by
    rw [← List.splitOn_intercalate 0 hc (hne c), ← key_eq, h, key_eq,
      List.splitOn_intercalate 0 hc' (hne c')]
  have hnames : c.names.length = c'.names.length := by simpa [names] using hcols
  have htypes : c.types.length = c'.types.length := by simpa [types] using hcols
  simp only [segments, List.append_assoc, List.cons_append, List.nil_append] at hseg
  obtain ⟨htable, hrest⟩ := List.cons.inj (List.cons.inj hseg).2
  obtain ⟨hn, hrest⟩ := List.append_inj hrest hnames
  obtain ⟨ht, hrest⟩ := List.append_inj hrest htypes
  cases hk : c.keys with
  | none =>
    cases hk' : c'.keys with
    | none => simp only [cut, htable, hn, ht, hk, hk']
    | some ks' => simp [hk, hk'] at hkeys
  | some ks =>
    cases hk' : c'.keys with
    | none => simp [hk, hk'] at hkeys
    | some ks' =>
      simp only [hk, hk', Option.map_some, Option.some.injEq] at hkeys
      simp only [hk, hk', Option.getD_some] at hrest
      simp only [cut, htable, hn, ht, hk, hk', (List.append_inj hrest hkeys).1]

/-! ### The cache -/

/-- The names of the statements say where they are kept. -/
def Numbered (cache : Cache) : Prop :=
  ∀ i k m, cache[i]? = some (k, m) → ∃ kind : JsString, kind.length = 3 ∧ m.name = kind ++ decimal i

theorem get_at {cache : Cache} {k : JsString} {m : Meta} (h : cache.get k = some m) :
    ∃ i : Nat, cache[i]? = some (k, m) := by
  obtain ⟨e, he, rfl⟩ := Option.map_eq_some_iff.mp h
  have hk : e.1 = k := by simpa using List.find?_some he
  obtain ⟨i, hi⟩ := List.getElem?_of_mem (List.mem_of_find?_eq_some he)
  exact ⟨i, by rw [hi, ← hk]⟩

/-- One statement is kept under one key. -/
theorem Numbered.key_inj {cache : Cache} (hn : Numbered cache) {k k' : JsString} {m : Meta}
    (h : cache.get k = some m) (h' : cache.get k' = some m) : k = k' := by
  obtain ⟨i, hi⟩ := get_at h
  obtain ⟨j, hj⟩ := get_at h'
  obtain ⟨kind, hlen, hname⟩ := hn i k m hi
  obtain ⟨kind', hlen', hname'⟩ := hn j k' m hj
  have hij : i = j := by
    rw [hname] at hname'
    exact decimal_inj (List.append_inj hname' (by omega)).2
  rw [hij, hj] at hi
  cases hi
  rfl

theorem Numbered.serve {cache : Cache} (hn : Numbered cache) (c : Call) :
    Numbered (serve cache c).2 := by
  unfold Bulk.serve
  split
  · exact hn
  · intro i k m hi
    rcases Nat.lt_trichotomy i cache.length with hlt | rfl | hgt
    · rw [List.getElem?_append_left hlt] at hi
      exact hn i k m hi
    · simp at hi
      obtain ⟨rfl, rfl⟩ := hi
      refine ⟨ascii (if c.keys.isSome then "_um" else "_im"), ?_, rfl⟩
      split <;> rfl
    · rw [List.getElem?_eq_none (by simp; omega)] at hi
      cases hi

theorem get_serve (cache : Cache) (c : Call) :
    (serve cache c).2.get c.key = some (serve cache c).1 := by
  unfold serve
  split
  · next m h => exact h
  · next h =>
    have hnone : cache.find? (fun e => e.1 = c.key) = none := by
      simpa [Cache.get] using h
    simp [Cache.get, List.find?_append, hnone]

/-- What is kept is not replaced. -/
theorem get_after {cache : Cache} {k : JsString} {m : Meta} (h : cache.get k = some m) (c : Call) :
    (serve cache c).2.get k = some m := by
  unfold serve
  split
  · exact h
  · obtain ⟨e, he, rfl⟩ := Option.map_eq_some_iff.mp h
    simp [Cache.get, List.find?_append, he]

/-- The calls of a connection after those that led to `cache`. -/
def serveFrom (cache : Cache) (calls : List Call) : Cache :=
  calls.foldl (fun cache c => (serve cache c).2) cache

theorem Numbered.serveFrom {cache : Cache} (hn : Numbered cache) (calls : List Call) :
    Numbered (serveFrom cache calls) := by
  induction calls generalizing cache with
  | nil => exact hn
  | cons c calls ih => exact ih (hn.serve c)

theorem get_serveFrom {cache : Cache} {k : JsString} {m : Meta} (h : cache.get k = some m)
    (calls : List Call) : (serveFrom cache calls).get k = some m := by
  induction calls generalizing cache with
  | nil => exact h
  | cons c calls ih => exact ih (get_after h c)

theorem Numbered.start : Numbered [] := by
  intro i k m h
  simp at h

/-- **Two calls are served one statement exactly when they have one key**, whatever was called
before and in between. -/
theorem served_iff (before between : List Call) :
    (serve (serveAll before) c).1 = (serve (serveAll (before ++ c :: between)) c').1 ↔
      c.key = c'.key := by
  have hcache : serveAll (before ++ c :: between) =
      serveFrom (serve (serveAll before) c).2 between := by
    simp [serveAll, serveFrom]
  have hkept := get_serveFrom (get_serve (serveAll before) c) between
  rw [← hcache] at hkept
  have hn : Numbered (serveAll (before ++ c :: between)) := Numbered.start.serveFrom _
  constructor
  · intro h
    have hc' := get_serve (serveAll (before ++ c :: between)) c'
    rw [← h] at hc'
    exact (hn.serve c').key_inj (get_after hkept c') hc'
  · intro h
    have hc' := get_after hkept c'
    rw [h, get_serve] at hc'
    exact (Option.some.inj hc').symm

/-- Two calls that share a statement would have written the same one, exactly when they cut a
common key at the same places. -/
theorem sound_iff (c c' : Call) :
    (∀ before between,
      (serve (serveAll before) c).1 = (serve (serveAll (before ++ c :: between)) c').1 →
        c.statement = c'.statement) ↔ (c.key = c'.key → c.cut = c'.cut) := by
  constructor
  · intro h hkey
    exact cut_of_statement (h [] [] ((served_iff [] []).mpr hkey))
  · intro h before between hserved
    have hkey := (served_iff before between).mp hserved
    exact statement_of_key hkey (h hkey)

/-! ### One key for two updates -/

section Swapped

/-- An update of the columns `a`, `b` and `c`, all `int4`. -/
def update (ks : List JsString) (returning : JsString) (hne : ks ≠ [])
    (hsub : ∀ k ∈ ks, k ∈ [ascii "a", ascii "b", ascii "c"])
    (hset : [ascii "a", ascii "b", ascii "c"].filter (· ∉ ks) ≠ []) : Call where
  table := ascii "t"
  columns := [ascii "a", ascii "b", ascii "c"].map (·, ascii "int4")
  keys := some ks
  returning
  nodup := by decide
  ne := by decide
  known := by decide
  keys_ne := by
    rintro _ ⟨⟩
    exact hne
  keys_sub := by
    rintro _ ⟨⟩
    exact hsub
  set_ne := by
    rintro _ ⟨⟩
    exact hset

/-- `{ by: ['a', 'b'] }` -/
def byBoth : Call :=
  update [ascii "a", ascii "b"] [] (by decide) (by decide) (by decide)

/-- `{ by: 'a', returning: 'b' }` -/
def byOne : Call := update [ascii "a"] (ascii "b") (by decide) (by decide) (by decide)

/-- The second update runs the statement of the first. -/
theorem swapped : (serve (serveAll [byBoth]) byOne).1 = (serve (serveAll []) byBoth).1 ∧
    byOne.statement ≠ byBoth.statement := by
  constructor
  · have hkey : byBoth.key = byOne.key := by decide
    exact ((served_iff [] []).mpr hkey).symm
  · intro h
    exact absurd (cut_of_statement h) (by decide)

end Swapped

end Minipg.Bulk
