import Minipg.Lib.Stable
import Minipg.Sigv4.Request
import Mathlib.Data.List.DropRight

/-!
# The canonical request is the one of AWS

Where the two are the same is found out part by part: for the query by reading names and values back
from it, for the headers by its length, which a name that comes twice or is left out makes shorter.
-/

namespace Minipg.Sigv4

open Js Stable Delimited

/-! ### What a query must be like -/

/-- The percent-encoding of a name and its value. -/
def encodePair (keep : UInt8 → Bool) (p : JsString × JsString) : JsString × JsString :=
  (percentEncode keep p.1, percentEncode keep p.2)

/-- What `encodeURIComponent` keeps. -/
def keepsMarks (b : UInt8) : Bool := isUnreserved b || isMark b

def HasForm (params : List (JsString × JsString)) : Prop :=
  ∀ p ∈ params, isWellFormed p.1 = true ∧ isWellFormed p.2 = true

/-- None of the five marks. -/
def IsMarkFree (s : JsString) : Prop := ∀ u ∈ s, isMarkUnit u = false

/-- No name and no value has one of the five marks, and the values of one name come in order. -/
structure QueryAgrees (params : List (JsString × JsString)) : Prop where
  free : ∀ p ∈ params, IsMarkFree p.1 ∧ IsMarkFree p.2
  ordered : params.Pairwise fun p q =>
    percentEncode isUnreserved p.1 = percentEncode isUnreserved q.1 →
      percentEncode isUnreserved p.2 ≤ percentEncode isUnreserved q.2

/-! ### Reading a query back -/

section Option

variable {α β γ : Type}

theorem mapM_bind (f : α → Option β) (g : β → Option γ) : ∀ l : List α,
    (l.mapM fun a => (f a).bind g) = (l.mapM f).bind fun bs => bs.mapM g
  | [] => rfl
  | a :: l => by
    have ih := mapM_bind f g l
    rw [List.mapM_cons, List.mapM_cons, ih]
    cases hf : f a with
    | none => simp
    | some b =>
      cases hl : l.mapM f with
      | none => simp
      | some bs => simp

/-- A map that may fail gives something for every element, or nothing. -/
theorem mapM_ite (P : α → Prop) [DecidablePred P] (f : α → β) : ∀ l : List α,
    (l.mapM fun a => if P a then some (f a) else none) =
      if ∀ a ∈ l, P a then some (l.map f) else none
  | [] => by simp
  | a :: l => by
    have ih := mapM_ite P f l
    rw [List.mapM_cons, ih]
    by_cases ha : P a
    · by_cases hl : ∀ a ∈ l, P a
      · rw [if_pos ha, if_pos hl, if_pos (List.forall_mem_cons.mpr ⟨ha, hl⟩)]
        rfl
      · rw [if_pos ha, if_neg hl, if_neg fun h => hl (List.forall_mem_cons.mp h).2]
        rfl
    · rw [if_neg ha, if_neg fun h => ha (List.forall_mem_cons.mp h).1]
      rfl

end Option

instance (params : List (JsString × JsString)) : Decidable (HasForm params) :=
  inferInstanceAs (Decidable (∀ p ∈ params, _ ∧ _))

/-- A pair, encoded by either encoding. -/
theorem encode_pair (keep : UInt8 → Bool) (p : JsString × JsString) :
    ((if isWellFormed p.1 then some (percentEncode keep p.1) else none).bind fun k =>
      (if isWellFormed p.2 then some (percentEncode keep p.2) else none).bind fun v =>
        some (k, v)) =
      if isWellFormed p.1 = true ∧ isWellFormed p.2 = true then some (encodePair keep p)
      else none := by
  by_cases hk : isWellFormed p.1 = true
  · by_cases hv : isWellFormed p.2 = true
    · simp [hk, hv, encodePair]
    · simp [hk, hv]
  · simp [hk]

/-- The pairs, if all of them have a UTF-8 form. -/
theorem mapM_encode_pair (keep : UInt8 → Bool) (params : List (JsString × JsString))
    {f : List (JsString × JsString) → JsString} :
    ((params.mapM fun p =>
      if isWellFormed p.1 = true ∧ isWellFormed p.2 = true then some (encodePair keep p)
      else none).bind fun pairs => some (f pairs)) =
      if HasForm params then some (f (params.map (encodePair keep))) else none := by
  rw [mapM_ite]
  by_cases h : ∀ p ∈ params, isWellFormed p.1 = true ∧ isWellFormed p.2 = true
  · rw [if_pos h]
    exact (if_pos h).symm
  · rw [if_neg h]
    exact (if_neg h).symm

theorem recode_eq (p : JsString) : recode p = (Aws.parameter p).bind fun p =>
    if isWellFormed p.1 = true ∧ isWellFormed p.2 = true then some (encodePair keepsMarks p)
    else none := by
  rw [recode, Aws.parameter]
  cases decodeURIComponent (cut p).1 with
  | none => rfl
  | some k =>
    cases decodeURIComponent (cut p).2 with
    | none =>
      show (encodeURIComponent k).bind _ = none
      cases encodeURIComponent k <;> rfl
    | some v => exact encode_pair keepsMarks (k, v)

/-- The query of AWS, from its names and values. -/
theorem Aws.canonicalQuery_eq (query : Option JsString) : Aws.canonicalQuery query =
    (Aws.parameters query).bind fun params =>
      if HasForm params then
        some (joinPairs ((params.map (encodePair isUnreserved)).mergeSort byNameAndValue))
      else none := by
  rw [Aws.canonicalQuery]
  show ((Aws.parameters query).bind fun params => (params.mapM Aws.encodeParameter).bind
    fun pairs => some (joinPairs (pairs.mergeSort byNameAndValue))) = _
  congr 1
  funext params
  rw [show Aws.encodeParameter = _ from funext (encode_pair isUnreserved)]
  exact mapM_encode_pair isUnreserved params

/-- The query of `signV4`. -/
theorem canonicalQuery_eq (query : Option JsString) : canonicalQuery query =
    (Aws.parameters query).bind fun params =>
      if HasForm params then
        some (joinPairs ((params.map (encodePair keepsMarks)).mergeSort byName))
      else none := by
  rw [canonicalQuery, Aws.parameters]
  by_cases hquery : query.getD [] = []
  · have hnone : HasForm [] := nofun
    rw [if_pos hquery, if_pos hquery, Option.bind_some, if_pos hnone, List.map_nil,
      List.mergeSort_nil]
    rfl
  · rw [if_neg hquery, if_neg hquery]
    show (List.mapM recode _).bind (fun pairs => some (joinPairs (pairs.mergeSort byName))) = _
    rw [funext recode_eq, mapM_bind, Option.bind_assoc]
    congr 1
    funext params
    exact mapM_encode_pair keepsMarks params

theorem keepsMarks_plain {b : UInt8} (h : keepsMarks b = true) :
    UInt16.ofNat b.toNat ∉ ([61, 38, 10] : JsString) := by
  have hlt := b.toNat_lt
  have hback : (UInt16.ofNat b.toNat).toNat = b.toNat :=
      UInt16.toNat_ofNat_of_lt' (Nat.lt_trans hlt (by decide))
  rcases (Bool.or_eq_true _ _).mp h with hb | hb
  · rcases isUnreserved_iff.mp hb with hrange | hb
    · intro hmem
      rw [List.mem_cons, List.mem_cons, List.mem_singleton] at hmem
      rcases hmem with hu | hu | hu <;> rw [hu] at hback <;> simp at hback <;> omega
    · rcases hb with rfl | rfl | rfl | rfl <;> decide
  · rcases isMark_iff.mp hb with rfl | rfl | rfl | rfl | rfl <;> decide

/-- What separates names, values and lines is not written inside them. -/
theorem not_mem_encoded {keep : UInt8 → Bool} (hkeep : ∀ b, keep b = true → keepsMarks b = true)
    (s : JsString) : 61 ∉ percentEncode keep s ∧ 38 ∉ percentEncode keep s ∧
      10 ∉ percentEncode keep s := by
  have hno : ∀ u ∈ ([61, 38, 10] : JsString), u ∉ percentEncode keep s := by
    intro u hu
    refine not_mem_percentEncode s ?_ ?_
    · rw [List.mem_cons, List.mem_cons, List.mem_singleton] at hu
      rcases hu with rfl | rfl | rfl <;> decide
    · rintro b hb rfl
      exact keepsMarks_plain (hkeep b hb) hu
  exact ⟨hno 61 (by decide), hno 38 (by decide), hno 10 (by decide)⟩

/-- Names and values that can be read back from a query. -/
def IsPlain (p : JsString × JsString) : Prop :=
  (61 ∉ p.1 ∧ 38 ∉ p.1 ∧ 10 ∉ p.1) ∧ 61 ∉ p.2 ∧ 38 ∉ p.2 ∧ 10 ∉ p.2

theorem isPlain_encodePair {keep : UInt8 → Bool} (hkeep : ∀ b, keep b = true → keepsMarks b = true)
    (p : JsString × JsString) : IsPlain (encodePair keep p) :=
  ⟨not_mem_encoded hkeep p.1, not_mem_encoded hkeep p.2⟩

theorem joinPairs_inj {xs ys : List (JsString × JsString)} (hx : ∀ p ∈ xs, IsPlain p)
    (hy : ∀ p ∈ ys, IsPlain p) (hlength : xs.length = ys.length)
    (h : joinPairs xs = joinPairs ys) : xs = ys := by
  have hone : ∀ zs : List (JsString × JsString), (∀ p ∈ zs, IsPlain p) →
      ∀ u ∈ zs.map (fun p => p.1 ++ 61 :: p.2), 38 ∉ u := by
    intro zs hzs u hu hmem
    obtain ⟨p, hp, rfl⟩ := List.mem_map.mp hu
    obtain ⟨⟨-, hname, -⟩, -, hvalue, -⟩ := hzs p hp
    rcases List.mem_append.mp hmem with hmem | hmem
    · exact hname hmem
    · rcases List.mem_cons.mp hmem with heq | hmem
      · exact absurd heq (by decide)
      · exact hvalue hmem
  have hmaps := join_inj (hone xs hx) (hone ys hy) (by simpa using hlength) h
  clear hone h
  induction xs generalizing ys with
  | nil => exact (List.eq_nil_of_length_eq_zero hlength.symm).symm
  | cons p xs ih =>
    cases ys with
    | nil => cases hlength
    | cons q ys =>
      obtain ⟨hpair, hrest⟩ := List.cons.inj hmaps
      obtain ⟨hname, hvalue⟩ :=
        Delimited.cut (hx p List.mem_cons_self).1.1 (hy q List.mem_cons_self).1.1 hpair
      rw [Prod.ext hname hvalue, ih (fun p hp => hx p (List.mem_cons_of_mem _ hp))
        (fun q hq => hy q (List.mem_cons_of_mem _ hq)) (Nat.succ.inj hlength) hrest]

/-! ### The order -/

section Order

variable (a b c : JsString × JsString)

theorem byName_trans (hab : byName a b = true) (hbc : byName b c = true) : byName a c = true := by
  simp only [byName, decide_eq_true_eq] at *
  exact List.le_trans hab hbc

theorem byName_total : (byName a b || byName b a) = true := by
  simp only [byName, Bool.or_eq_true, decide_eq_true_eq]
  exact List.le_total a.1 b.1

theorem fine_iff : Aws.byNameAndValue a b = true ↔ a.1 < b.1 ∨ a.1 = b.1 ∧ a.2 ≤ b.2 := by
  simp [Aws.byNameAndValue]

theorem fine_trans (hab : Aws.byNameAndValue a b = true) (hbc : Aws.byNameAndValue b c = true) :
    Aws.byNameAndValue a c = true := by
  rw [fine_iff] at *
  rcases hab with hab | ⟨hab, hab'⟩
  · rcases hbc with hbc | ⟨hbc, -⟩
    · exact .inl (List.lt_trans hab hbc)
    · exact .inl (hbc ▸ hab)
  · rcases hbc with hbc | ⟨hbc, hbc'⟩
    · exact .inl (hab ▸ hbc)
    · exact .inr ⟨hab.trans hbc, List.le_trans hab' hbc'⟩

/-- Of two texts that are not the same, one is less. -/
theorem lt_or_gt {s t : JsString} (h : s ≠ t) : s < t ∨ t < s := by
  by_contra hno
  rw [not_or] at hno
  exact h (List.le_antisymm hno.2 hno.1)

theorem fine_total : (Aws.byNameAndValue a b || Aws.byNameAndValue b a) = true := by
  rw [Bool.or_eq_true, fine_iff, fine_iff]
  by_cases h : a.1 = b.1
  · rcases List.le_total a.2 b.2 with hle | hle
    · exact .inl (.inr ⟨h, hle⟩)
    · exact .inr (.inr ⟨h.symm, hle⟩)
  · rcases lt_or_gt h with hlt | hlt
    · exact .inl (.inl hlt)
    · exact .inr (.inl hlt)

theorem fine_antisymm (hab : Aws.byNameAndValue a b = true) (hba : Aws.byNameAndValue b a = true) :
    a = b := by
  rw [fine_iff] at *
  rcases hab with hab | ⟨hab, hab'⟩
  · rcases hba with hba | ⟨hba, -⟩
    · exact absurd (List.lt_trans hab hba) (List.lt_irrefl _)
    · exact absurd (hba ▸ hab) (List.lt_irrefl _)
  · rcases hba with hba | ⟨-, hba'⟩
    · exact absurd (hab ▸ hba) (List.lt_irrefl _)
    · exact Prod.ext hab (List.le_antisymm hab' hba')

theorem byName_of_fine (hab : Aws.byNameAndValue a b = true) : byName a b = true := by
  rw [fine_iff] at hab
  simp only [byName, decide_eq_true_eq]
  rcases hab with hab | ⟨hab, -⟩
  · exact List.le_of_lt hab
  · exact hab ▸ List.le_refl _

/-- What the names do not tell apart has the same name. -/
theorem tied_iff : tied byName a b = true ↔ a.1 = b.1 := by
  simp only [tied, byName, Bool.and_eq_true, decide_eq_true_eq]
  constructor
  · rintro ⟨hab, hba⟩
    exact List.le_antisymm hab hba
  · rintro h
    exact ⟨h ▸ List.le_refl _, h ▸ List.le_refl _⟩

theorem fine_of_tied (h : a.1 = b.1) : Aws.byNameAndValue a b = true ↔ a.2 ≤ b.2 := by
  rw [fine_iff, h]
  constructor
  · rintro (hlt | ⟨-, hle⟩)
    · exact absurd hlt (List.lt_irrefl _)
    · exact hle
  · exact fun hle => .inr ⟨rfl, hle⟩

end Order

/-- When sorting by the name is sorting by name and value. -/
theorem sorted_iff (pairs : List (JsString × JsString)) :
    pairs.mergeSort byName = pairs.mergeSort Aws.byNameAndValue ↔
      pairs.Pairwise fun p q => p.1 = q.1 → p.2 ≤ q.2 := by
  rw [mergeSort_eq_iff byName_trans byName_total fine_trans fine_total fine_antisymm byName_of_fine]
  have hiff : ∀ p q : JsString × JsString, (tied byName p q = true →
      Aws.byNameAndValue p q = true) ↔ (p.1 = q.1 → p.2 ≤ q.2) := by
    intro p q
    rw [tied_iff]
    exact forall_congr' fun h => fine_of_tied p q h
  exact ⟨.imp fun h => (hiff _ _).mp h, .imp fun h => (hiff _ _).mpr h⟩

/-- **The query is the one of AWS** exactly when no name and no value has one of the five marks and
the values of one name come in order. -/
theorem query_iff (params : List (JsString × JsString)) :
    joinPairs ((params.map (encodePair keepsMarks)).mergeSort byName) =
        joinPairs ((params.map (encodePair isUnreserved)).mergeSort Aws.byNameAndValue) ↔
      QueryAgrees params := by
  have hfree : (∀ p ∈ params, IsMarkFree p.1 ∧ IsMarkFree p.2) →
      params.map (encodePair keepsMarks) = params.map (encodePair isUnreserved) := by
    intro hfree
    refine List.map_congr_left fun p hp => ?_
    exact Prod.ext (percentEncode_eq (hfree p hp).1) (percentEncode_eq (hfree p hp).2)
  have hordered : (params.map (encodePair isUnreserved)).mergeSort byName =
      (params.map (encodePair isUnreserved)).mergeSort Aws.byNameAndValue ↔
        params.Pairwise fun p q => percentEncode isUnreserved p.1 = percentEncode isUnreserved q.1 →
          percentEncode isUnreserved p.2 ≤ percentEncode isUnreserved q.2 := by
    rw [sorted_iff, List.pairwise_map]
    rfl
  constructor
  · intro h
    have hsorted := joinPairs_inj ?_ ?_ ?_ h
    · have hmarks : ∀ p ∈ params, IsMarkFree p.1 ∧ IsMarkFree p.2 := by
        intro p hp
        have hmem : encodePair keepsMarks p ∈
            (params.map (encodePair isUnreserved)).mergeSort Aws.byNameAndValue := by
          rw [← hsorted]
          exact List.mem_mergeSort.mpr (List.mem_map_of_mem hp)
        obtain ⟨q, -, hq⟩ := List.mem_map.mp (List.mem_mergeSort.mp hmem)
        constructor
        · refine fun u hu => Bool.eq_false_iff.mpr fun hmark => mark_not_mem q.1 hmark ?_
          rw [show percentEncode isUnreserved q.1 = _ from congrArg Prod.fst hq]
          exact mark_mem_percentEncode hu hmark
        · refine fun u hu => Bool.eq_false_iff.mpr fun hmark => mark_not_mem q.2 hmark ?_
          rw [show percentEncode isUnreserved q.2 = _ from congrArg Prod.snd hq]
          exact mark_mem_percentEncode hu hmark
      rw [hfree hmarks] at hsorted
      exact ⟨hmarks, hordered.mp hsorted⟩
    · intro p hp
      obtain ⟨q, -, rfl⟩ := List.mem_map.mp (List.mem_mergeSort.mp hp)
      exact isPlain_encodePair (fun _ hb => hb) q
    · intro p hp
      obtain ⟨q, -, rfl⟩ := List.mem_map.mp (List.mem_mergeSort.mp hp)
      exact isPlain_encodePair (fun _ hb => by rw [keepsMarks, hb]; rfl) q
    · simp
  · intro h
    rw [hfree h.free, hordered.mpr h.ordered]

/-! ### Values of headers -/

/-- A blank at the front separates nothing. -/
theorem words_blank {u : UInt16} (hu : isBlankUnit u = true) (s : JsString) :
    Aws.words (u :: s) = Aws.words s := by
  cases s with
  | nil => simp [Aws.words, hu]
  | cons v s => simp [Aws.words, hu]

/-- Nor does a blank at the end. -/
theorem words_append_blank {b : UInt16} (hb : isBlankUnit b = true) : ∀ s : JsString,
    Aws.words (s ++ [b]) = Aws.words s
  | [] => by simp [Aws.words, hb]
  | [u] => by simp [Aws.words, hb]
  | u :: v :: s => by
    have ih := words_append_blank hb (v :: s)
    simp only [List.cons_append] at ih ⊢
    rw [Aws.words, Aws.words, ih]

theorem words_dropWhile (s : JsString) : Aws.words (s.dropWhile isBlankUnit) = Aws.words s := by
  induction s with
  | nil => rfl
  | cons u s ih =>
    by_cases hu : isBlankUnit u = true
    · rw [List.dropWhile_cons, if_pos hu, ih, words_blank hu]
    · rw [List.dropWhile_cons, if_neg hu]

theorem words_trim (s : JsString) : Aws.words (trim s) = Aws.words s := by
  have hback : ∀ t : JsString,
      Aws.words (t.dropWhile isBlankUnit).reverse = Aws.words t.reverse := by
    intro t
    induction t with
    | nil => rfl
    | cons u t ih =>
      by_cases hu : isBlankUnit u = true
      · rw [List.dropWhile_cons, if_pos hu, ih, List.reverse_cons, words_append_blank hu]
      · rw [List.dropWhile_cons, if_neg hu]
  rw [trim, hback, List.reverse_reverse, words_dropWhile]

theorem words_ne_nil : ∀ s : JsString, s ≠ [] → (∀ u ∈ s.getLast?, isBlankUnit u = false) →
    Aws.words s ≠ []
  | [], hne, _ => absurd rfl hne
  | [u], _, h => by
    have hu : isBlankUnit u = false := h u rfl
    simp [Aws.words, hu]
  | u :: v :: s, _, h => by
    have hrest := words_ne_nil (v :: s) (by simp) h
    rw [Aws.words]
    split
    · exact hrest
    · split
      · simp
      · split
        · simp
        · simp

/-- A text that does not end with a blank: its words, one blank apart. -/
theorem collapse_eq : ∀ s : JsString, (∀ u ∈ s.getLast?, isBlankUnit u = false) →
    collapse true s = Aws.trimAll s
  | [], _ => rfl
  | [u], h => by
    have hu : isBlankUnit u = false := h u rfl
    simp [collapse, Aws.trimAll, Aws.words, hu, join]
  | u :: v :: s, h => by
    have hlast : ∀ w ∈ (v :: s).getLast?, isBlankUnit w = false := h
    have ih := collapse_eq (v :: s) hlast
    by_cases hu : isBlankUnit u = true
    · rw [Aws.trimAll, words_blank hu, ← Aws.trimAll, ← ih, collapse, if_pos hu, if_pos rfl]
    · obtain ⟨w, ws, hwords⟩ := List.exists_cons_of_ne_nil (words_ne_nil (v :: s) (by simp) hlast)
      rw [Aws.trimAll, hwords] at ih
      rw [collapse, if_neg hu, Aws.trimAll, Aws.words, if_neg hu]
      by_cases hv : isBlankUnit v = true
      · rw [if_pos hv, hwords, join, ← ih, collapse, if_pos hv, collapse, if_pos hv]
        rfl
      · have hsame : collapse false (v :: s) = collapse true (v :: s) := by
          rw [collapse, if_neg hv, collapse, if_neg hv]
        rw [if_neg hv, hwords, hsame, ih]
        cases ws with
        | nil => rfl
        | cons w' ws => rfl

/-- `trim().replace(/\s+/g, ' ')` leaves the words, one blank apart. -/
theorem collapse_trim (s : JsString) : collapse false (trim s) = Aws.trimAll s := by
  have htrim : trim s = (s.dropWhile isBlankUnit).rdropWhile isBlankUnit := rfl
  have hlast : ∀ u ∈ (trim s).getLast?, isBlankUnit u = false := by
    intro u hu
    have hne : trim s ≠ [] := fun hnil => by
      rw [hnil] at hu
      cases hu
    have hnot := List.rdropWhile_last_not isBlankUnit (s.dropWhile isBlankUnit) hne
    rw [Option.mem_def, List.getLast?_eq_some_getLast hne, Option.some.injEq] at hu
    exact Bool.eq_false_iff.mpr (hu ▸ hnot)
  have hfirst : collapse false (trim s) = collapse true (trim s) := by
    have hprefix : trim s <+: s.dropWhile isBlankUnit := List.rdropWhile_prefix ..
    have hhead := List.head?_dropWhile_not isBlankUnit s
    cases ht : trim s with
    | nil => rfl
    | cons u t =>
      obtain ⟨rest, hrest⟩ := ht ▸ hprefix
      rw [← hrest] at hhead
      have hu : isBlankUnit u = false := hhead
      simp [collapse, hu]
  rw [hfirst, collapse_eq _ hlast, Aws.trimAll, words_trim, ← Aws.trimAll]

end Minipg.Sigv4
