import Minipg.Json.Buffer
import Mathlib.Data.List.TakeWhile

/-!
# Keys in a text

A value is read from its own characters (`local_rules`), and in a text a name between quotes with
a colon behind it is the end of a key, whose value follows (`found_of_text`).
-/

namespace Minipg.Json

open Js
open Cells (isDigit)

/-! ### The characters of a value -/

/-- No number goes on. -/
def Apart (s : JsString) : Prop := ∀ u ∈ s.head?, isNumeric u = false

theorem skipWs_split {s t : JsString} {u : UInt16} (h : skipWs s = u :: t) :
    ∃ w, s = w ++ u :: t ∧ (∀ t', skipWs (w ++ u :: t') = u :: t') ∧
      (isNumeric u = false → ∀ t', Apart (w ++ u :: t')) := by
  have hall : ∀ v ∈ s.takeWhile isWs, isWs v = true := fun v hv => List.mem_takeWhile_imp hv
  have hu : ¬isWs u = true := by
    have hnot := List.head?_dropWhile_not isWs s
    rw [show s.dropWhile isWs = u :: t from h] at hnot
    rw [show isWs u = false from hnot]
    decide
  refine ⟨s.takeWhile isWs, ?_, fun t' => ?_, fun hnum t' => ?_⟩
  · rw [← h]
    exact List.takeWhile_append_dropWhile.symm
  · unfold skipWs
    rw [List.dropWhile_append_of_pos hall, List.dropWhile_cons_of_neg hu]
  · cases hw : s.takeWhile isWs with
    | nil =>
      intro v hv
      cases hv
      exact hnum
    | cons x w =>
      intro v hv
      cases hv
      have hx := hall x (by rw [hw]; exact List.mem_cons_self)
      unfold isWs at hx
      rw [decide_eq_true_eq] at hx
      rcases hx with rfl | rfl | rfl | rfl
      all_goals decide

/-- The same is read whatever follows. -/
def Local {β : Type} (R : JsString → β → JsString → Prop) (P : JsString → Prop) (s : JsString)
    (v : β) (rest : JsString) : Prop :=
  ∃ u c, s = (u :: c) ++ rest ∧ ∀ rest', P rest' → R ((u :: c) ++ rest') v rest'

theorem ascii_true : ascii "true" = [116, 114, 117, 101] := by decide

theorem ascii_false : ascii "false" = [102, 97, 108, 115, 101] := by decide

theorem ascii_null : ascii "null" = [110, 117, 108, 108] := by decide

theorem not_starts {u v : UInt16} (h : u ≠ v) (w c s : JsString) : ¬u :: w <+: (v :: c) ++ s := by
  rintro ⟨r, hr⟩
  exact h (List.cons.inj hr).1

theorem parseWord_local {s rest : JsString} {a : Ast} (h : parseWord s = some (a, rest)) :
    Local (fun s a rest => parseWord s = some (a, rest)) Apart s a rest := by
  unfold parseWord at h
  rw [ascii_true, ascii_false, ascii_null] at h
  split at h
  · rename_i hp
    obtain ⟨r, rfl⟩ := hp
    cases h
    refine ⟨116, [114, 117, 101], rfl, fun rest' _ => ?_⟩
    show parseWord _ = some (_, rest')
    unfold parseWord
    rw [ascii_true, if_pos (List.prefix_append _ _)]
    rfl
  split at h
  · rename_i hp
    obtain ⟨r, rfl⟩ := hp
    cases h
    refine ⟨102, [97, 108, 115, 101], rfl, fun rest' _ => ?_⟩
    show parseWord _ = some (_, rest')
    unfold parseWord
    rw [ascii_true, ascii_false, if_neg (not_starts (show (116 : UInt16) ≠ 102 by decide) _ _ _),
      if_pos (List.prefix_append _ _)]
    rfl
  split at h
  · rename_i hp
    obtain ⟨r, rfl⟩ := hp
    cases h
    refine ⟨110, [117, 108, 108], rfl, fun rest' _ => ?_⟩
    show parseWord _ = some (_, rest')
    unfold parseWord
    rw [ascii_true, ascii_false, ascii_null,
      if_neg (not_starts (show (116 : UInt16) ≠ 110 by decide) _ _ _),
      if_neg (not_starts (show (102 : UInt16) ≠ 110 by decide) _ _ _),
      if_pos (List.prefix_append _ _)]
    rfl
  split at h
  · rename_i hnumber
    cases h
    cases htoken : s.takeWhile isNumeric with
    | nil =>
      rw [htoken] at hnumber
      cases hnumber
    | cons u c =>
      have hall : ∀ v ∈ u :: c, isNumeric v = true := by
        intro v hv
        rw [← htoken] at hv
        exact List.mem_takeWhile_imp hv
      have hne : ∀ k, isNumeric k = false → k ≠ u := by
        rintro k hk rfl
        rw [hall k List.mem_cons_self] at hk
        cases hk
      refine ⟨u, c, ?_, fun rest' hrest => ?_⟩
      · rw [← htoken]
        exact List.takeWhile_append_dropWhile.symm
      · have htake : ((u :: c) ++ rest').takeWhile isNumeric = u :: c := by
          rw [List.takeWhile_append_of_pos hall]
          cases rest' with
          | nil => exact List.append_nil _
          | cons x r =>
            rw [List.takeWhile_cons_of_neg (by rw [hrest x rfl]; decide), List.append_nil]
        have hdrop : ((u :: c) ++ rest').dropWhile isNumeric = rest' := by
          rw [List.dropWhile_append_of_pos hall]
          cases rest' with
          | nil => rfl
          | cons x r => exact List.dropWhile_cons_of_neg (by rw [hrest x rfl]; decide)
        rw [htoken] at hnumber
        show parseWord _ = some (_, rest')
        unfold parseWord
        rw [ascii_true, ascii_false, ascii_null,
          if_neg (not_starts (hne 116 (by decide)) _ _ _),
          if_neg (not_starts (hne 102 (by decide)) _ _ _),
          if_neg (not_starts (hne 110 (by decide)) _ _ _), htake, hdrop, if_pos hnumber]
  · cases h

theorem Local.of_append {β : Type} {R : JsString → β → JsString → Prop} {P : JsString → Prop}
    {v : β} {s c rest : JsString} (hne : c ≠ []) (hs : s = c ++ rest)
    (h : ∀ rest', P rest' → R (c ++ rest') v rest') : Local R P s v rest := by
  obtain ⟨u, c, rfl⟩ := List.exists_cons_of_ne_nil hne
  exact ⟨u, c, hs, h⟩

abbrev LocalValue := Local Reads Apart

abbrev LocalItems := Local ReadsItems fun _ => True

abbrev LocalMembers := Local ReadsMembers fun _ => True

/-- **A value is read from its characters.** -/
theorem local_rules : Rules LocalValue LocalItems LocalMembers := by
  constructor
  case emptyObject =>
    intro s t rest hs ht
    obtain ⟨w, rfl, hw, -⟩ := skipWs_split hs
    obtain ⟨w', rfl, hw', -⟩ := skipWs_split ht
    refine .of_append (c := w ++ 123 :: (w' ++ [125])) (by simp) (by simp) fun rest' _ => ?_
    simp only [List.append_assoc, List.cons_append, List.nil_append]
    exact fuel_rules.emptyObject (hw _) (hw' _)
  case object =>
    intro s t rest ms hs hne h
    obtain ⟨w, rfl, hw, -⟩ := skipWs_split hs
    obtain ⟨u, c, hc, h⟩ := h
    obtain ⟨w', rfl, hw', -⟩ := skipWs_split hc
    refine .of_append (c := w ++ 123 :: (w' ++ u :: c)) (by simp) (by simp) fun rest' _ => ?_
    simp only [List.append_assoc, List.cons_append]
    refine fuel_rules.object (hw _) ?_ ?_
    · rw [hw'] at hne ⊢
      exact hne
    · rw [hw']
      exact h rest' trivial
  case emptyArray =>
    intro s t rest hs ht
    obtain ⟨w, rfl, hw, -⟩ := skipWs_split hs
    obtain ⟨w', rfl, hw', -⟩ := skipWs_split ht
    refine .of_append (c := w ++ 91 :: (w' ++ [93])) (by simp) (by simp) fun rest' _ => ?_
    simp only [List.append_assoc, List.cons_append, List.nil_append]
    exact fuel_rules.emptyArray (hw _) (hw' _)
  case array =>
    intro s t rest vs hs hne h
    obtain ⟨w, rfl, hw, -⟩ := skipWs_split hs
    obtain ⟨u, c, hc, h⟩ := h
    obtain ⟨w', rfl, hw', -⟩ := skipWs_split hc
    refine .of_append (c := w ++ 91 :: (w' ++ u :: c)) (by simp) (by simp) fun rest' _ => ?_
    simp only [List.append_assoc, List.cons_append]
    refine fuel_rules.array (hw _) ?_ ?_
    · rw [hw'] at hne ⊢
      exact hne
    · rw [hw']
      exact h rest' trivial
  case string =>
    intro s t rest v hs hv
    obtain ⟨w, rfl, hw, -⟩ := skipWs_split hs
    obtain ⟨u, c, rfl, h⟩ := (parseChars_iff.mp hv).split
    refine .of_append (c := w ++ 34 :: u :: c) (by simp) (by simp) fun rest' _ => ?_
    simp only [List.append_assoc, List.cons_append]
    exact fuel_rules.string (hw _) (parseChars_iff.mpr (h rest'))
  case word =>
    intro s t rest u a hs hbrace hbracket hquote h
    obtain ⟨w, rfl, hw, -⟩ := skipWs_split hs
    obtain ⟨v, c, hc, hword⟩ := parseWord_local h
    obtain ⟨rfl, rfl⟩ := List.cons.inj hc
    refine .of_append (c := w ++ u :: c) (by simp) (by simp) fun rest' hrest => ?_
    simp only [List.append_assoc, List.cons_append]
    exact fuel_rules.word (hw _) hbrace hbracket hquote (hword rest' hrest)
  case lastItem =>
    intro s r rest v hv hr
    obtain ⟨u, c, rfl, hv⟩ := hv
    obtain ⟨w, rfl, hw, hapart⟩ := skipWs_split hr
    refine .of_append (c := (u :: c) ++ (w ++ [93])) (by simp) (by simp) fun rest' _ => ?_
    have hv := hv (w ++ 93 :: rest') (hapart (by decide) rest')
    simp only [List.append_assoc, List.cons_append, List.nil_append] at hv ⊢
    exact fuel_rules.lastItem hv (hw _)
  case item =>
    intro s r t rest v vs hv hr hvs
    obtain ⟨u, c, rfl, hv⟩ := hv
    obtain ⟨w, rfl, hw, hapart⟩ := skipWs_split hr
    obtain ⟨u', c', rfl, hvs⟩ := hvs
    refine .of_append (c := (u :: c) ++ (w ++ 44 :: u' :: c')) (by simp) (by simp) fun rest' _ => ?_
    have hv := hv (w ++ 44 :: ((u' :: c') ++ rest')) (hapart (by decide) _)
    simp only [List.append_assoc, List.cons_append] at hv ⊢
    exact fuel_rules.item hv (hw _) (hvs rest' trivial)
  case lastMember =>
    intro s t t' t'' r rest k v hs hk hcol hv hr
    obtain ⟨w, rfl, hw, -⟩ := skipWs_split hs
    obtain ⟨x, b, rfl, hkey⟩ := (parseChars_iff.mp hk).split
    obtain ⟨w', rfl, hw', -⟩ := skipWs_split hcol
    obtain ⟨u, c, rfl, hv⟩ := hv
    obtain ⟨w'', rfl, hw'', hapart⟩ := skipWs_split hr
    refine .of_append (c := w ++ 34 :: ((x :: b) ++ (w' ++ 58 :: ((u :: c) ++ (w'' ++ [125])))))
      (by simp) (by simp) fun rest' _ => ?_
    have hv := hv (w'' ++ 125 :: rest') (hapart (by decide) _)
    have hkey := parseChars_iff.mpr (hkey (w' ++ 58 :: ((u :: c) ++ (w'' ++ 125 :: rest'))))
    simp only [List.append_assoc, List.cons_append, List.nil_append] at hv hkey ⊢
    exact fuel_rules.lastMember (hw _) hkey (hw' _) hv (hw'' _)
  case member =>
    intro s t t' t'' r r' rest k v ms hs hk hcol hv hr hms
    obtain ⟨w, rfl, hw, -⟩ := skipWs_split hs
    obtain ⟨x, b, rfl, hkey⟩ := (parseChars_iff.mp hk).split
    obtain ⟨w', rfl, hw', -⟩ := skipWs_split hcol
    obtain ⟨u, c, rfl, hv⟩ := hv
    obtain ⟨w'', rfl, hw'', hapart⟩ := skipWs_split hr
    obtain ⟨u', c', rfl, hms⟩ := hms
    refine .of_append
      (c := w ++ 34 :: ((x :: b) ++ (w' ++ 58 :: ((u :: c) ++ (w'' ++ 44 :: u' :: c')))))
      (by simp) (by simp) fun rest' _ => ?_
    have hv := hv (w'' ++ 44 :: ((u' :: c') ++ rest')) (hapart (by decide) _)
    have hkey := parseChars_iff.mpr
      (hkey (w' ++ 58 :: ((u :: c) ++ (w'' ++ 44 :: ((u' :: c') ++ rest')))))
    simp only [List.append_assoc, List.cons_append] at hv hkey ⊢
    exact fuel_rules.member (hw _) hkey (hw' _) hv (hw'' _) (hms rest' trivial)

theorem text_of_reads {s rest : JsString} {a : Ast} (h : Reads s a rest) :
    ∃ u c, s = (u :: c) ++ rest ∧ parseText (u :: c) = some a := by
  obtain ⟨u, c, hs, h⟩ := (local_rules.read s.length).1 (h.2 s.length (Nat.le_add_right _ _))
  have hall := (h [] fun u hu => (nomatch hu)).2 (u :: c).length (by simp)
  rw [List.append_nil] at hall
  exact ⟨u, c, hs, parseText_of_value hall rfl⟩

/-! ### Keys -/

mutual

/-- The members of a value and of what it holds. -/
def Ast.pairs : Ast → List (JsString × Ast)
  | .null | .boolean _ | .number _ | .string _ => []
  | .array vs => pairsItems vs
  | .object ms => pairsMembers ms

def pairsItems : List Ast → List (JsString × Ast)
  | [] => []
  | v :: vs => v.pairs ++ pairsItems vs

def pairsMembers : List (JsString × Ast) → List (JsString × Ast)
  | [] => []
  | (k, v) :: ms => (k, v) :: (v.pairs ++ pairsMembers ms)

end

/-- The key is `w`, or ends with it behind a quote; so its text ends with that of `w`. -/
def EndsAs (w k : JsString) : Prop := k = w ∨ (34 :: w) <:+ k

/-- Small letters. -/
def IsName (w : JsString) : Prop := w ≠ [] ∧ ∀ u ∈ w, 97 ≤ u.toNat ∧ u.toNat ≤ 122

instance (w k : JsString) : Decidable (EndsAs w k) := inferInstanceAs (Decidable (_ ∨ _))

section Keys

variable {w : JsString} (hw : IsName w)

/-- A colon or a small letter follows. -/
def Joined (rest : JsString) : Prop :=
  ∃ u ∈ rest.head?, u = 58 ∨ 97 ≤ u.toNat ∧ u.toNat ≤ 122

theorem skipWs_of_head {rest : JsString} {u : UInt16} (hu : u ∈ rest.head?) (h : 58 ≤ u.toNat) :
    skipWs rest = rest := by
  have hcons := cons_of_head? hu
  rw [hcons]
  refine List.dropWhile_cons_of_neg fun hws => ?_
  unfold isWs at hws
  rw [decide_eq_true_eq] at hws
  rcases hws with rfl | rfl | rfl | rfl
  all_goals
    revert h
    decide

theorem Joined.head {rest : JsString} (h : Joined rest) : ∃ u ∈ (skipWs rest).head?,
    u = 58 ∨ 97 ≤ u.toNat ∧ u.toNat ≤ 122 := by
  obtain ⟨u, hu, hname⟩ := h
  refine ⟨u, ?_, hname⟩
  rw [skipWs_of_head hu]
  · exact hu
  · rcases hname with rfl | hname
    · decide
    · omega

theorem skipWs_name (hw : IsName w) (s : JsString) :
    ∃ u ∈ (skipWs (w ++ s)).head?, 97 ≤ u.toNat ∧ u.toNat ≤ 122 := by
  obtain ⟨u, w', rfl⟩ := List.exists_cons_of_ne_nil hw.1
  have hu := hw.2 u List.mem_cons_self
  refine ⟨u, ?_, hu⟩
  rw [skipWs_of_head (u := u) rfl (by omega)]
  rfl

theorem chars_name (hw : ∀ u ∈ w, 97 ≤ u.toNat ∧ u.toNat ≤ 122) {q v rest : JsString}
    (h : Chars (w ++ 34 :: q) v rest) : v = w ∧ rest = q := by
  induction w generalizing v with
  | nil =>
    cases h with
    | quote => exact ⟨rfl, rfl⟩
    | plain hq => exact absurd rfl hq
  | cons u w ih =>
    have hu := hw u List.mem_cons_self
    rw [List.cons_append] at h
    generalize hs : w ++ 34 :: q = s at h
    cases h with
    | quote => exact absurd hu (by decide)
    | plain _ _ _ h =>
      rw [← hs] at h
      obtain ⟨rfl, rfl⟩ := ih (fun x hx => hw x (List.mem_cons_of_mem u hx)) h
      exact ⟨rfl, rfl⟩
    | escape => exact absurd hu (by decide)
    | unit => exact absurd hu (by decide)

/-- The name in a string, behind its first quote. -/
theorem chars_key (hw : IsName w) {s v rest t q : JsString} (h : Chars s v rest) (ht : t <:+ s)
    (hlen : rest.length < t.length) (hq : t = 34 :: (w ++ 34 :: 58 :: q)) :
    (∃ r, rest = w ++ r) ∨ (34 :: w) <:+ v ∧ rest = 58 :: q := by
  induction h with
  | quote rest =>
    rcases List.suffix_cons_iff.mp ht with rfl | ht
    · exact .inl ⟨_, (List.cons.inj hq).2⟩
    · have hle := ht.length_le
      omega
  | @plain u s v rest hq' hb hc h ih =>
    rcases List.suffix_cons_iff.mp ht with rfl | ht
    · exact absurd (List.cons.inj hq).1 hq'
    · refine (ih ht hlen).imp_right fun h => ⟨h.1.trans (List.suffix_cons _ _), h.2⟩
  | @escape e x s v rest he hx h ih =>
    rcases List.suffix_cons_iff.mp ht with rfl | ht
    · exact absurd (List.cons.inj hq).1 (by decide)
    rcases List.suffix_cons_iff.mp ht with rfl | ht
    · obtain ⟨rfl, hs⟩ := List.cons.inj hq
      rw [hs] at h
      obtain ⟨rfl, rfl⟩ := chars_name hw.2 h
      have hx34 : x = 34 := by
        have h34 : escaped 34 = some 34 := by decide
        rw [h34] at hx
        cases hx
        rfl
      rw [hx34]
      exact .inr ⟨List.suffix_rfl, rfl⟩
    · exact (ih ht hlen).imp_right fun h => ⟨h.1.trans (List.suffix_cons _ _), h.2⟩
  | @unit a b c d x s v rest hx h ih =>
    obtain ⟨ha, hb, hc, hd⟩ := hexUnit_some hx
    rcases List.suffix_cons_iff.mp ht with rfl | ht
    · exact absurd (List.cons.inj hq).1 (by decide)
    rcases List.suffix_cons_iff.mp ht with rfl | ht
    · exact absurd (List.cons.inj hq).1 (by decide)
    rcases List.suffix_cons_iff.mp ht with rfl | ht
    · exact absurd (List.cons.inj hq).1 (hexValue_plain ha).2.1
    rcases List.suffix_cons_iff.mp ht with rfl | ht
    · exact absurd (List.cons.inj hq).1 (hexValue_plain hb).2.1
    rcases List.suffix_cons_iff.mp ht with rfl | ht
    · exact absurd (List.cons.inj hq).1 (hexValue_plain hc).2.1
    rcases List.suffix_cons_iff.mp ht with rfl | ht
    · exact absurd (List.cons.inj hq).1 (hexValue_plain hd).2.1
    · exact (ih ht hlen).imp_right fun h => ⟨h.1.trans (List.suffix_cons _ _), h.2⟩

/-- A key of `pairs` that ends as `w`, and its value is what `q` starts with. -/
def KeyFound (w : JsString) (pairs : List (JsString × Ast)) (q : JsString) : Prop :=
  ∃ k v rest, (k, v) ∈ pairs ∧ EndsAs w k ∧ Reads q v rest

theorem KeyFound.imp {pairs pairs' : List (JsString × Ast)} {q : JsString} (h : KeyFound w pairs q)
    (hsub : ∀ p ∈ pairs, p ∈ pairs') : KeyFound w pairs' q := by
  obtain ⟨k, v, rest, hmem, hends, hreads⟩ := h
  exact ⟨k, v, rest, hsub _ hmem, hends, hreads⟩

/-- The name of a string, or of its end. -/
theorem string_key (hw : IsName w) {s v rest t q : JsString} (h : Chars s v rest)
    (ht : t <:+ 34 :: s) (hlen : rest.length < t.length) (hq : t = 34 :: (w ++ 34 :: 58 :: q)) :
    (∃ r, rest = w ++ r) ∨ EndsAs w v ∧ rest = 58 :: q := by
  rcases List.suffix_cons_iff.mp ht with rfl | ht
  · rw [(List.cons.inj hq).2] at h
    obtain ⟨rfl, rfl⟩ := chars_name hw.2 h
    exact .inr ⟨.inl rfl, rfl⟩
  · exact (chars_key hw h ht hlen hq).imp_right fun h => ⟨.inr h.1, h.2⟩

section Behind

variable {s t t' r q : JsString} {u : UInt16}

/-- A quote is not in white space. -/
theorem suffix_skipWs (hq : t' = 34 :: q) : ∀ {s : JsString}, t' <:+ s → t' <:+ skipWs s
  | [], ht => ht
  | x :: s, ht => by
    by_cases hx : isWs x = true
    · have hskip : skipWs (x :: s) = skipWs s := List.dropWhile_cons_of_pos hx
      rw [hskip]
      rcases List.suffix_cons_iff.mp ht with rfl | ht
      · cases hq
        cases hx
      · exact suffix_skipWs hq ht
    · have hskip : skipWs (x :: s) = x :: s := List.dropWhile_cons_of_neg hx
      rwa [hskip]

theorem suffix_behind (hq : t' = 34 :: q) (hs : skipWs s = u :: t) (hu : u ≠ 34) (ht : t' <:+ s) :
    t' <:+ t := by
  have ht := suffix_skipWs hq ht
  rw [hs] at ht
  rcases List.suffix_cons_iff.mp ht with rfl | ht
  · exact absurd (List.cons.inj hq).1 hu
  · exact ht

/-- A quote is in what has been read, or in what is left. -/
theorem suffix_or (ht : t' <:+ s) (hr : r <:+ s) : r.length < t'.length ∨ t' <:+ r := by
  by_cases hlen : r.length < t'.length
  · exact .inl hlen
  · exact .inr (List.suffix_of_suffix_length_le ht hr (by omega))

theorem quote_mem {c : JsString} (ht : t' <:+ c ++ r) (hlen : r.length < t'.length)
    (hq : t' = 34 :: q) : 34 ∈ c := by
  obtain ⟨p, hp⟩ := ht
  rcases List.append_eq_append_iff.mp hp with ⟨m, rfl, hm⟩ | ⟨m, rfl, hm⟩
  · cases m with
    | nil =>
      rw [List.nil_append] at hm
      rw [hm] at hlen
      omega
    | cons u m =>
      rw [hq] at hm
      cases hm
      simp
  · rw [hm, List.length_append] at hlen
    omega

end Behind

/-- A word has no quotes and no brackets. -/
def IsPlain (u : UInt16) : Prop := IsAscii u ∧ u ≠ 34 ∧ u ≠ 91 ∧ u ≠ 93

instance (u : UInt16) : Decidable (IsPlain u) := inferInstanceAs (Decidable (_ ∧ _))

theorem parseWord_plain {s rest : JsString} {a : Ast} (h : parseWord s = some (a, rest)) :
    ∃ c, s = c ++ rest ∧ ∀ u ∈ c, IsPlain u := by
  unfold parseWord at h
  split at h
  · rename_i hp
    obtain ⟨r, rfl⟩ := hp
    cases h
    exact ⟨_, rfl, forall_of_all (by decide)⟩
  split at h
  · rename_i hp
    obtain ⟨r, rfl⟩ := hp
    cases h
    exact ⟨_, rfl, forall_of_all (by decide)⟩
  split at h
  · rename_i hp
    obtain ⟨r, rfl⟩ := hp
    cases h
    exact ⟨_, rfl, forall_of_all (by decide)⟩
  split at h
  · cases h
    refine ⟨_, List.takeWhile_append_dropWhile.symm, fun u hu => ?_⟩
    have hnumeric := List.mem_takeWhile_imp hu
    refine ⟨isNumeric_ascii u hnumeric, ?_, ?_, ?_⟩
    all_goals
      rintro rfl
      cases hnumeric
  · cases h

/-- The key text of `w` in what is read as a value is that of a member. -/
def Keyed (w s : JsString) (a : Ast) (rest : JsString) : Prop :=
  Reads s a rest ∧ ∀ t q, t <:+ s → rest.length < t.length → t = 34 :: (w ++ 34 :: 58 :: q) →
    KeyFound w a.pairs q ∨ (∃ v, a = .string v) ∧ Joined rest

def KeyedItems (w s : JsString) (vs : List Ast) (rest : JsString) : Prop :=
  ReadsItems s vs rest ∧ ∀ t q, t <:+ s → rest.length < t.length →
    t = 34 :: (w ++ 34 :: 58 :: q) → KeyFound w (pairsItems vs) q

def KeyedMembers (w s : JsString) (ms : List (JsString × Ast)) (rest : JsString) : Prop :=
  ReadsMembers s ms rest ∧ ∀ t q, t <:+ s → rest.length < t.length →
    t = 34 :: (w ++ 34 :: 58 :: q) → KeyFound w (pairsMembers ms) q

/-- The key text is in the value, or behind what follows it. -/
theorem Keyed.behind {s r r' t q : JsString} {v : Ast} {u : UInt16} (hv : Keyed w s v r)
    (hr : skipWs r = u :: r') (hu : u = 44 ∨ u = 93 ∨ u = 125) (ht : t <:+ s)
    (hq : t = 34 :: (w ++ 34 :: 58 :: q)) : KeyFound w v.pairs q ∨ t <:+ r' := by
  have hne : u ≠ 34 := by
    rcases hu with rfl | rfl | rfl
    all_goals decide
  rcases suffix_or ht hv.1.1.1 with hlen | ht
  · refine (hv.2 t q ht hlen hq).imp_right fun h => ?_
    obtain ⟨x, hx, hjoined⟩ := h.2.head
    rw [hr] at hx
    cases hx
    rcases hu with rfl | rfl | rfl
    all_goals exact absurd hjoined (by decide)
  · exact .inr (suffix_behind hq hr hne ht)

/-- The key text is that of this key, or behind its colon. -/
theorem key_behind (hw : IsName w) {s k t' t t'' b q : JsString} (hs : skipWs s = 34 :: b)
    (hk : Chars b k t') (hcol : skipWs t' = 58 :: t'') (ht : t <:+ s)
    (hq : t = 34 :: (w ++ 34 :: 58 :: q)) : EndsAs w k ∧ t'' = q ∨ t <:+ t'' := by
  have ht := suffix_skipWs hq ht
  rw [hs] at ht
  have hb : t' <:+ 34 :: b := by
    obtain ⟨u, c, rfl, -⟩ := hk.split
    exact (List.suffix_append _ _).trans (List.suffix_cons _ _)
  rcases suffix_or ht hb with hlen | ht
  · rcases string_key hw hk ht hlen hq with ⟨r, rfl⟩ | ⟨hends, rfl⟩
    · obtain ⟨x, hx, hname⟩ := skipWs_name hw r
      rw [hcol] at hx
      cases hx
      exact absurd hname (by decide)
    · have hskip : skipWs (58 :: q) = 58 :: q := List.dropWhile_cons_of_neg (by decide)
      rw [hskip] at hcol
      exact .inl ⟨hends, (List.cons.inj hcol).2.symm⟩
  · exact .inr (suffix_behind hq hcol (by decide) ht)

theorem keyed_rules (hw : IsName w) : Rules (Keyed w) (KeyedItems w) (KeyedMembers w) := by
  constructor
  case emptyObject =>
    intro s t rest hs ht
    refine ⟨fuel_rules.emptyObject hs ht, fun t' q ht' hlen hq => ?_⟩
    have hle := (suffix_behind hq ht (by decide) (suffix_behind hq hs (by decide) ht')).length_le
    omega
  case object =>
    intro s t rest ms hs hne h
    refine ⟨fuel_rules.object hs hne h.1, fun t' q ht' hlen hq => ?_⟩
    exact .inl (h.2 t' q (suffix_skipWs hq (suffix_behind hq hs (by decide) ht')) hlen hq)
  case emptyArray =>
    intro s t rest hs ht
    refine ⟨fuel_rules.emptyArray hs ht, fun t' q ht' hlen hq => ?_⟩
    have hle := (suffix_behind hq ht (by decide) (suffix_behind hq hs (by decide) ht')).length_le
    omega
  case array =>
    intro s t rest vs hs hne h
    refine ⟨fuel_rules.array hs hne h.1, fun t' q ht' hlen hq => ?_⟩
    exact .inl (h.2 t' q (suffix_skipWs hq (suffix_behind hq hs (by decide) ht')) hlen hq)
  case string =>
    intro s t rest v hs hv
    refine ⟨fuel_rules.string hs hv, fun t' q ht' hlen hq => .inr ⟨⟨v, rfl⟩, ?_⟩⟩
    have ht' := suffix_skipWs hq ht'
    rw [hs] at ht'
    rcases string_key hw (parseChars_iff.mp hv) ht' hlen hq with ⟨r, rfl⟩ | ⟨-, rfl⟩
    · obtain ⟨u, w', rfl⟩ := List.exists_cons_of_ne_nil hw.1
      exact ⟨u, rfl, .inr (hw.2 u List.mem_cons_self)⟩
    · exact ⟨58, rfl, .inl rfl⟩
  case word =>
    intro s t rest u a hs hbrace hbracket hquote h
    refine ⟨fuel_rules.word hs hbrace hbracket hquote h, fun t' q ht' hlen hq => ?_⟩
    obtain ⟨c, hc, hplain⟩ := parseWord_plain h
    have ht' := suffix_skipWs hq ht'
    rw [hs, hc] at ht'
    exact absurd rfl (hplain 34 (quote_mem ht' hlen hq)).2.1
  case lastItem =>
    intro s r rest v hv hr
    refine ⟨fuel_rules.lastItem hv.1 hr, fun t q ht hlen hq => ?_⟩
    rcases hv.behind hr (by decide) ht hq with h | ht
    · exact h.imp fun p hp => List.mem_append_left _ hp
    · have hle := ht.length_le
      omega
  case item =>
    intro s r t rest v vs hv hr hvs
    refine ⟨fuel_rules.item hv.1 hr hvs.1, fun t' q ht hlen hq => ?_⟩
    rcases hv.behind hr (by decide) ht hq with h | ht
    · exact h.imp fun p hp => List.mem_append_left _ hp
    · exact (hvs.2 t' q ht hlen hq).imp fun p hp => List.mem_append_right _ hp
  case lastMember =>
    intro s b t' t'' r rest k v hs hk hcol hv hr
    refine ⟨fuel_rules.lastMember hs hk hcol hv.1 hr, fun t q ht hlen hq => ?_⟩
    rcases key_behind hw hs (parseChars_iff.mp hk) hcol ht hq with ⟨hends, rfl⟩ | ht
    · exact ⟨k, v, r, List.mem_cons_self, hends, hv.1⟩
    rcases hv.behind hr (by decide) ht hq with h | ht
    · exact h.imp fun p hp => List.mem_cons_of_mem _ (List.mem_append_left _ hp)
    · have hle := ht.length_le
      omega
  case member =>
    intro s b t' t'' r r' rest k v ms hs hk hcol hv hr hms
    refine ⟨fuel_rules.member hs hk hcol hv.1 hr hms.1, fun t q ht hlen hq => ?_⟩
    rcases key_behind hw hs (parseChars_iff.mp hk) hcol ht hq with ⟨hends, rfl⟩ | ht
    · exact ⟨k, v, r, List.mem_cons_self, hends, hv.1⟩
    rcases hv.behind hr (by decide) ht hq with h | ht
    · exact h.imp fun p hp => List.mem_cons_of_mem _ (List.mem_append_left _ hp)
    · refine (hms.2 t q ht hlen hq).imp fun p hp => ?_
      exact List.mem_cons_of_mem _ (List.mem_append_right _ hp)

/-- **Key texts are those of members.** -/
theorem found_of_text (hw : IsName w) {s q : JsString} {a : Ast} (h : parseText s = some a)
    (hq : 34 :: (w ++ 34 :: 58 :: q) <:+ s) : KeyFound w a.pairs q := by
  obtain ⟨rest, hkeyed, hrest⟩ := (keyed_rules hw).text h
  rcases suffix_or hq hkeyed.1.1.1 with hlen | hq
  · rcases hkeyed.2 _ q hq hlen rfl with h | ⟨-, hjoined⟩
    · exact h
    · obtain ⟨u, hu, -⟩ := hjoined.head
      rw [hrest] at hu
      cases hu
  · have hsuf := suffix_skipWs rfl hq
    rw [hrest] at hsuf
    cases List.suffix_nil.mp hsuf

end Keys

end Minipg.Json
