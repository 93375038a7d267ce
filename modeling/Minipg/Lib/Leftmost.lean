import Mathlib.Data.List.Basic

/-!
# Replacing the leftmost match

`f` says what becomes of a text from a place on, if there is a match at that place.  `replace` does
so at the first such place.
-/

namespace Leftmost

variable {α : Type*} (f : List α → Option (List α))

/-- The text with `f` applied at the first place where it is defined. -/
def replace : List α → List α
  | [] => (f []).getD []
  | a :: s =>
    match f (a :: s) with
    | some t => t
    | none => a :: replace s

variable {f}

theorem replace_of_some {s t : List α} (h : f s = some t) : replace f s = t := by
  cases s with
  | nil => rw [replace, h, Option.getD_some]
  | cons a s => rw [replace, h]

theorem replace_cons {a : α} {s : List α} (h : f (a :: s) = none) :
    replace f (a :: s) = a :: replace f s := by
  rw [replace, h]

/-- No match in `before` leaves it as it is. -/
theorem replace_append {before s : List α}
    (h : ∀ b c, before = b ++ c → c ≠ [] → f (c ++ s) = none) :
    replace f (before ++ s) = before ++ replace f s := by
  induction before with
  | nil => rfl
  | cons a before ih =>
    have hhere : f (a :: (before ++ s)) = none := h [] (a :: before) rfl (List.cons_ne_nil _ _)
    rw [List.cons_append, replace_cons hhere,
      ih fun b c hbc hc => h (a :: b) c (by rw [hbc, List.cons_append]) hc, List.cons_append]

theorem replace_of_none {s : List α} (h : ∀ b c, s = b ++ c → f c = none) : replace f s = s := by
  have hnil : f [] = none := h s [] (List.append_nil s).symm
  have hs : replace f (s ++ []) = s ++ replace f [] := replace_append fun b c hbc _ => by
    rw [List.append_nil]
    exact h b c hbc
  rwa [replace, hnil, Option.getD_none, List.append_nil] at hs

/-- There is a first match, or none. -/
theorem first_or_none (s : List α) :
    (∃ b c, s = b ++ c ∧ f c ≠ none ∧ ∀ b' c', s = b' ++ c' → f c' ≠ none → b.length ≤ b'.length) ∨
      ∀ b c, s = b ++ c → f c = none := by
  induction s with
  | nil =>
    by_cases h : f [] = none
    · refine .inr fun b c hbc => ?_
      rw [(List.append_eq_nil_iff.mp hbc.symm).2, h]
    · exact .inl ⟨[], [], rfl, h, fun _ _ _ _ => Nat.zero_le _⟩
  | cons a s ih =>
    by_cases h : f (a :: s) = none
    · rcases ih with ⟨b, c, rfl, hc, hfirst⟩ | hnone
      · refine .inl ⟨a :: b, c, rfl, hc, fun b' c' hbc hc' => ?_⟩
        cases b' with
        | nil => rw [List.nil_append] at hbc; exact absurd (hbc ▸ h) hc'
        | cons a' b' => exact Nat.succ_le_succ (hfirst b' c' (List.cons.inj hbc).2 hc')
      · refine .inr fun b c hbc => ?_
        cases b with
        | nil => rw [List.nil_append] at hbc; exact hbc ▸ h
        | cons a' b => exact hnone b c (List.cons.inj hbc).2
    · exact .inl ⟨[], a :: s, rfl, h, fun _ _ _ _ => Nat.zero_le _⟩

/-- A tail that no match reaches stays. -/
theorem replace_append_right {tail : List α} (h : ∀ s, f (s ++ tail) = (f s).map (· ++ tail))
    (htail : replace f tail = tail) (hnil : f [] = none) (s : List α) :
    replace f (s ++ tail) = replace f s ++ tail := by
  induction s with
  | nil => rw [List.nil_append, htail, replace, hnil, Option.getD_none, List.nil_append]
  | cons a s ih =>
    have hs := h (a :: s)
    rw [List.cons_append] at hs ⊢
    cases hf : f (a :: s) with
    | none =>
      rw [hf, Option.map_none] at hs
      rw [replace_cons hs, replace_cons hf, ih, List.cons_append]
    | some t =>
      rw [hf, Option.map_some] at hs
      rw [replace_of_some hs, replace_of_some hf]

end Leftmost
