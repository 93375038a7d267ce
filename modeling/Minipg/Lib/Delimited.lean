import Mathlib.Data.List.Basic

/-!
# Texts that are read from the left

Two texts are put together from parts, and are the same.  Whether the parts are the same depends
on where the parts end: a part may say so itself (`SelfEnding`), or end at the first occurrence of
a separator (`cut`).  Where a separator may occur inside a part, one of the two parts goes past it
(`cut_or_longer`).  Where separators stand on both sides of a part, `parts` finds it again.
-/

namespace Minipg.Delimited

variable {α χ : Type} {c d : χ} {u v r s : List χ}

/-! ### Texts that say where they end -/

/-- A text of `f` says what it is a text of and where it ends, whatever follows. -/
def SelfEnding (f : α → List χ) : Prop := ∀ a b r s, f a ++ r = f b ++ s → a = b ∧ r = s

theorem SelfEnding.of_begins {f : α → List χ} (h : ∀ a b, f a <+: f b → a = b) :
    SelfEnding f := by
  intro a b r s hab
  have ha : f a <+: f b ++ s := ⟨r, hab⟩
  have hb : f b <+: f b ++ s := ⟨s, rfl⟩
  obtain rfl : a = b := by
    obtain h' | h' := List.prefix_or_prefix_of_prefix ha hb
    · exact h a b h'
    · exact (h b a h').symm
  exact ⟨rfl, List.append_cancel_left hab⟩

/-- A list of texts between which nothing stands, up to a sign that none of them begins with. -/
theorem SelfEnding.closed {f : α → List χ} (h : SelfEnding f) (hc : ∀ a, (f a).head? ≠ some c)
    (hne : ∀ a, f a ≠ []) : SelfEnding fun l : List α => l.flatMap f ++ [c] := by
  have head : ∀ a r s, f a ++ r ≠ c :: s := by
    intro a r s hr
    cases hf : f a with
    | nil => exact hne a hf
    | cons x t =>
      rw [hf] at hr
      exact hc a (by rw [hf, (List.cons.inj hr).1]; rfl)
  intro l
  induction l with
  | nil =>
    intro m r s hm
    cases m with
    | nil => exact ⟨rfl, by simpa using hm⟩
    | cons b m =>
      simp only [List.flatMap_nil, List.flatMap_cons, List.nil_append, List.append_assoc] at hm
      exact absurd hm.symm (head b _ _)
  | cons a l ih =>
    intro m r s hm
    cases m with
    | nil =>
      simp only [List.flatMap_nil, List.flatMap_cons, List.nil_append, List.append_assoc] at hm
      exact absurd hm (head a _ _)
    | cons b m =>
      simp only [List.flatMap_cons, List.append_assoc] at hm
      obtain ⟨rfl, htail⟩ := h a b _ _ hm
      obtain ⟨rfl, hr⟩ := ih m r s (by simpa only [List.append_assoc] using htail)
      exact ⟨rfl, hr⟩

/-! ### Texts that end at a separator -/

/-- Two parts that are followed by the separator: they are the same, or one of them goes past the
other's end. -/
theorem cut_or_longer (h : u ++ c :: r = v ++ c :: s) :
    u = v ∧ r = s ∨ (∃ t, v = u ++ c :: t ∧ r = t ++ c :: s) ∨
      ∃ t, u = v ++ c :: t ∧ s = t ++ c :: r := by
  rw [List.append_eq_append_iff] at h
  obtain ⟨t, hv, hr⟩ | ⟨t, hu, hs⟩ := h
  · cases t with
    | nil =>
      left
      exact ⟨by simpa using hv.symm, by simpa using hr⟩
    | cons x t =>
      obtain ⟨rfl, htail⟩ := List.cons.inj hr
      exact .inr (.inl ⟨t, hv, htail⟩)
  · cases t with
    | nil =>
      left
      exact ⟨by simpa using hu, by simpa using hs.symm⟩
    | cons x t =>
      obtain ⟨rfl, htail⟩ := List.cons.inj hs
      exact .inr (.inr ⟨t, hu, htail⟩)

/-- The separator does not occur in the first part: the second one is the same, or goes past it. -/
theorem past (hu : c ∉ u) (h : u ++ c :: r = v ++ c :: s) :
    v = u ∧ r = s ∨ ∃ t, v = u ++ c :: t ∧ r = t ++ c :: s := by
  obtain ⟨h, hr⟩ | h | ⟨t, h, -⟩ := cut_or_longer h
  · exact .inl ⟨h.symm, hr⟩
  · exact .inr h
  · rw [h] at hu
    simp at hu

theorem cut (hu : c ∉ u) (hv : c ∉ v) (h : u ++ c :: r = v ++ c :: s) : u = v ∧ r = s := by
  obtain ⟨h, hr⟩ | ⟨t, h, -⟩ := past hu h
  · exact ⟨h.symm, hr⟩
  · rw [h] at hv
    simp at hv

/-- Of two different separators, each comes after a part in which the other one occurs. -/
theorem apart (hcd : c ≠ d) (hu : d ∉ u) (hv : c ∉ v) : u ++ c :: r ≠ v ++ d :: s := by
  intro h
  rw [List.append_eq_append_iff] at h
  obtain ⟨t, h, hr⟩ | ⟨t, h, hs⟩ := h
  · cases t with
    | nil => exact hcd (by simpa using (List.cons.inj hr).1)
    | cons x t =>
      obtain ⟨rfl, -⟩ := List.cons.inj hr
      rw [h] at hv
      simp at hv
  · cases t with
    | nil => exact hcd (by simpa using (List.cons.inj hs).1.symm)
    | cons x t =>
      obtain ⟨rfl, -⟩ := List.cons.inj hs
      rw [h] at hu
      simp at hu

/-! ### Lists that are joined -/

/-- `l.join(c)`. -/
def join (c : χ) : List (List χ) → List χ
  | [] => []
  | [u] => u
  | u :: v :: l => u ++ c :: join c (v :: l)

theorem not_mem_join (hcd : d ≠ c) : ∀ {l : List (List χ)}, (∀ u ∈ l, d ∉ u) → d ∉ join c l
  | [], _ => by simp [join]
  | [u], h => h u (by simp)
  | u :: v :: l, h => by
    have hrest := not_mem_join hcd (l := v :: l) fun w hw => h w (by simp [hw])
    simp only [join, List.mem_append, List.mem_cons, not_or]
    exact ⟨h u (by simp), hcd, hrest⟩

theorem join_inj : ∀ {l m : List (List χ)}, (∀ u ∈ l, c ∉ u) → (∀ u ∈ m, c ∉ u) →
    l.length = m.length → join c l = join c m → l = m
  | [], [], _, _, _, _ => rfl
  | [u], [v], _, _, _, h => by rw [show u = v from h]
  | u :: u' :: l, v :: v' :: m, hl, hm, hlen, h => by
    obtain ⟨rfl, hrest⟩ := cut (hl u (by simp)) (hm v (by simp)) h
    rw [join_inj (fun w hw => hl w (by simp [hw])) (fun w hw => hm w (by simp [hw]))
      (by simpa using hlen) hrest]

/-! ### Parts between marks -/

section Parts

variable {p : χ → Bool}

/-- What stands between the marks of a text, where that is not empty. -/
def parts (p : χ → Bool) (s : List χ) : List (List χ) := (s.splitOnP p).filter fun u => !u.isEmpty

theorem parts_append (hc : p c = true) (u v : List χ) :
    parts p (u ++ c :: v) = parts p u ++ parts p v := by
  unfold parts
  rw [List.splitOnP_append_cons u v hc, List.filter_append]

theorem parts_cons (hc : p c = true) (v : List χ) : parts p (c :: v) = parts p v :=
  parts_append hc [] v

/-- A text without marks is a part of its own. -/
theorem parts_plain (hne : u ≠ []) (hu : ∀ x ∈ u, p x = false) : parts p u = [u] := by
  unfold parts
  rw [List.splitOnP_eq_singleton hu, List.filter_singleton]
  cases u with
  | nil => exact absurd rfl hne
  | cons x u => rfl

/-- Each text is followed by a mark, the last one apart. -/
theorem parts_flatMap (hc : p c = true) (u : List χ) (l : List (List χ)) :
    parts p (u ++ l.flatMap (c :: ·)) = parts p u ++ l.flatMap (parts p) := by
  induction l generalizing u with
  | nil => simp
  | cons v l ih =>
    rw [List.flatMap_cons, List.flatMap_cons, List.cons_append, parts_append hc, ih]

end Parts

end Minipg.Delimited
