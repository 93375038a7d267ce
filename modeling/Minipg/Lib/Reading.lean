import Mathlib.Data.List.Basic

/-!
# Texts that can be read back

A text is written part by part.  `Reads D P f` says that the part that `f` writes can be told from
what follows it, for the arguments in `D` and for what follows as `P` says; the rules put parts
together.
-/

namespace Reading

variable {α β τ : Type}

/-- `f a` ends where it ends, whatever follows as `P` says. -/
def Reads (D : α → Prop) (P : List τ → Prop) (f : α → List τ) : Prop :=
  ∀ a b x y, D a → D b → P x → P y → f a ++ x = f b ++ y → a = b ∧ x = y

def Always : List τ → Prop := fun _ => True

/-- What starts with `c`. -/
def Starts (c : τ) : List τ → Prop := fun x => ∃ z, x = c :: z

/-- What does not start with an item of `S`. -/
def Avoids (S : τ → Prop) : List τ → Prop := fun x => ∀ c z, x = c :: z → ¬S c

variable {D : α → Prop} {E : β → Prop} {P Q : List τ → Prop} {f : α → List τ} {g : β → List τ}

theorem Starts.avoids {c : τ} {S : τ → Prop} {x : List τ} (h : Starts c x) (hc : ¬S c) :
    Avoids S x := by
  intro d z hx
  obtain ⟨z', rfl⟩ := h
  cases hx
  exact hc

namespace Reads

theorem follow (h : Reads D P f) (hPQ : ∀ x, Q x → P x) : Reads D Q f := by
  intro a b x y ha hb hx hy he
  exact h a b x y ha hb (hPQ x hx) (hPQ y hy) he

theorem comp {k : β → α} (h : Reads D P f) (hk : ∀ a b, E a → E b → k a = k b → a = b)
    (hD : ∀ b, E b → D (k b)) : Reads E P fun b => f (k b) := by
  intro a b x y ha hb hx hy he
  obtain ⟨hab, hxy⟩ := h (k a) (k b) x y (hD a ha) (hD b hb) hx hy he
  exact ⟨hk a b ha hb hab, hxy⟩

/-- A constant in front. -/
theorem after (h : Reads D P f) (t : List τ) : Reads D P fun a => t ++ f a := by
  intro a b x y ha hb hx hy he
  rw [List.append_assoc, List.append_assoc] at he
  exact h a b x y ha hb hx hy (List.append_cancel_left he)

/-- A constant behind. -/
theorem before (h : Reads D P f) (t : List τ) (ht : ∀ x, Q x → P (t ++ x)) :
    Reads D Q fun a => f a ++ t := by
  intro a b x y ha hb hx hy he
  rw [List.append_assoc, List.append_assoc] at he
  obtain ⟨hab, hxy⟩ := h a b (t ++ x) (t ++ y) ha hb (ht x hx) (ht y hy) he
  exact ⟨hab, List.append_cancel_left hxy⟩

theorem pair (h : Reads D P f) (h' : Reads E Q g) (hg : ∀ b x, E b → Q x → P (g b ++ x)) :
    Reads (fun p : α × β => D p.1 ∧ E p.2) Q fun p => f p.1 ++ g p.2 := by
  intro p q x y hp hq hx hy he
  rw [List.append_assoc, List.append_assoc] at he
  obtain ⟨h₁, he⟩ := h p.1 q.1 (g p.2 ++ x) (g q.2 ++ y) hp.1 hq.1 (hg p.2 x hp.2 hx)
    (hg q.2 y hq.2 hy) he
  obtain ⟨h₂, hxy⟩ := h' p.2 q.2 x y hp.2 hq.2 hx hy he
  exact ⟨Prod.ext h₁ h₂, hxy⟩

end Reads

/-- Items before the first that is in `S`. -/
theorem reads_until (S : τ → Prop) :
    Reads (fun l : List τ => ∀ c ∈ l, ¬S c) (fun x => x = [] ∨ ∃ c, S c ∧ Starts c x) id := by
  intro a
  induction a with
  | nil =>
    intro b x y _ hb hx hy he
    cases b with
    | nil => exact ⟨rfl, he⟩
    | cons d b =>
      rcases hx with rfl | ⟨c, hc, z, rfl⟩
      · cases he
      · cases he
        exact absurd hc (hb d List.mem_cons_self)
  | cons d a ih =>
    intro b x y ha hb hx hy he
    cases b with
    | nil =>
      rcases hy with rfl | ⟨c, hc, z, rfl⟩
      · cases he
      · cases he
        exact absurd hc (ha d List.mem_cons_self)
    | cons d' b =>
      obtain ⟨rfl, htl⟩ := List.cons.inj he
      obtain ⟨rfl, hxy⟩ := ih b x y (fun c hc => ha c (List.mem_cons_of_mem d hc))
        (fun c hc => hb c (List.mem_cons_of_mem d hc)) hx hy htl
      exact ⟨rfl, hxy⟩

/-! ### Lists with a separator -/

/-- `l.map(f).join(sep)`. -/
def join (sep : List τ) (f : α → List τ) : List α → List τ
  | [] => []
  | [a] => f a
  | a :: b :: l => f a ++ sep ++ join sep f (b :: l)

theorem join_map {sep : List τ} (k : β → α) : ∀ l : List β,
    join sep f (l.map k) = join sep (fun b => f (k b)) l
  | [] => rfl
  | [_] => rfl
  | a :: b :: l => congrArg (f (k a) ++ sep ++ ·) (join_map k (b :: l))

/-- **The items of a list can be told apart**, and the list from what follows, when neither the
separator nor what follows runs on from an item. -/
theorem Reads.join {sep : List τ} (h : Reads D P f) (hs : ∀ x, P (sep ++ x))
    (hQ : ∀ x, Q x → P x ∧ ¬sep <+: x) :
    Reads (fun l : List α => l ≠ [] ∧ ∀ a ∈ l, D a) Q (join sep f) := by
  intro l
  induction l with
  | nil => exact fun _ _ _ hl => absurd rfl hl.1
  | cons a l ih =>
    intro m x y hl hm hx hy he
    obtain ⟨b, m, rfl⟩ := List.exists_cons_of_ne_nil hm.1
    have ha := hl.2 a List.mem_cons_self
    have hb := hm.2 b List.mem_cons_self
    cases l with
    | nil =>
      cases m with
      | nil =>
        obtain ⟨rfl, hxy⟩ := h a b x y ha hb (hQ x hx).1 (hQ y hy).1 he
        exact ⟨rfl, hxy⟩
      | cons b' m =>
        simp only [Reading.join, List.append_assoc] at he
        obtain ⟨-, rfl⟩ := h a b x _ ha hb (hQ x hx).1 (hs _) he
        exact absurd (List.prefix_append sep _) (hQ _ hx).2
    | cons a' l =>
      cases m with
      | nil =>
        simp only [Reading.join, List.append_assoc] at he
        obtain ⟨-, rfl⟩ := h a b _ y ha hb (hs _) (hQ y hy).1 he
        exact absurd (List.prefix_append sep _) (hQ _ hy).2
      | cons b' m =>
        simp only [Reading.join, List.append_assoc] at he
        obtain ⟨rfl, hsep⟩ := h a b _ _ ha hb (hs _) (hs _) he
        obtain ⟨htl, hxy⟩ := ih (b' :: m) x y
          ⟨List.cons_ne_nil a' l, fun c hc => hl.2 c (List.mem_cons_of_mem a hc)⟩
          ⟨List.cons_ne_nil b' m, fun c hc => hm.2 c (List.mem_cons_of_mem a hc)⟩ hx hy
          (List.append_cancel_left hsep)
        exact ⟨by rw [htl], hxy⟩

/-- Where the lengths of the items are known, anything may be in them. -/
theorem join_cut {sep : List τ} : ∀ {l l' : List (List τ)} {x y : List τ},
    l.map List.length = l'.map List.length → join sep id l ++ x = join sep id l' ++ y →
      l = l' ∧ x = y
  | [], [], _, _, _, he => ⟨rfl, he⟩
  | [], _ :: _, _, _, hl, _ => nomatch hl
  | _ :: _, [], _, _, hl, _ => nomatch hl
  | [a], [b], _, _, hl, he => by
    obtain ⟨rfl, hxy⟩ := List.append_inj he (List.cons.inj hl).1
    exact ⟨rfl, hxy⟩
  | [_], _ :: _ :: _, _, _, hl, _ => nomatch (List.cons.inj hl).2
  | _ :: _ :: _, [_], _, _, hl, _ => nomatch (List.cons.inj hl).2
  | a :: a' :: l, b :: b' :: l', x, y, hl, he => by
    obtain ⟨hlen, hls⟩ := List.cons.inj hl
    simp only [join, List.append_assoc] at he
    obtain ⟨hab, hsep⟩ := List.append_inj he hlen
    obtain ⟨htl, hxy⟩ := join_cut hls (List.append_cancel_left hsep)
    exact ⟨congr (congrArg List.cons hab) htl, hxy⟩

end Reading
