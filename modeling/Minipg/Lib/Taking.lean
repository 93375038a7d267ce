import Mathlib.Data.List.Basic

/-!
# Taking values off the front of a list

A `Take` takes a value off the front of a list and leaves the rest, or fails.  `Takes p bs a` says
that `p` takes `a` where the list starts with `bs`, whatever follows; `Gives S p Q` says that what `p`
takes is as `Q` says where the items are as `S` says.  The rules of both follow the constructors of
the monad.
-/

namespace Taking

variable {α β γ : Type}

abbrev Take (β α : Type) := StateT (List β) Option α

def item : Take β β
  | [] => none
  | b :: rest => some (b, rest)

/-- The next `n` items. -/
def exactly : Nat → Take β (List β)
  | 0 => pure []
  | n + 1 => do
    let b ← item
    let bs ← exactly n
    return b :: bs

/-- The items in front of the first `c`, which is left out. -/
def before [DecidableEq β] (c : β) : Take β (List β)
  | [] => none
  | b :: rest => if b = c then some ([], rest) else (before c rest).map fun p => (b :: p.1, p.2)

def times (p : Take β α) : Nat → Take β (List α)
  | 0 => pure []
  | n + 1 => do
    let a ← p
    let as ← times p n
    return a :: as

/-- A value that does not come from the list. -/
def known (a : Option α) : Take β α := fun bs => a.map fun a => (a, bs)

/-- The value that takes the whole list. -/
def whole (p : Take β α) (bs : List β) : Option α :=
  match p bs with
  | some (a, []) => some a
  | _ => none

/-! ### What is taken -/

def Takes (p : Take β α) (bs : List β) (a : α) : Prop := ∀ rest, p (bs ++ rest) = some (a, rest)

namespace Takes

variable {p : Take β α} {f : α → Take β γ} {xs ys : List β} {a : α} {c : γ}

theorem pure (a : α) : Takes (pure a : Take β α) [] a := fun _ => rfl

theorem bind (hp : Takes p xs a) (hf : Takes (f a) ys c) : Takes (p >>= f) (xs ++ ys) c := by
  intro rest
  show (p (xs ++ ys ++ rest) >>= fun q => f q.1 q.2) = _
  rw [List.append_assoc, hp]
  exact hf rest

/-- Nothing is taken after it. -/
theorem last (hp : Takes p xs a) (hf : Takes (f a) [] c) : Takes (p >>= f) xs c := by
  have h := hp.bind hf
  rw [List.append_nil] at h
  exact h

theorem item (b : β) : Takes item [b] b := fun _ => rfl

theorem exactly : ∀ bs : List β, Takes (exactly bs.length) bs bs
  | [] => .pure []
  | b :: bs => (Takes.item b).bind ((exactly bs).last (.pure (b :: bs)))

theorem known {o : Option α} (h : o = some a) : Takes (known o : Take β α) [] a := by
  intro rest
  rw [h]
  rfl

theorem before [DecidableEq β] {c : β} : ∀ {bs : List β}, c ∉ bs →
    Takes (before c) (bs ++ [c]) bs
  | [], _, rest => if_pos rfl
  | b :: bs, h, rest => by
    have hb : ¬b = c := fun he => h (he ▸ List.mem_cons_self)
    have ih := before (fun hc => h (List.mem_cons_of_mem b hc)) rest
    show (if b = c then _ else (Taking.before c (bs ++ [c] ++ rest)).map _) = _
    rw [if_neg hb, ih]
    rfl

/-- One value after the other. -/
theorem times {enc : γ → List β} {val : γ → α} : ∀ {l : List γ},
    (∀ c ∈ l, Takes p (enc c) (val c)) → Takes (times p l.length) (l.flatMap enc) (l.map val)
  | [], _ => .pure []
  | c :: _, h =>
    (h c List.mem_cons_self).bind
      ((times fun c' hc => h c' (List.mem_cons_of_mem c hc)).last (.pure _))

theorem whole (h : Takes p xs a) : whole p xs = some a := by
  have hp := h []
  rw [List.append_nil] at hp
  unfold Taking.whole
  rw [hp]

end Takes

/-! ### What can be taken -/

/-- From items as `S` says. -/
def Gives (S : β → Prop) (p : Take β α) (Q : α → Prop) : Prop :=
  ∀ bs a rest, (∀ b ∈ bs, S b) → p bs = some (a, rest) → Q a ∧ ∀ b ∈ rest, S b

namespace Gives

variable {S : β → Prop} {p : Take β α} {f : α → Take β γ} {Q : α → Prop} {R : γ → Prop}

theorem pure {a : α} (h : Q a) : Gives S (pure a : Take β α) Q := by
  intro bs a' rest hbs hp
  cases hp
  exact ⟨h, hbs⟩

theorem bind (hp : Gives S p Q) (hf : ∀ a, Q a → Gives S (f a) R) : Gives S (p >>= f) R := by
  intro bs c rest hbs h
  obtain ⟨⟨a, mid⟩, ha, hc⟩ := Option.bind_eq_some_iff.mp h
  obtain ⟨hQ, hmid⟩ := hp bs a mid hbs ha
  exact hf a hQ mid c rest hmid hc

theorem any (p : Take β α) : Gives (fun _ => True) p fun _ => True :=
  fun _ _ _ _ _ => ⟨trivial, fun _ _ => trivial⟩

theorem item : Gives S item S := by
  intro bs a rest hbs h
  cases bs with
  | nil => cases h
  | cons b bs =>
    cases h
    exact ⟨hbs a List.mem_cons_self, fun c hc => hbs c (List.mem_cons_of_mem a hc)⟩

theorem known {o : Option α} (h : ∀ a, o = some a → Q a) : Gives S (known o : Take β α) Q := by
  intro bs a rest hbs hp
  obtain ⟨a', ha, he⟩ := Option.map_eq_some_iff.mp hp
  cases he
  exact ⟨h a ha, hbs⟩

theorem ite {P : Prop} [Decidable P] {p' : Take β α} (h : P → Gives S p Q)
    (h' : ¬P → Gives S p' Q) : Gives S (if P then p else p') Q := by
  split
  · next hP => exact h hP
  · next hP => exact h' hP

theorem failure : Gives S (failure : Take β α) Q := fun _ _ _ _ h => (nomatch h)

theorem times (h : Gives S p Q) : ∀ n, Gives S (times p n) fun as => ∀ a ∈ as, Q a
  | 0 => .pure fun _ ha => (nomatch ha)
  | n + 1 => h.bind fun a ha => (times h n).bind fun as has => .pure fun b hb => by
    rcases List.mem_cons.mp hb with rfl | hb
    · exact ha
    · exact has b hb

theorem exactly : ∀ n, Gives S (exactly n) fun bs => ∀ b ∈ bs, S b
  | 0 => .pure fun _ ha => (nomatch ha)
  | n + 1 => item.bind fun a ha => (exactly n).bind fun as has => .pure fun b hb => by
    rcases List.mem_cons.mp hb with rfl | hb
    · exact ha
    · exact has b hb

theorem before [DecidableEq β] (c : β) : Gives S (before c) fun bs => c ∉ bs := by
  intro bs
  induction bs with
  | nil => exact fun _ _ _ h => (nomatch h)
  | cons b bs ih =>
    intro a rest hbs h
    have htail : ∀ b' ∈ bs, S b' := fun b' hb' => hbs b' (List.mem_cons_of_mem b hb')
    unfold Taking.before at h
    split at h
    · cases h
      exact ⟨List.not_mem_nil, htail⟩
    · next hb =>
      obtain ⟨⟨xs, rest'⟩, hxs, he⟩ := Option.map_eq_some_iff.mp h
      obtain ⟨rfl, rfl⟩ := Prod.mk.inj he
      obtain ⟨hx, hrest⟩ := ih xs rest' htail hxs
      refine ⟨fun hc => ?_, hrest⟩
      rcases List.mem_cons.mp hc with rfl | hc
      · exact hb rfl
      · exact hx hc

theorem whole (h : Gives S p Q) {bs : List β} {a : α} (hbs : ∀ b ∈ bs, S b)
    (hw : whole p bs = some a) : Q a := by
  unfold Taking.whole at hw
  split at hw
  · next hp =>
    cases hw
    exact (h bs a [] hbs hp).1
  · cases hw

end Gives

end Taking
