import Mathlib.Data.List.Nodup
import Mathlib.Data.List.Perm.Basic
import Mathlib.Data.Set.Insert
import Mathlib.Logic.Relation

/-!
# Resources that are lent

A keeper of resources opens them, keeps the idle ones, lends them and takes them back; a
resource that comes back may need a while before it is idle again.  `hand` are the resources
that a step in progress has taken from one place and not put into another yet.

`loans` is what the borrowers know, and `out` is what the keeper knows.  Three slips make them
differ, or break the maximum: a resource goes to nobody (`lost`), one is opened beyond the
maximum (`excess`), and a borrower gives back what it gave back before (`again`).  `Slips` says
which of them may happen; each invariant below names the slips that it excludes.
-/

universe u v

structure Slips where
  lost : Prop
  excess : Prop
  again : Prop

structure Ledger (α : Type u) (β : Type v) where
  known : Set α
  owned : List α
  opening : List α
  idle : List α
  out : List α
  returning : List α
  loans : List (β × α)
  hand : List α

namespace Ledger

variable {α : Type u} {β : Type v} [DecidableEq α] [DecidableEq β]

inductive Move (d : Slips) (max : Nat) : Ledger α β → Ledger α β → Prop
  | opens {l : Ledger α β} {c : α} : c ∉ l.known → l.owned.length < max ∨ d.excess →
      Move d max l { l with
        known := insert c l.known, owned := l.owned ++ [c], opening := l.opening ++ [c] }
  | opened {l : Ledger α β} {c : α} {m : List α} : l.opening.Perm (c :: m) →
      Move d max l { l with opening := m, hand := c :: l.hand }
  | takeIdle {l : Ledger α β} {c : α} {m : List α} : l.idle.Perm (c :: m) →
      Move d max l { l with idle := m, hand := c :: l.hand }
  | putIdle {l : Ledger α β} {c : α} {h : List α} : l.hand = c :: h →
      Move d max l { l with idle := l.idle ++ [c], hand := h }
  | lend {l : Ledger α β} {c : α} {h : List α} (b : β) : l.hand = c :: h →
      Move d max l { l with out := l.out ++ [c], loans := l.loans ++ [(b, c)], hand := h }
  | lose {l : Ledger α β} {c : α} {h : List α} : d.lost → l.hand = c :: h →
      Move d max l { l with out := l.out ++ [c], hand := h }
  | giveBack {l : Ledger α β} {b : β} {c : α} : (b, c) ∈ l.loans ∨ d.again → c ∈ l.out →
      Move d max l { l with
        loans := l.loans.filter (· ≠ (b, c)), out := l.out.erase c, hand := c :: l.hand }
  | forget {l : Ledger α β} {b : β} {c : α} : c ∉ l.out →
      Move d max l { l with loans := l.loans.filter (· ≠ (b, c)) }
  | putReturning {l : Ledger α β} {c : α} {h m : List α} : l.hand = c :: h →
      m.Perm (c :: l.returning) → Move d max l { l with returning := m, hand := h }
  | takeReturning {l : Ledger α β} {c : α} {m : List α} : l.returning.Perm (c :: m) →
      Move d max l { l with returning := m, hand := c :: l.hand }
  | drop {l : Ledger α β} {c : α} {h : List α} : l.hand = c :: h →
      Move d max l { l with owned := l.owned.erase c, hand := h }
  | clear {l : Ledger α β} : Move d max l { l with owned := [], idle := [], out := [] }

/-- Any number of moves. -/
abbrev Moves (d : Slips) (max : Nat) : Ledger α β → Ledger α β → Prop :=
  Relation.ReflTransGen (Move d max)

/-- How often a resource is in one of the keeper's places, lent ones apart. -/
def stock (l : Ledger α β) (c : α) : Nat :=
  l.opening.count c + l.idle.count c + l.returning.count c + l.hand.count c

/-- The resources of the loans. -/
def held (l : Ledger α β) : List α := l.loans.map Prod.snd

variable {d : Slips} {max : Nat}

/-! ### Every resource is in one place -/

/-- No resource is in two places, and an owned one is in some place. -/
structure Tidy (l : Ledger α β) : Prop where
  once : ∀ c, l.stock c + l.out.count c ≤ 1
  known : ∀ c, 0 < l.stock c + l.out.count c → c ∈ l.known
  owned : ∀ c ∈ l.owned, 0 < l.stock c + l.out.count c
  nodup : l.owned.Nodup

theorem Perm.count_cons {m m' : List α} {c : α} (h : m.Perm (c :: m')) (x : α) :
    m.count x = m'.count x + if c = x then 1 else 0 := by
  rw [h.count_eq, List.count_cons]
  simp only [beq_iff_eq]

theorem count_snoc (m : List α) (c x : α) :
    (m ++ [c]).count x = m.count x + if c = x then 1 else 0 := by
  rw [List.count_append, List.count_singleton]
  simp only [beq_iff_eq]

theorem count_cons_if (m : List α) (c x : α) :
    (c :: m).count x = m.count x + if c = x then 1 else 0 := by
  rw [List.count_cons]
  simp only [beq_iff_eq]

theorem count_erase_add {m : List α} {c : α} (h : c ∈ m) (x : α) :
    m.count x = (m.erase c).count x + if c = x then 1 else 0 :=
  Perm.count_cons (List.perm_cons_erase h) x

theorem Move.tidy {l l' : Ledger α β} (h : Move d max l l') (t : Tidy l) : Tidy l' := by
  -- the moves that take nothing from `owned` and bring nothing new
  have hkeep : ∀ {m : Ledger α β}, m.known = l.known → m.owned = l.owned →
      (∀ x, m.stock x + m.out.count x = l.stock x + l.out.count x) → Tidy m := by
    intro m hk ho hs
    refine ⟨fun c => ?_, fun c hc => ?_, fun c hc => ?_, ho ▸ t.nodup⟩
    · rw [hs]
      exact t.once c
    · rw [hk]
      exact t.known c (hs c ▸ hc)
    · rw [hs]
      exact t.owned c (ho ▸ hc)
  cases h with
  | @opens c hc _ =>
    have hzero : l.stock c + l.out.count c = 0 := by
      by_contra hpos
      exact hc (t.known c (by omega))
    have hcount : ∀ x, ({ l with
        known := insert c l.known, owned := l.owned ++ [c]
        opening := l.opening ++ [c] } : Ledger α β).stock x = l.stock x + if c = x then 1 else 0 := by
      intro x
      simp only [stock, count_snoc]
      omega
    have hnew : c ∉ l.owned := fun hm => by have := t.owned c hm; omega
    refine ⟨fun x => ?_, fun x hx => ?_, fun x hx => ?_, ?_⟩
    · rw [hcount]
      have := t.once x
      by_cases hcx : c = x
      · subst hcx
        rw [if_pos rfl]
        show l.stock c + 1 + l.out.count c ≤ 1
        omega
      · rw [if_neg hcx]
        exact this
    · rw [hcount] at hx
      by_cases hcx : c = x
      · exact .inl hcx.symm
      · rw [if_neg hcx] at hx
        exact .inr (t.known x hx)
    · rw [hcount]
      by_cases hcx : c = x
      · rw [if_pos hcx]
        omega
      · rw [if_neg hcx]
        rcases List.mem_append.mp hx with hx | hx
        · exact t.owned x hx
        · exact absurd (List.mem_singleton.mp hx).symm hcx
    · exact List.nodup_append.mpr ⟨t.nodup, List.nodup_singleton c, fun x hx y hy hxy =>
        hnew (by rw [← List.mem_singleton.mp hy, ← hxy]; exact hx)⟩
  | opened hp =>
    refine hkeep rfl rfl fun x => ?_
    have := Perm.count_cons hp x
    simp only [stock, count_cons_if]
    omega
  | takeIdle hp =>
    refine hkeep rfl rfl fun x => ?_
    have := Perm.count_cons hp x
    simp only [stock, count_cons_if]
    omega
  | putIdle hh =>
    refine hkeep rfl rfl fun x => ?_
    simp only [stock, hh, count_cons_if, count_snoc]
    omega
  | lend b hh =>
    refine hkeep rfl rfl fun x => ?_
    simp only [stock, hh, count_cons_if, count_snoc]
    omega
  | lose _ hh =>
    refine hkeep rfl rfl fun x => ?_
    simp only [stock, hh, count_cons_if, count_snoc]
    omega
  | giveBack _ hc =>
    refine hkeep rfl rfl fun x => ?_
    have := count_erase_add hc x
    simp only [stock, count_cons_if]
    omega
  | forget => exact hkeep rfl rfl fun x => rfl
  | putReturning hh hp =>
    refine hkeep rfl rfl fun x => ?_
    have := Perm.count_cons hp x
    simp only [stock, hh, count_cons_if]
    omega
  | takeReturning hp =>
    refine hkeep rfl rfl fun x => ?_
    have := Perm.count_cons hp x
    simp only [stock, count_cons_if]
    omega
  | @drop c m hh =>
    have hcount : ∀ x, l.stock x = ({ l with
        owned := l.owned.erase c, hand := m } : Ledger α β).stock x + if c = x then 1 else 0 := by
      intro x
      simp only [stock, hh, count_cons_if]
      omega
    refine ⟨fun x => ?_, fun x hx => ?_, fun x hx => ?_, t.nodup.erase c⟩
    · have := t.once x
      rw [hcount] at this
      dsimp only at this ⊢
      omega
    · refine t.known x ?_
      rw [hcount]
      dsimp only at hx ⊢
      omega
    · have hx' := (t.nodup.mem_erase_iff).mp hx
      have := t.owned x hx'.2
      rw [hcount, if_neg (Ne.symm hx'.1)] at this
      exact this
  | clear =>
    have hle : ∀ x, ({ l with owned := [], idle := [], out := [] } : Ledger α β).stock x +
        List.count x [] ≤ l.stock x + l.out.count x := by
      intro x
      simp only [stock, List.count_nil]
      omega
    refine ⟨fun x => ?_, fun x hx => ?_, fun x hx => ?_, List.nodup_nil⟩
    · exact (hle x).trans (t.once x)
    · exact t.known x (hx.trans_le (hle x))
    · exact absurd hx (by simp)

theorem Moves.tidy {l l' : Ledger α β} (h : Moves d max l l') (t : Tidy l) : Tidy l' := by
  induction h with
  | refl => exact t
  | tail _ hm ih => exact hm.tidy ih

/-! ### Every resource has one borrower -/

/-- Nothing that is lent is lent again, or in another place. -/
structure Exclusive (l : Ledger α β) : Prop where
  once : ∀ c, l.stock c + l.held.count c ≤ 1
  known : ∀ c, 0 < l.stock c + l.held.count c → c ∈ l.known

theorem held_filter_le (l : Ledger α β) (b : β) (c x : α) :
    ((l.loans.filter (· ≠ (b, c))).map Prod.snd).count x ≤ l.held.count x :=
  (List.filter_sublist.map Prod.snd).count_le x

theorem held_filter_add {l : Ledger α β} {b : β} {c : α} (h : (b, c) ∈ l.loans) (x : α) :
    ((l.loans.filter (· ≠ (b, c))).map Prod.snd).count x + (if c = x then 1 else 0) ≤
      l.held.count x := by
  have hsub : (l.loans.filter (· ≠ (b, c))).Sublist (l.loans.erase (b, c)) := by
    generalize l.loans = m
    induction m with
    | nil => exact .slnil
    | cons p m ih =>
      by_cases hp : p = (b, c)
      · subst hp
        rw [List.filter_cons_of_neg (by simp), List.erase_cons_head]
        exact List.filter_sublist
      · rw [List.filter_cons_of_pos (by simpa using hp), List.erase_cons_tail (by simpa using hp)]
        exact ih.cons_cons _
  have hle := ((hsub.map Prod.snd).count_le x)
  have hperm : l.held.Perm (c :: (l.loans.erase (b, c)).map Prod.snd) :=
    (List.perm_cons_erase h).map Prod.snd
  have := Perm.count_cons hperm x
  omega

theorem Move.exclusive (hd : ¬d.again) {l l' : Ledger α β} (h : Move d max l l')
    (t : Exclusive l) : Exclusive l' := by
  -- the moves that bring nothing new
  have hless : ∀ {m : Ledger α β}, m.known = l.known →
      (∀ x, m.stock x + m.held.count x ≤ l.stock x + l.held.count x) → Exclusive m := by
    intro m hk hs
    exact ⟨fun c => (hs c).trans (t.once c), fun c hc => hk ▸ t.known c (hc.trans_le (hs c))⟩
  cases h with
  | @opens c hc _ =>
    have hzero : l.stock c + l.held.count c = 0 := by
      by_contra hpos
      exact hc (t.known c (by omega))
    have hcount : ∀ x, ({ l with
        known := insert c l.known, owned := l.owned ++ [c]
        opening := l.opening ++ [c] } : Ledger α β).stock x = l.stock x + if c = x then 1 else 0 := by
      intro x
      simp only [stock, count_snoc]
      omega
    refine ⟨fun x => ?_, fun x hx => ?_⟩
    · rw [hcount]
      have := t.once x
      by_cases hcx : c = x
      · subst hcx
        rw [if_pos rfl]
        show l.stock c + 1 + l.held.count c ≤ 1
        omega
      · rw [if_neg hcx]
        exact this
    · rw [hcount] at hx
      by_cases hcx : c = x
      · exact .inl hcx.symm
      · rw [if_neg hcx] at hx
        exact .inr (t.known x hx)
  | opened hp =>
    refine hless rfl fun x => ?_
    have := Perm.count_cons hp x
    simp only [stock, held, count_cons_if]
    omega
  | takeIdle hp =>
    refine hless rfl fun x => ?_
    have := Perm.count_cons hp x
    simp only [stock, held, count_cons_if]
    omega
  | putIdle hh =>
    refine hless rfl fun x => ?_
    simp only [stock, held, hh, count_cons_if, count_snoc]
    omega
  | lend b hh =>
    refine hless rfl fun x => ?_
    simp only [stock, held, hh, count_cons_if, List.map_append, List.map_cons, List.map_nil,
      count_snoc]
    omega
  | lose _ hh =>
    refine hless rfl fun x => ?_
    simp only [stock, held, hh, count_cons_if]
    omega
  | giveBack hb _ =>
    refine hless rfl fun x => ?_
    have := held_filter_add (hb.resolve_right hd) x
    simp only [stock, held, count_cons_if] at this ⊢
    omega
  | @forget b c _ =>
    refine hless rfl fun x => ?_
    have := held_filter_le l b c x
    simp only [stock, held] at this ⊢
    omega
  | putReturning hh hp =>
    refine hless rfl fun x => ?_
    have := Perm.count_cons hp x
    simp only [stock, held, hh, count_cons_if]
    omega
  | takeReturning hp =>
    refine hless rfl fun x => ?_
    have := Perm.count_cons hp x
    simp only [stock, held, count_cons_if]
    omega
  | drop hh =>
    refine hless rfl fun x => ?_
    simp only [stock, held, hh, count_cons_if]
    omega
  | clear =>
    refine hless rfl fun x => ?_
    simp only [stock, held, List.count_nil]
    omega

/-- **No resource has two borrowers**, if nothing is given back twice. -/
theorem Moves.exclusive (hd : ¬d.again) {l l' : Ledger α β} (h : Moves d max l l')
    (t : Exclusive l) : Exclusive l' := by
  induction h with
  | refl => exact t
  | tail _ hm ih => exact hm.exclusive hd ih

/-! ### What is out has a borrower -/

/-- The keeper takes nothing for lent that nobody borrows. -/
def Backed (l : Ledger α β) : Prop := ∀ c ∈ l.out, c ∈ l.held

theorem Move.backed (hd : ¬d.lost) {l l' : Ledger α β} (h : Move d max l l') (t : Tidy l)
    (hb : Backed l) : Backed l' := by
  have hkept : ∀ {b : β} {c x : α}, x ≠ c → x ∈ l.held →
      x ∈ (l.loans.filter (· ≠ (b, c))).map Prod.snd := by
    intro b c x hxc hx
    obtain ⟨⟨b', x'⟩, hp, rfl⟩ := List.mem_map.mp hx
    refine List.mem_map_of_mem (f := Prod.snd) (List.mem_filter.mpr ⟨hp, ?_⟩)
    simp only [ne_eq, Prod.mk.injEq, not_and, decide_eq_true_eq]
    exact fun _ => hxc
  cases h with
  | lend b hh =>
    intro x hx
    show x ∈ (l.loans ++ [(b, _)]).map Prod.snd
    rw [List.map_append]
    rcases List.mem_append.mp hx with hx | hx
    · exact List.mem_append_left _ (hb x hx)
    · exact List.mem_append_right _ hx
  | lose hl => exact absurd hl hd
  | @giveBack b c _ hc =>
    intro x hx
    have hxc : x ≠ c := by
      rintro rfl
      have h1 := t.once x
      have h2 := count_erase_add hc x
      have h3 : 0 < (l.out.erase x).count x := List.count_pos_iff.mpr hx
      rw [if_pos rfl] at h2
      omega
    exact hkept hxc (hb x (List.mem_of_mem_erase hx))
  | @forget b c hc =>
    intro x hx
    exact hkept (fun h => hc (h ▸ hx)) (hb x hx)
  | clear => intro x hx; exact absurd hx (by simp)
  | opens | opened | takeIdle | putIdle | putReturning | takeReturning | drop => exact hb

theorem Moves.backed (hd : ¬d.lost) {l l' : Ledger α β} (h : Moves d max l l') (t : Tidy l)
    (hb : Backed l) : Backed l' := by
  induction h with
  | refl => exact hb
  | tail hm h ih => exact h.backed hd (Moves.tidy hm t) ih

/-! ### The maximum -/

theorem Move.length_le (hd : ¬d.excess) {l l' : Ledger α β} (h : Move d max l l')
    (hl : l.owned.length ≤ max) : l'.owned.length ≤ max := by
  cases h with
  | opens _ ho =>
    have := ho.resolve_right hd
    show (l.owned ++ [_]).length ≤ max
    rw [List.length_append, List.length_singleton]
    omega
  | drop => exact (List.length_erase_le).trans hl
  | clear => exact Nat.zero_le max
  | opened | takeIdle | putIdle | lend | lose | giveBack | forget | putReturning
  | takeReturning => exact hl

theorem Moves.length_le (hd : ¬d.excess) {l l' : Ledger α β} (h : Moves d max l l')
    (hl : l.owned.length ≤ max) : l'.owned.length ≤ max := by
  induction h with
  | refl => exact hl
  | tail _ hm ih => exact hm.length_le hd ih

end Ledger
