import Mathlib.Data.List.Basic
import Mathlib.Data.Option.Basic

/-!
# A store that grows

`store` writes over the cells of a store and drops what does not fit; `doubled` is the capacity that
is doubled until enough fits.  `Agrees cells items gap` says that the first cells hold `items`, but
for the positions in `gap`, whose cells may hold anything.
-/

universe u

namespace Growing

variable {α : Type u} {cells items xs : List α} {gap : Nat → Prop} {pos : Nat}

/-- `xs` from the cell `pos` on, as far as there are cells. -/
def store (cells : List α) (pos : Nat) (xs : List α) : List α :=
  cells.mapIdx fun i a => if pos ≤ i then xs[i - pos]?.getD a else a

/-- `while (cap < need) cap *= 2` -/
def doubled (need cap : Nat) (h : 0 < cap) : Nat :=
  if cap < need then doubled need (cap * 2) (by omega) else cap
termination_by need - cap
decreasing_by omega

theorem le_doubled (need cap : Nat) (h : 0 < cap) :
    need ≤ doubled need cap h ∧ cap ≤ doubled need cap h := by
  fun_induction doubled need cap h with
  | case1 cap h hlt ih => exact ⟨ih.1, by omega⟩
  | case2 cap h hlt => exact ⟨by omega, Nat.le_refl cap⟩

/-! ### Cells -/

@[simp] theorem length_store (cells : List α) (pos : Nat) (xs : List α) :
    (store cells pos xs).length = cells.length := List.length_mapIdx

theorem getElem?_store (cells : List α) (pos : Nat) (xs : List α) (i : Nat) :
    (store cells pos xs)[i]? =
      cells[i]?.map fun a => if pos ≤ i then xs[i - pos]?.getD a else a := List.getElem?_mapIdx

theorem getElem?_store_before {i : Nat} (h : i < pos) : (store cells pos xs)[i]? = cells[i]? := by
  rw [getElem?_store]
  simp [Nat.not_le_of_lt h]

theorem getElem?_store_behind {i : Nat} (h : pos + xs.length ≤ i) :
    (store cells pos xs)[i]? = cells[i]? := by
  rw [getElem?_store, List.getElem?_eq_none (show xs.length ≤ i - pos by omega)]
  simp

theorem getElem?_store_in {i : Nat} (h : pos ≤ i) (hi : i < pos + xs.length)
    (hcell : i < cells.length) : (store cells pos xs)[i]? = xs[i - pos]? := by
  rw [getElem?_store, List.getElem?_eq_getElem hcell,
    List.getElem?_eq_getElem (show i - pos < xs.length by omega)]
  simp [h]

/-- Two stretches that follow each other. -/
theorem store_append (ys : List α) :
    store (store cells pos xs) (pos + xs.length) ys = store cells pos (xs ++ ys) := by
  apply List.ext_getElem?
  intro i
  rw [getElem?_store, getElem?_store, getElem?_store, Option.map_map]
  congr 1
  funext a
  show (if pos + xs.length ≤ i then ys[i - (pos + xs.length)]?.getD
    (if pos ≤ i then xs[i - pos]?.getD a else a) else if pos ≤ i then xs[i - pos]?.getD a else a) = _
  by_cases h : pos + xs.length ≤ i
  · have hpos : pos ≤ i := by omega
    rw [if_pos h, if_pos hpos, if_pos hpos, List.getElem?_eq_none (show xs.length ≤ i - pos by omega),
      List.getElem?_append_right (by omega), Option.getD_none]
    congr 2
    omega
  · rw [if_neg h]
    by_cases hpos : pos ≤ i
    · rw [if_pos hpos, if_pos hpos, List.getElem?_append_left (by omega)]
    · rw [if_neg hpos, if_neg hpos]

/-- The second stretch may as well be written first. -/
theorem store_comm {ys : List α} {p : Nat} (h : pos + xs.length ≤ p) :
    store (store cells p ys) pos xs = store (store cells pos xs) p ys := by
  apply List.ext_getElem?
  intro i
  by_cases hi : i < p
  · rw [getElem?_store_before hi, getElem?_store, getElem?_store_before hi, getElem?_store]
  · have hbehind : pos + xs.length ≤ i := by omega
    rw [getElem?_store_behind hbehind, getElem?_store, getElem?_store, getElem?_store_behind hbehind]

@[simp] theorem store_nil : store cells pos [] = cells := by
  apply List.ext_getElem?
  intro i
  rw [getElem?_store]
  simp

/-! ### What the cells hold -/

/-- The first cells hold `items`, but for the gap. -/
structure Agrees (cells items : List α) (gap : Nat → Prop) : Prop where
  room : items.length ≤ cells.length
  same : ∀ i < items.length, ¬gap i → cells[i]? = items[i]?

namespace Agrees

/-- Without a gap the items can be taken. -/
theorem take (h : Agrees cells items gap) (hgap : ∀ i < items.length, ¬gap i) :
    cells.take items.length = items := by
  apply List.ext_getElem?
  intro i
  by_cases hi : i < items.length
  · rw [List.getElem?_take_of_lt hi]
    exact h.same i hi (hgap i hi)
  · rw [List.getElem?_eq_none (by rw [List.length_take]; omega),
      List.getElem?_eq_none (by omega)]

theorem append (h : Agrees cells items gap) (hroom : items.length + xs.length ≤ cells.length) :
    Agrees (store cells items.length xs) (items ++ xs) gap := by
  constructor
  · rw [List.length_append, length_store]
    exact hroom
  · intro i hi hgap
    rw [List.length_append] at hi
    by_cases hold : i < items.length
    · rw [getElem?_store_before hold, List.getElem?_append_left hold]
      exact h.same i hold hgap
    · rw [getElem?_store_in (by omega) (by omega) (by omega),
        List.getElem?_append_right (by omega)]

/-- In place. -/
theorem patch (h : Agrees cells items gap) (pos : Nat) (xs : List α) :
    Agrees (store cells pos xs) (store items pos xs) gap := by
  constructor
  · rw [length_store, length_store]
    exact h.room
  · intro i hi hgap
    rw [length_store] at hi
    rw [getElem?_store, getElem?_store, h.same i hi hgap]

/-- What is written over the gap closes it. -/
theorem fill (h : Agrees cells items gap) (pos : Nat) (xs : List α)
    (hgap : ∀ i, gap i → pos ≤ i ∧ i < pos + xs.length) :
    Agrees (store cells pos xs) (store items pos xs) fun _ => False := by
  have hpatched := h.patch pos xs
  refine ⟨hpatched.room, fun i hi _ => ?_⟩
  by_cases hin : gap i
  · obtain ⟨hlow, hhigh⟩ := hgap i hin
    rw [length_store] at hi
    have hroom := h.room
    rw [getElem?_store_in hlow hhigh hi, getElem?_store_in hlow hhigh (by omega)]
  · exact hpatched.same i hi hin

/-- Cells that are skipped: whatever is said of them, they are in the gap. -/
theorem skip (h : Agrees cells items gap) (xs : List α)
    (hroom : items.length + xs.length ≤ cells.length) :
    Agrees cells (items ++ xs) fun i => gap i ∨ items.length ≤ i := by
  constructor
  · rw [List.length_append]
    exact hroom
  · intro i hi hgap
    have hold : i < items.length := Nat.lt_of_not_le fun hle => hgap (.inr hle)
    rw [List.getElem?_append_left hold]
    exact h.same i hold fun hin => hgap (.inl hin)

theorem cut (h : Agrees cells items gap) (n : Nat) : Agrees cells (items.take n) gap := by
  have hlen : (items.take n).length ≤ items.length := by
    rw [List.length_take]
    exact Nat.min_le_right ..
  refine ⟨Nat.le_trans hlen h.room, fun i hi hgap => ?_⟩
  rw [h.same i (Nat.lt_of_lt_of_le hi hlen) hgap, List.getElem?_take_of_lt]
  rw [List.length_take] at hi
  omega

/-- Cells that are moved to the front of others. -/
theorem move (h : Agrees cells items gap) {fresh : List α} (hroom : items.length ≤ fresh.length) :
    Agrees (store fresh 0 (cells.take items.length)) items gap := by
  have hold := h.room
  have hlen : (cells.take items.length).length = items.length := by
    rw [List.length_take]
    omega
  constructor
  · rw [length_store]
    exact hroom
  · intro i hi hgap
    rw [getElem?_store_in (Nat.zero_le i) (by omega) (by omega), Nat.sub_zero,
      List.getElem?_take_of_lt hi]
    exact h.same i hi hgap

theorem mono (h : Agrees cells items gap) {gap' : Nat → Prop}
    (hgap : ∀ i < items.length, gap i → gap' i) : Agrees cells items gap' :=
  ⟨h.room, fun i hi hnot => h.same i hi fun hin => hnot (hgap i hi hin)⟩

end Agrees

end Growing
