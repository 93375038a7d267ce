import Mathlib.Data.List.Basic

/-!
# Reading items off a stream

A reader takes one item from the front of what has arrived, or needs more.  What it takes
does not depend on what comes after it (`stable`), so reading as far as possible after
every chunk reads the same items as reading everything at once, wherever the chunks end
(`drain_append`).
-/

universe u v

structure Reader (α : Type u) (β : Type v) where
  next : List β → Option (α × List β)
  shorter : ∀ {bs : List β} {a : α} {rest : List β}, next bs = some (a, rest) →
    rest.length < bs.length
  stable : ∀ {bs : List β} {a : α} {rest : List β}, next bs = some (a, rest) →
    ∀ more, next (bs ++ more) = some (a, rest ++ more)

namespace Reader

variable {α : Type u} {β : Type v} (R : Reader α β)

/-- All items that are complete, and what is left. -/
def drain (bs : List β) : List α × List β :=
  match _h : R.next bs with
  | none => ([], bs)
  | some (a, rest) => (a :: (drain rest).1, (drain rest).2)
termination_by bs.length
decreasing_by all_goals exact R.shorter _h

variable {R}

theorem drain_none {bs : List β} (h : R.next bs = none) : R.drain bs = ([], bs) := by
  rw [drain]
  split
  · rfl
  · rename_i hs
    rw [h] at hs
    cases hs

theorem drain_some {bs rest : List β} {a : α} (h : R.next bs = some (a, rest)) :
    R.drain bs = (a :: (R.drain rest).1, (R.drain rest).2) := by
  rw [drain]
  split
  · rename_i hs
    rw [h] at hs
    cases hs
  · rename_i a' rest' hs
    rw [h, Option.some.injEq, Prod.mk.injEq] at hs
    obtain ⟨rfl, rfl⟩ := hs
    rfl

/-- The induction along what a reader reads. -/
theorem drain_induction {P : List β → Prop} (hnone : ∀ bs, R.next bs = none → P bs)
    (hsome : ∀ bs a rest, R.next bs = some (a, rest) → P rest → P bs) (bs : List β) : P bs := by
  induction h : bs.length using Nat.strongRecOn generalizing bs with
  | ind n ih =>
    cases hs : R.next bs with
    | none => exact hnone bs hs
    | some p =>
      obtain ⟨a, rest⟩ := p
      exact hsome bs a rest hs (ih rest.length (h ▸ R.shorter hs) rest rfl)

/-- What is left holds no complete item. -/
theorem next_drain (bs : List β) : R.next (R.drain bs).2 = none := by
  induction bs using R.drain_induction with
  | hnone bs h =>
    rw [drain_none h]
    exact h
  | hsome bs a rest h ih =>
    rw [drain_some h]
    exact ih

/-- **More input** is read after what the reader has left. -/
theorem drain_append (bs more : List β) : R.drain (bs ++ more) =
    ((R.drain bs).1 ++ (R.drain ((R.drain bs).2 ++ more)).1,
      (R.drain ((R.drain bs).2 ++ more)).2) := by
  induction bs using R.drain_induction with
  | hnone bs h =>
    rw [drain_none h]
    rfl
  | hsome bs a rest h ih =>
    rw [drain_some h, drain_some (R.stable h more), ih]
    rfl

/-- A stream of whole items is read item by item. -/
theorem drain_items {ι : Type v} {enc : ι → List β} {item : ι → α} {is : List ι}
    (henc : ∀ i ∈ is, ∀ more, R.next (enc i ++ more) = some (item i, more)) {tail : List β}
    (ht : R.next tail = none) : R.drain (is.flatMap enc ++ tail) = (is.map item, tail) := by
  induction is with
  | nil => exact drain_none ht
  | cons i is ih =>
    have hi := henc i List.mem_cons_self (is.flatMap enc ++ tail)
    rw [List.flatMap_cons, List.append_assoc, drain_some hi,
      ih fun j hj => henc j (List.mem_cons_of_mem i hj)]
    rfl

end Reader
