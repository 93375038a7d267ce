import Mathlib.Data.List.Basic

/-!
# Computations that only append

A computation over a buffer may fail.  `OnlyAppends m` says that `m` does not look at the buffer it
runs on: it fails on every buffer with the same error, or it returns the same value and appends the
same items (`Outcome`).  The rules follow the constructors of the monad.

`Slots` is about a buffer with slots that are set while its end grows.  A computation that appends
an item and sets the slot of the item leaves the other slots alone, so that what a sequence of them
leaves does not depend on what the slots held before (`FillsAll`).
-/

class Appendable (σ : Type) (β : outParam Type) where
  app : σ → List β → σ
  app_nil : ∀ s, app s [] = s
  app_app : ∀ s xs ys, app (app s xs) ys = app s (xs ++ ys)

namespace Appending

open Appendable

variable {σ β ε : Type} {α γ : Type} [Appendable σ β]

abbrev Outcome (ε β α : Type) := Except ε (α × List β)

/-- What a computation with a known outcome does on a buffer. -/
def Outcome.on (r : Outcome ε β α) (s : σ) : Except ε (α × σ) := r.map fun p => (p.1, app s p.2)

def Yields (m : StateT σ (Except ε) α) (r : Outcome ε β α) : Prop := ∀ s, m s = r.on s

def OnlyAppends (m : StateT σ (Except ε) α) : Prop := ∃ r : Outcome ε β α, Yields m r

def Outcome.bind : Outcome ε β α → (α → Outcome ε β γ) → Outcome ε β γ
  | .error e, _ => .error e
  | .ok (a, xs), f => (f a).map fun p => (p.1, xs ++ p.2)

theorem Yields.pure (a : α) : Yields (pure a : StateT σ (Except ε) α) (.ok (a, [])) := by
  intro s
  show Except.ok (a, s) = Except.ok (a, app s [])
  rw [app_nil]

theorem Yields.throw (e : ε) : Yields (throw e : StateT σ (Except ε) α) (.error e) := fun _ => rfl

theorem Yields.bind {m : StateT σ (Except ε) α} {f : α → StateT σ (Except ε) γ}
    {r : Outcome ε β α} {g : α → Outcome ε β γ} (hm : Yields m r) (hf : ∀ a, Yields (f a) (g a)) :
    Yields (m >>= f) (r.bind g) := by
  intro s
  show (m s >>= fun p => f p.1 p.2) = _
  rw [hm s]
  cases r with
  | error e => rfl
  | ok p =>
    obtain ⟨a, xs⟩ := p
    show f a (app s xs) = _
    rw [hf a (app s xs)]
    show (g a).on (app s xs) = Outcome.on ((g a).map fun p => (p.1, xs ++ p.2)) s
    cases g a with
    | error e => rfl
    | ok p => exact congrArg (fun s => Except.ok (p.1, s)) (app_app s xs p.2)

/-- Where the first value is known. -/
theorem Yields.bind_ok {m : StateT σ (Except ε) α} {f : α → StateT σ (Except ε) γ} {a : α}
    {xs : List β} {r : Outcome ε β γ} (hm : Yields m (.ok (a, xs))) (hf : Yields (f a) r) :
    Yields (m >>= f) (Outcome.bind (.ok (a, xs)) fun _ => r) := by
  intro s
  show (m s >>= fun p => f p.1 p.2) = _
  rw [hm s]
  show f a (app s xs) = Outcome.on (r.map fun p => (p.1, xs ++ p.2)) s
  rw [hf (app s xs)]
  cases r with
  | error e => rfl
  | ok p => exact congrArg (fun s => Except.ok (p.1, s)) (app_app s xs p.2)

/-- Where nothing is appended. -/
theorem Yields.bind_nil {m : StateT σ (Except ε) α} {f : α → StateT σ (Except ε) γ} {a : α}
    {r : Outcome ε β γ} (hm : Yields m (.ok (a, []))) (hf : Yields (f a) r) :
    Yields (m >>= f) r := by
  have hr : Outcome.bind (.ok (a, [])) (fun _ => r) = r := by
    cases r <;> rfl
  have h := hm.bind_ok hf
  rw [hr] at h
  exact h

theorem Yields.bind_error {m : StateT σ (Except ε) α} {f : α → StateT σ (Except ε) γ} {e : ε}
    (hm : Yields m (.error e)) : Yields (m >>= f) (.error e) := by
  intro s
  show (m s >>= fun p => f p.1 p.2) = _
  rw [hm s]
  rfl

/-- The handler starts on the buffer as it was. -/
theorem Yields.tryCatch_error {m : StateT σ (Except ε) α} {f : ε → StateT σ (Except ε) α} {e : ε}
    {r : Outcome ε β α} (hm : Yields m (.error e)) (hf : Yields (f e) r) :
    Yields (tryCatch m f) r := by
  intro s
  show (MonadExcept.tryCatch (m s) fun e => f e s) = _
  rw [hm s, ← hf s]
  rfl

theorem Yields.tryCatch_ok {m : StateT σ (Except ε) α} {f : ε → StateT σ (Except ε) α}
    {p : α × List β} (hm : Yields m (.ok p)) : Yields (tryCatch m f) (.ok p) := by
  intro s
  show (MonadExcept.tryCatch (m s) fun e => f e s) = _
  rw [hm s]
  rfl

namespace OnlyAppends

theorem pure (a : α) : OnlyAppends (pure a : StateT σ (Except ε) α) := ⟨_, .pure a⟩

theorem throw (e : ε) : OnlyAppends (throw e : StateT σ (Except ε) α) := ⟨_, .throw e⟩

theorem bind {m : StateT σ (Except ε) α} {f : α → StateT σ (Except ε) γ} (hm : OnlyAppends m)
    (hf : ∀ a, OnlyAppends (f a)) : OnlyAppends (m >>= f) := by
  obtain ⟨r, hr⟩ := hm
  choose g hg using hf
  exact ⟨r.bind g, hr.bind hg⟩

theorem ite {P : Prop} [Decidable P] {m m' : StateT σ (Except ε) α} (hm : P → OnlyAppends m)
    (hm' : ¬P → OnlyAppends m') : OnlyAppends (if P then m else m') := by
  split
  · next h => exact hm h
  · next h => exact hm' h

theorem tryCatch {m : StateT σ (Except ε) α} {f : ε → StateT σ (Except ε) α} (hm : OnlyAppends m)
    (hf : ∀ e, OnlyAppends (f e)) : OnlyAppends (tryCatch m f) := by
  obtain ⟨r, hr⟩ := hm
  cases r with
  | error e =>
    obtain ⟨r', hr'⟩ := hf e
    exact ⟨r', hr.tryCatch_error hr'⟩
  | ok p => exact ⟨.ok p, hr.tryCatch_ok⟩

end OnlyAppends

/-! ### Slots -/

/-- Buffers with slots of `κ` in front of what is appended, and how a slot is set. -/
structure Slots (σ β ε κ : Type) [Appendable σ β] where
  st : List κ → List β → σ
  set : Nat → κ → StateT σ (Except ε) Unit
  app_st : ∀ ks xs ys, app (st ks xs) ys = st ks (xs ++ ys)
  set_st : ∀ before k k' after xs,
    set before.length k (st (before ++ k' :: after) xs) = .ok ((), st (before ++ k :: after) xs)

/-- All slots and all that is appended. -/
def fillAll {κ : Type} : List (Outcome ε β κ) → Except ε (List κ × List β)
  | [] => .ok ([], [])
  | .error e :: _ => .error e
  | .ok (k, xs) :: rs => (fillAll rs).map fun p => (k :: p.1, xs ++ p.2)

namespace Slots

variable {κ : Type} (L : Slots σ β ε κ) {m m' : StateT σ (Except ε) Unit} {i : Nat}
  {held held' : List κ} {rs rs' : List (Outcome ε β κ)}

/-- `m` fills the slots from `i` on, which held `held`. -/
def FillsAll (m : StateT σ (Except ε) Unit) (i : Nat) (held : List κ)
    (rs : List (Outcome ε β κ)) : Prop :=
  ∀ before after xs, before.length = i → m (L.st (before ++ held ++ after) xs) =
    (fillAll rs).map fun p => ((), L.st (before ++ p.1 ++ after) (xs ++ p.2))

variable {L}

theorem FillsAll.nil : L.FillsAll (pure ()) i [] [] := by
  intro before after xs _
  show Except.ok ((), _) = Except.ok ((), L.st (before ++ [] ++ after) (xs ++ []))
  rw [List.append_nil xs]

/-- An item whose slot already holds what it is to hold is not set again. -/
theorem FillsAll.one [DecidableEq κ] {enc : StateT σ (Except ε) κ} {r : Outcome ε β κ} (k' : κ)
    (h : Yields enc r) :
    L.FillsAll (enc >>= fun k => if k ≠ k' then L.set i k else pure ()) i [k'] [r] := by
  rintro before after xs rfl
  show (enc _ >>= fun p => _) = _
  rw [h]
  cases r with
  | error e => rfl
  | ok p =>
    obtain ⟨k, ys⟩ := p
    show (if k ≠ k' then L.set before.length k else pure ()) (app (L.st _ xs) ys) =
      Except.ok ((), L.st (before ++ [k] ++ after) (xs ++ (ys ++ [])))
    rw [L.app_st, List.append_nil ys, List.append_assoc before, List.append_assoc before]
    by_cases hk : k = k'
    · rw [if_neg (not_not_intro hk), hk]
      rfl
    · rw [if_pos hk]
      exact L.set_st before k k' after (xs ++ ys)

theorem fillAll_append : ∀ rs rs' : List (Outcome ε β κ),
    fillAll (rs ++ rs') = (fillAll rs).bind fun p =>
      (fillAll rs').map fun q => (p.1 ++ q.1, p.2 ++ q.2)
  | [], rs' => by
    show fillAll rs' = (fillAll rs').map _
    cases fillAll rs' <;> rfl
  | .error e :: _, _ => rfl
  | .ok (k, xs) :: rs, rs' => by
    show (fillAll (rs ++ rs')).map _ = ((fillAll rs).map _).bind _
    rw [fillAll_append rs rs']
    cases fillAll rs with
    | error e => rfl
    | ok p =>
      show ((fillAll rs').map _).map _ = (fillAll rs').map _
      cases fillAll rs' with
      | error e => rfl
      | ok q =>
        show Except.ok _ = Except.ok _
        simp

theorem fillAll_length : ∀ {rs : List (Outcome ε β κ)} {p : List κ × List β},
    fillAll rs = .ok p → p.1.length = rs.length
  | [], p, h => by
    cases h
    rfl
  | .error e :: _, p, h => by cases h
  | .ok (k, xs) :: rs, p, h => by
    cases hrs : fillAll rs with
    | error e =>
      rw [fillAll, hrs] at h
      cases h
    | ok q =>
      rw [fillAll, hrs] at h
      cases h
      exact congrArg (· + 1) (fillAll_length hrs)

/-- **One sequence of slots after the other.** -/
theorem FillsAll.append (h : L.FillsAll m i held rs)
    (h' : L.FillsAll m' (i + held.length) held' rs') (hlen : held.length = rs.length) :
    L.FillsAll (do m; m') i (held ++ held') (rs ++ rs') := by
  intro before after xs hi
  show (m _ >>= fun p => m' p.2) = _
  have hst : before ++ (held ++ held') ++ after = before ++ held ++ (held' ++ after) := by simp
  rw [hst, h before (held' ++ after) xs hi, fillAll_append]
  cases hrs : fillAll rs with
  | error e => rfl
  | ok p =>
    have hp : (before ++ p.1).length = i + held.length := by
      rw [List.length_append, hi, fillAll_length hrs, hlen]
    show m' (L.st (before ++ p.1 ++ (held' ++ after)) (xs ++ p.2)) = _
    rw [← List.append_assoc, h' (before ++ p.1) after (xs ++ p.2) hp]
    show _ = ((fillAll rs').map _).map _
    cases fillAll rs' with
    | error e => rfl
    | ok q =>
      show Except.ok ((), _) = Except.ok ((), _)
      simp only [List.append_assoc]

end Slots

end Appending
