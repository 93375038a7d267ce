import Mathlib.Data.List.OfFn

/-!
# Reading a buffer from an offset on

A `Read` reads a value of a buffer at an offset and says where the value ends, or fails.
`ReadsAt p bs a` says that `p` reads `a` wherever the buffer holds `bs`, and ends where `bs` ends;
`Forward p` that `p` does not go back.  The rules of both follow the constructors of the monad.
-/

namespace Offsets

variable {α β γ ε : Type}

abbrev Read (β ε α : Type) := ReaderT (List β) (StateT Nat (Except ε)) α

/-- `n` values, one after the other. -/
def times (p : Read β ε α) : Nat → Read β ε (List α)
  | 0 => pure []
  | n + 1 => do
    let a ← p
    let as ← times p n
    return a :: as

/-! ### What is read -/

def ReadsAt (p : Read β ε α) (bs : List β) (a : α) : Prop :=
  ∀ pre post, p (pre ++ bs ++ post) pre.length = .ok (a, pre.length + bs.length)

namespace ReadsAt

variable {p : Read β ε α} {f : α → Read β ε γ} {xs ys : List β} {a : α} {c : γ}

theorem pure (a : α) : ReadsAt (pure a : Read β ε α) [] a := fun _ _ => rfl

theorem bind (hp : ReadsAt p xs a) (hf : ReadsAt (f a) ys c) : ReadsAt (p >>= f) (xs ++ ys) c := by
  intro pre post
  have hfirst := hp pre (ys ++ post)
  have hsecond := hf (pre ++ xs) post
  rw [List.length_append] at hsecond
  rw [← List.append_assoc] at hfirst
  rw [← List.append_assoc pre, List.length_append, ← Nat.add_assoc]
  show (p (pre ++ xs ++ ys ++ post) pre.length >>= fun q => f q.1 (pre ++ xs ++ ys ++ post) q.2) = _
  rw [hfirst]
  show f a (pre ++ xs ++ ys ++ post) (pre.length + xs.length) = _
  exact hsecond

/-- Nothing is read after it. -/
theorem last (hp : ReadsAt p xs a) (hf : ReadsAt (f a) [] c) : ReadsAt (p >>= f) xs c := by
  have h := hp.bind hf
  rw [List.append_nil] at h
  exact h

/-- Nothing is read before it. -/
theorem first (hp : ReadsAt p [] a) (hf : ReadsAt (f a) ys c) : ReadsAt (p >>= f) ys c :=
  hp.bind hf

/-- One value after the other. -/
theorem times : ∀ {n : Nat} {enc : Fin n → List β} {val : Fin n → α},
    (∀ i, ReadsAt p (enc i) (val i)) →
      ReadsAt (times p n) (List.ofFn enc).flatten (List.ofFn val)
  | 0, _, _, _ => by
    rw [List.ofFn_zero, List.ofFn_zero]
    exact .pure []
  | _ + 1, enc, val, h => by
    rw [List.ofFn_succ, List.ofFn_succ, List.flatten_cons]
    exact (h 0).bind ((times fun i => h i.succ).last (.pure _))

/-- The whole of a buffer. -/
theorem whole (h : ReadsAt p xs a) : p xs 0 = .ok (a, xs.length) := by
  have hp := h [] []
  rw [List.nil_append, List.append_nil, List.length_nil, Nat.zero_add] at hp
  exact hp

end ReadsAt

/-! ### Where it ends -/

def Forward (p : Read β ε α) : Prop := ∀ b o a e, p b o = .ok (a, e) → o ≤ e

namespace Forward

variable {p q : Read β ε α} {f : α → Read β ε γ}

theorem pure (a : α) : Forward (pure a : Read β ε α) := by
  intro b o a' e h
  cases h
  exact Nat.le_refl o

theorem bind (hp : Forward p) (hf : ∀ a, Forward (f a)) : Forward (p >>= f) := by
  intro b o c e h
  change (p b o >>= fun q => f q.1 b q.2) = _ at h
  cases hpo : p b o with
  | error x =>
    rw [hpo] at h
    cases h
  | ok r =>
    rw [hpo] at h
    exact Nat.le_trans (hp b o r.1 r.2 hpo) (hf r.1 b r.2 c e h)

theorem times (hp : Forward p) : ∀ n, Forward (times p n)
  | 0 => .pure []
  | n + 1 => hp.bind fun _ => (times hp n).bind fun _ => .pure _

end Forward

theorem bind_congr {p : Read β ε α} {f g : α → Read β ε γ} {b : List β} {o : Nat}
    (h : ∀ a e, p b o = .ok (a, e) → f a b e = g a b e) : (p >>= f) b o = (p >>= g) b o := by
  show (p b o >>= fun r => f r.1 b r.2) = (p b o >>= fun r => g r.1 b r.2)
  cases hr : p b o with
  | error x => rfl
  | ok r => exact h r.1 r.2 hr

/-- What reads the same from `o` on reads the same `n` times. -/
theorem times_congr {p q : Read β ε α} {b : List β} {o : Nat} (hq : Forward q)
    (h : ∀ o', o ≤ o' → p b o' = q b o') : ∀ n o', o ≤ o' → times p n b o' = times q n b o' := by
  intro n
  induction n with
  | zero => exact fun _ _ => rfl
  | succ n ih =>
    intro o' ho
    show (p b o' >>= fun r => (times p n b r.2 >>= fun s => Except.ok (r.1 :: s.1, s.2))) =
      (q b o' >>= fun r => (times q n b r.2 >>= fun s => Except.ok (r.1 :: s.1, s.2)))
    rw [h o' ho]
    cases hr : q b o' with
    | error x => rfl
    | ok r =>
      show (times p n b r.2 >>= _) = (times q n b r.2 >>= _)
      rw [ih r.2 (Nat.le_trans ho (hq b o' r.1 r.2 hr))]

end Offsets
