import Mathlib.Data.List.Basic

/-!
# Computations that wait for answers

A `Proc` has settled, or awaits an operation and goes on with how that settles; `bind` and `handle`
are the sequence and the `try`/`catch` of such computations.  `Runs p tr r` says that `p` settles
as `r` when what it awaits settles as in `tr`; the rules say what the runs of each combinator are.
-/

universe u

/-- Operations `Op`, of which one that succeeds gives a `Reply`. -/
inductive Proc (Op : Type u) (Reply : Op → Type u) (ε α : Type u) : Type u
  | settled (r : Except ε α)
  | awaits (op : Op) (next : Except ε (Reply op) → Proc Op Reply ε α)

/-- An operation and how it settled. -/
structure Answer (Op : Type u) (Reply : Op → Type u) (ε : Type u) where
  op : Op
  reply : Except ε (Reply op)

namespace Proc

variable {Op : Type u} {Reply : Op → Type u} {ε α β : Type u}

def bind : Proc Op Reply ε α → (α → Proc Op Reply ε β) → Proc Op Reply ε β
  | settled (.ok a), f => f a
  | settled (.error e), _ => settled (.error e)
  | awaits op next, f => awaits op fun r => (next r).bind f

def handle : Proc Op Reply ε α → (ε → Proc Op Reply ε α) → Proc Op Reply ε α
  | settled (.ok a), _ => settled (.ok a)
  | settled (.error e), f => f e
  | awaits op next, f => awaits op fun r => (next r).handle f

instance : Monad (Proc Op Reply ε) where
  pure a := settled (.ok a)
  bind := bind

instance : MonadExcept ε (Proc Op Reply ε) where
  throw e := settled (.error e)
  tryCatch := handle

/-- `op`, awaited. -/
def ask (op : Op) : Proc Op Reply ε (Reply op) := awaits op settled

inductive Runs : Proc Op Reply ε α → List (Answer Op Reply ε) → Except ε α → Prop
  | settled (r : Except ε α) : Runs (settled r) [] r
  | awaits {op : Op} {next : Except ε (Reply op) → Proc Op Reply ε α} (r : Except ε (Reply op))
      {tr : List (Answer Op Reply ε)} {out : Except ε α} (rest : Runs (next r) tr out) :
      Runs (awaits op next) (⟨op, r⟩ :: tr) out

variable {tr : List (Answer Op Reply ε)} {out : Except ε β}

theorem runs_settled {r : Except ε β} :
    Runs (settled r : Proc Op Reply ε β) tr out ↔ tr = [] ∧ out = r := by
  constructor
  · intro h
    cases h
    exact ⟨rfl, rfl⟩
  · rintro ⟨rfl, rfl⟩
    exact .settled _

theorem runs_ask_bind {op : Op} {f : Reply op → Proc Op Reply ε β} :
    Runs (ask op >>= f) tr out ↔
      (∃ e, tr = [⟨op, .error e⟩] ∧ out = .error e) ∨
      ∃ a rest, tr = ⟨op, .ok a⟩ :: rest ∧ Runs (f a) rest out := by
  constructor
  · intro h
    cases h with
    | awaits r rest =>
      cases r with
      | error e =>
        obtain ⟨rfl, rfl⟩ := runs_settled.mp rest
        exact .inl ⟨e, rfl, rfl⟩
      | ok a => exact .inr ⟨a, _, rfl, rest⟩
  · rintro (⟨e, rfl, rfl⟩ | ⟨a, rest, rfl, h⟩)
    · exact .awaits _ (.settled _)
    · exact .awaits _ h

/-- **`try`**: the body settles, and the handler runs when it fails. -/
theorem runs_handle {p : Proc Op Reply ε β} {f : ε → Proc Op Reply ε β} :
    Runs (p.handle f) tr out ↔
      (∃ a, out = .ok a ∧ Runs p tr (.ok a)) ∨
      ∃ e t t', tr = t ++ t' ∧ Runs p t (.error e) ∧ Runs (f e) t' out := by
  induction p generalizing tr with
  | settled r =>
    cases r with
    | ok a =>
      refine ⟨fun h => .inl ?_, ?_⟩
      · obtain ⟨rfl, rfl⟩ := runs_settled.mp h
        exact ⟨a, rfl, .settled _⟩
      · rintro (⟨b, rfl, h⟩ | ⟨e, t, t', rfl, h, -⟩)
        · exact h
        · cases h
    | error e =>
      refine ⟨fun h => .inr ⟨e, [], tr, rfl, .settled _, h⟩, ?_⟩
      rintro (⟨b, rfl, h⟩ | ⟨e', t, t', rfl, h, h'⟩)
      · cases h
      · cases h
        exact h'
  | awaits op next ih =>
    constructor
    · intro h
      cases h with
      | awaits r rest =>
        rcases (ih r).mp rest with ⟨a, rfl, h⟩ | ⟨e, t, t', rfl, h, h'⟩
        · exact .inl ⟨a, rfl, .awaits r h⟩
        · exact .inr ⟨e, ⟨op, r⟩ :: t, t', rfl, .awaits r h, h'⟩
    · rintro (⟨a, rfl, h⟩ | ⟨e, t, t', rfl, h, h'⟩)
      · cases h with
        | awaits r rest => exact .awaits r ((ih r).mpr (.inl ⟨a, rfl, rest⟩))
      · cases h with
        | awaits r rest => exact .awaits r ((ih r).mpr (.inr ⟨e, _, t', rfl, rest, h'⟩))

/-- A last operation whose own error is ignored, before an error is thrown again. -/
theorem runs_cleanup {op : Op} {e : ε} {a : Reply op} :
    Runs ((ask op).handle (fun _ => settled (.ok a)) >>= fun _ => settled (.error e : Except ε β))
        tr out ↔
      (∃ r, tr = [⟨op, r⟩]) ∧ out = .error e := by
  constructor
  · intro h
    cases h with
    | awaits r rest =>
      cases r with
      | error e' =>
        obtain ⟨rfl, rfl⟩ := runs_settled.mp rest
        exact ⟨⟨_, rfl⟩, rfl⟩
      | ok a' =>
        obtain ⟨rfl, rfl⟩ := runs_settled.mp rest
        exact ⟨⟨_, rfl⟩, rfl⟩
  · rintro ⟨⟨r, rfl⟩, rfl⟩
    refine .awaits r ?_
    cases r <;> exact .settled _

/-! ### What is awaited -/

/-- Whatever is answered, only operations with `P` are awaited. -/
inductive Only (P : Op → Prop) : Proc Op Reply ε α → Prop
  | settled (r : Except ε α) : Only P (settled r)
  | awaits {op : Op} {next : Except ε (Reply op) → Proc Op Reply ε α} (h : P op)
      (rest : ∀ r, Only P (next r)) : Only P (awaits op next)

namespace Only

variable {P : Op → Prop}

theorem ask {op : Op} (h : P op) : Only P (ask op : Proc Op Reply ε (Reply op)) :=
  .awaits h .settled

theorem bind {p : Proc Op Reply ε α} {f : α → Proc Op Reply ε β} (hp : Only P p)
    (hf : ∀ a, Only P (f a)) : Only P (p >>= f) := by
  induction hp with
  | settled r =>
    cases r with
    | error e => exact .settled _
    | ok a => exact hf a
  | awaits h _ ih => exact .awaits h ih

theorem handle {p : Proc Op Reply ε α} {f : ε → Proc Op Reply ε α} (hp : Only P p)
    (hf : ∀ e, Only P (f e)) : Only P (p.handle f) := by
  induction hp with
  | settled r =>
    cases r with
    | error e => exact hf e
    | ok a => exact .settled _
  | awaits h _ ih => exact .awaits h ih

theorem of_runs {p : Proc Op Reply ε β} (hp : Only P p) (h : Runs p tr out) :
    ∀ a ∈ tr, P a.op := by
  induction h with
  | settled r => exact fun _ ha => (nomatch ha)
  | awaits r _ ih =>
    cases hp with
    | awaits h rest =>
      intro a ha
      rcases List.mem_cons.mp ha with rfl | ha
      · exact h
      · exact ih (rest r) a ha

end Only

end Proc
