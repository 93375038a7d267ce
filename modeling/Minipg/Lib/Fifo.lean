import Mathlib.Logic.Function.Basic

/-!
# Replies in the order of the requests

A pipeline without identifiers on the wire: requests wait in the order in which they were
sent, every reply is for the oldest one, and a last reply ends it.  Replies that arrive
while nothing waits are for nobody, and `drop` forgets all requests that wait.

`Fifo.run` reads a list of such events.  A system whose events are the list `es` refines
this pipeline if what it keeps in flight is `(Fifo.run isLast es).waiting` and what it
takes for the replies to `a` is `(Fifo.run isLast es).heard a`.
-/

universe u v

structure Fifo (α : Type u) (β : Type v) where
  waiting : List α
  heard : α → List β

namespace Fifo

inductive Event (α : Type u) (β : Type v)
  | start (a : α)
  | reply (b : β)
  | drop

variable {α : Type u} {β : Type v} [DecidableEq α] (isLast : β → Bool)

def step (q : Fifo α β) : Event α β → Fifo α β
  | .start a => { q with waiting := q.waiting ++ [a] }
  | .drop => { q with waiting := [] }
  | .reply b =>
    match q.waiting with
    | [] => q
    | a :: rest =>
      { waiting := if isLast b then rest else a :: rest
        heard := Function.update q.heard a (q.heard a ++ [b]) }

/-- The pipeline after a list of events. -/
def run (es : List (Event α β)) : Fifo α β := es.foldl (step isLast) ⟨[], fun _ => []⟩

@[simp] theorem run_nil : run isLast ([] : List (Event α β)) = ⟨[], fun _ => []⟩ := rfl

theorem run_append_singleton (es : List (Event α β)) (e : Event α β) :
    run isLast (es ++ [e]) = step isLast (run isLast es) e := by
  simp [run, List.foldl_append]

@[simp] theorem run_start (es : List (Event α β)) (a : α) : run isLast (es ++ [.start a]) =
    { run isLast es with waiting := (run isLast es).waiting ++ [a] } :=
  run_append_singleton isLast es _

@[simp] theorem run_drop (es : List (Event α β)) :
    run isLast (es ++ [.drop]) = { run isLast es with waiting := [] } :=
  run_append_singleton isLast es _

/-- Dropping again changes nothing. -/
theorem run_drops (es : List (Event α β)) (n : Nat) :
    run isLast (es ++ List.replicate (n + 1) .drop) = { run isLast es with waiting := [] } := by
  induction n with
  | zero => exact run_drop isLast es
  | succ n ih =>
    rw [List.replicate_succ', ← List.append_assoc, run_drop, ih]

theorem step_reply_nil {q : Fifo α β} (h : q.waiting = []) (b : β) :
    step isLast q (.reply b) = q := by
  unfold step
  dsimp only
  rw [h]

theorem step_reply_cons {q : Fifo α β} {a : α} {rest : List α} (h : q.waiting = a :: rest)
    (b : β) : step isLast q (.reply b) =
      { waiting := if isLast b then rest else a :: rest
        heard := Function.update q.heard a (q.heard a ++ [b]) } := by
  unfold step
  dsimp only
  rw [h]

theorem step_reply_waiting (q : Fifo α β) (b : β) :
    (step isLast q (.reply b)).waiting = if isLast b then q.waiting.tail else q.waiting := by
  cases h : q.waiting with
  | nil =>
    rw [step_reply_nil isLast h, h]
    simp
  | cons a rest => rw [step_reply_cons isLast h, List.tail_cons]

/-- The oldest request hears a reply. -/
theorem step_reply_heard {q : Fifo α β} {a : α} (h : q.waiting.head? = some a) (b : β) :
    (step isLast q (.reply b)).heard a = q.heard a ++ [b] := by
  obtain ⟨rest, hw⟩ := List.head?_eq_some_iff.mp h
  rw [step_reply_cons isLast hw]
  exact Function.update_self ..

/-- **Only the oldest request hears a reply.** -/
theorem step_reply_heard_of_ne {q : Fifo α β} {a : α} (h : q.waiting.head? ≠ some a) (b : β) :
    (step isLast q (.reply b)).heard a = q.heard a := by
  cases hw : q.waiting with
  | nil => rw [step_reply_nil isLast hw]
  | cons a' rest =>
    rw [step_reply_cons isLast hw]
    rw [hw, List.head?_cons, ne_eq, Option.some.injEq] at h
    exact Function.update_of_ne (fun ha => h ha.symm) _ _

theorem run_reply_nil {es : List (Event α β)} (h : (run isLast es).waiting = []) (b : β) :
    run isLast (es ++ [.reply b]) = run isLast es := by
  rw [run_append_singleton, step_reply_nil isLast h]

theorem run_reply_cons {es : List (Event α β)} {a : α} {rest : List α}
    (h : (run isLast es).waiting = a :: rest) (b : β) : run isLast (es ++ [.reply b]) =
      { waiting := if isLast b then rest else a :: rest
        heard := Function.update (run isLast es).heard a ((run isLast es).heard a ++ [b]) } := by
  rw [run_append_singleton, step_reply_cons isLast h]

end Fifo
