import Mathlib.Logic.Basic

/-!
# Commands on their way

A server reads commands from a queue, one at a time; what a command does may depend on a
choice that the sender does not see.  `wp serve ok gs Q s` says what the sender may
rely on while the commands `gs` are on their way to a server in the state `s`: whatever
the choices are, every command is read in a state that is `ok` for it, and in the end `Q`
holds.

The rules are those of sequential composition and of consequence.  Sending a command adds
it at the end of the queue (`wp_append`), and reading one takes it from the front
(`wp_read`).
-/

universe u v w

namespace Pending

variable {σ : Type u} {κ : Type v} {γ : Type w}

/-- Whatever happens while the server reads `gs`, each command is `ok` when it is read, and `Q`
holds at the end. -/
def wp (serve : σ → κ → γ → σ) (ok : σ → γ → Prop) : List γ → (σ → Prop) → σ → Prop
  | [], Q, s => Q s
  | g :: gs, Q, s => ok s g ∧ ∀ k, wp serve ok gs Q (serve s k g)

variable {serve : σ → κ → γ → σ} {ok ok' : σ → γ → Prop} {Q Q' : σ → Prop}

@[simp] theorem wp_nil {s : σ} : wp serve ok [] Q s ↔ Q s := Iff.rfl

@[simp] theorem wp_cons {g : γ} {gs : List γ} {s : σ} :
    wp serve ok (g :: gs) Q s ↔ ok s g ∧ ∀ k, wp serve ok gs Q (serve s k g) := Iff.rfl

/-- Sequential composition. -/
theorem wp_append {gs gs' : List γ} {s : σ} :
    wp serve ok (gs ++ gs') Q s ↔ wp serve ok gs (wp serve ok gs' Q) s := by
  induction gs generalizing s with
  | nil => rfl
  | cons g gs ih => simp only [List.cons_append, wp_cons, ih]

/-- The rule of consequence. -/
theorem wp_mono {gs : List γ} {s : σ} (h : wp serve ok gs Q s) (hQ : ∀ s, Q s → Q' s) :
    wp serve ok gs Q' s := by
  induction gs generalizing s with
  | nil => exact hQ s h
  | cons g gs ih => exact ⟨h.1, fun k => ih (h.2 k)⟩

/-- The rule of consequence for what is asked of the commands. -/
theorem wp_mono_ok {gs : List γ} {s : σ} (h : wp serve ok gs Q s)
    (hok : ∀ g ∈ gs, ∀ s, ok s g → ok' s g) : wp serve ok' gs Q s := by
  induction gs generalizing s with
  | nil => exact h
  | cons g gs ih =>
    exact ⟨hok g List.mem_cons_self s h.1, fun k => ih (h.2 k) fun g' hg =>
      hok g' (List.mem_cons_of_mem _ hg)⟩

/-- Commands that change nothing and that nothing is asked of may be anywhere. -/
theorem wp_idle {gs : List γ} {s : σ} (hok : ∀ g ∈ gs, ok s g)
    (hid : ∀ g ∈ gs, ∀ k, serve s k g = s) (h : Q s) : wp serve ok gs Q s := by
  induction gs with
  | nil => exact h
  | cons g gs ih =>
    refine ⟨hok g List.mem_cons_self, fun k => ?_⟩
    rw [hid g List.mem_cons_self k]
    exact ih (fun g hg => hok g (List.mem_cons_of_mem _ hg))
      fun g hg => hid g (List.mem_cons_of_mem _ hg)

/-- Nothing is asked of the end. -/
theorem wp_true {gs : List γ} {s : σ} (hok : ∀ g ∈ gs, ∀ s, ok s g) :
    wp serve ok gs (fun _ => True) s := by
  induction gs generalizing s with
  | nil => trivial
  | cons g gs ih =>
    exact ⟨hok g List.mem_cons_self s, fun k => ih fun g hg => hok g (List.mem_cons_of_mem _ hg)⟩

end Pending
