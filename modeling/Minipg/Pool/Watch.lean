import Minipg.Pool.State

/-!
# The breaker and its loops

What the circuit breaker of a pool and the loops that probe are by themselves (`Watch`), what can
happen to them (`Move`, `start`), and that one loop stays one loop as long as the next one starts
after its end.
-/

namespace Minipg

/-- The breaker, its loops and how many calls of `open()` each loop has under way. -/
@[ext] structure Watch where
  probes : ProbeId → ProbePhase
  nextProbe : ProbeId
  nap : Option ProbeId
  down : Bool
  closed : Bool
  flights : ProbeId → Nat

namespace Watch

def set (w : Watch) (p : ProbeId) (ph : ProbePhase) : Watch :=
  { w with probes := Function.update w.probes p ph }

def wake (w : Watch) : Watch :=
  match w.nap with
  | none => w
  | some p => { w with nap := none }.set p .awake

def settle (w : Watch) : Watch := { w with down := false }.wake

def top (w : Watch) (p : ProbeId) : Watch :=
  if w.down && !w.closed then { w with nap := some p }.set p .napping else w.set p .ended

def start (w : Watch) : Watch :=
  { w with down := true, nextProbe := w.nextProbe + 1 }.top w.nextProbe

def takeOff (w : Watch) (p : ProbeId) : Watch :=
  { w with flights := Function.update w.flights p (w.flights p + 1) }

def land (w : Watch) (p : ProbeId) : Watch :=
  { w with flights := Function.update w.flights p (w.flights p - 1) }

/-- What a step that starts no loop can do. -/
inductive Move (w : Watch) : Watch → Prop
  | stay : Move w w
  | settle : Move w w.settle
  | nap (p : ProbeId) : w.probes p = .napping → Move w ({ w with nap := none }.set p .awake)
  | fly (p : ProbeId) : w.probes p = .awake → w.down = true → w.closed = false →
      Move w ((w.set p .opening).takeOff p)
  | leave (p : ProbeId) : w.probes p = .awake → ¬(w.down = true ∧ w.closed = false) →
      Move w (w.set p .ended)
  | landed (p : ProbeId) : 0 < w.flights p → Move w ((w.land p).settle.set p .ended)
  | failed (p : ProbeId) : 0 < w.flights p → Move w ((w.land p).top p)
  | close : Move w { w with closed := true }.wake

/-! ### One loop -/

/-- `p` is the only loop that may be live, and it is in the phase `ph`. -/
structure Lone (w : Watch) (p : ProbeId) (ph : ProbePhase) : Prop where
  probes : ∀ q, w.probes q = if q = p then ph else .ended
  known : ph ≠ .ended → p < w.nextProbe
  nap : w.nap = if ph = .napping then some p else none
  napping : ph = .napping → w.down = true ∧ w.closed = false
  flights : ∀ q, w.flights q = if q = p ∧ ph = .opening then 1 else 0
  live : w.down = true → w.closed = false → ph ≠ .ended

variable {w w' : Watch} {p q : ProbeId} {ph : ProbePhase}

theorem Lone.eq (h : w.Lone p ph) (hq : w.probes q ≠ .ended) : q = p := by
  by_contra hne
  exact hq ((h.probes q).trans (if_neg hne))

theorem Lone.phase (h : w.Lone p ph) : w.probes p = ph := (h.probes p).trans (if_pos rfl)

theorem Lone.set_probes (h : w.Lone p ph) (ph' : ProbePhase) (q : ProbeId) :
    (w.set p ph').probes q = if q = p then ph' else .ended := by
  show Function.update w.probes p ph' q = _
  by_cases hqp : q = p
  · rw [hqp, Function.update_self, if_pos rfl]
  · rw [Function.update_of_ne hqp, h.probes, if_neg hqp, if_neg hqp]

/-- The flag changes, and a nap is cancelled. -/
theorem Lone.stir (h : w.Lone p ph) {d c : Bool} (hlive : ¬(d = true ∧ c = false)) :
    ∃ ph', ({ w with down := d, closed := c }.wake).Lone p ph' := by
  unfold Watch.wake
  show ∃ ph', (match w.nap with | none => _ | some p => _ : Watch).Lone p ph'
  rw [h.nap]
  by_cases hph : ph = .napping
  · subst hph
    rw [if_pos rfl]
    exact ⟨.awake, {
      probes := h.set_probes .awake
      known := fun _ => h.known (by simp)
      nap := rfl
      napping := by simp
      flights := fun q => (h.flights q).trans (by simp)
      live := by simp }⟩
  · rw [if_neg hph]
    exact ⟨ph, {
      probes := h.probes
      known := h.known
      nap := (if_neg hph).symm
      napping := fun hn => absurd hn hph
      flights := h.flights
      live := fun hd hc => absurd ⟨hd, hc⟩ hlive }⟩

theorem Lone.nap_none (h : w.Lone p ph) (hph : ph ≠ .napping) : w.nap = none :=
  h.nap.trans (if_neg hph)

theorem Lone.flights_opening (h : w.Lone p ph) (hq : 0 < w.flights q) : q = p ∧ ph = .opening := by
  by_contra hne
  rw [h.flights q, if_neg hne] at hq
  exact absurd hq (by simp)

theorem Lone.land (h : w.Lone p .opening) (q : ProbeId) : (w.land p).flights q = 0 := by
  show Function.update w.flights p (w.flights p - 1) q = 0
  by_cases hqp : q = p
  · rw [hqp, Function.update_self, h.flights, if_pos ⟨rfl, rfl⟩]
  · rw [Function.update_of_ne hqp, h.flights, if_neg fun hq => hqp hq.1]

theorem Lone.end (h : w.Lone p .awake) (hoff : ¬(w.down = true ∧ w.closed = false)) :
    (w.set p .ended).Lone p .ended where
  probes := h.set_probes .ended
  known h := absurd rfl h
  nap := h.nap
  napping := by simp
  flights q := (h.flights q).trans (by simp)
  live hd hc := absurd ⟨hd, hc⟩ hoff

/-- **One loop stays one loop.** -/
theorem Lone.moves (h : w.Lone p ph) (hmove : w.Move w') : ∃ ph', w'.Lone p ph' := by
  cases hmove with
  | stay => exact ⟨ph, h⟩
  | settle => exact h.stir (by simp)
  | close => exact h.stir (by simp)
  | nap q hq =>
    obtain rfl := h.eq (by rw [hq]; simp)
    obtain rfl := h.phase.symm.trans hq
    exact ⟨.awake, {
      probes := h.set_probes .awake
      known := fun _ => h.known (by simp)
      nap := rfl
      napping := by simp
      flights := fun q => (h.flights q).trans (by simp)
      live := by simp }⟩
  | fly q hq hd hc =>
    obtain rfl := h.eq (by rw [hq]; simp)
    obtain rfl := h.phase.symm.trans hq
    exact ⟨.opening, {
      probes := h.set_probes .opening
      known := fun _ => h.known (by simp)
      nap := h.nap
      napping := by simp
      flights := fun r => by
        show Function.update w.flights q (w.flights q + 1) r = _
        by_cases hrq : r = q
        · rw [hrq, Function.update_self, h.flights]
          simp
        · rw [Function.update_of_ne hrq, h.flights]
          simp [hrq]
      live := by simp }⟩
  | leave q hq hoff =>
    obtain rfl := h.eq (by rw [hq]; simp)
    obtain rfl := h.phase.symm.trans hq
    exact ⟨.ended, h.end hoff⟩
  | landed q hq =>
    obtain ⟨rfl, rfl⟩ := h.flights_opening hq
    have hnap : w.nap = none := h.nap_none (by simp)
    have hsettle : (w.land q).settle = { w.land q with down := false } := by
      unfold Watch.settle Watch.wake
      show (match w.nap with | none => _ | some p => _ : Watch) = _
      rw [hnap]
    rw [hsettle]
    exact ⟨.ended, {
      probes := h.set_probes .ended
      known := by simp
      nap := hnap
      napping := by simp
      flights := fun r => (h.land r).trans (by simp)
      live := by simp [Watch.set] }⟩
  | failed q hq =>
    obtain ⟨rfl, rfl⟩ := h.flights_opening hq
    unfold Watch.top
    show ∃ ph', (if w.down && !w.closed then _ else _ : Watch).Lone q ph'
    split
    · next hon =>
      simp only [Bool.and_eq_true, Bool.not_eq_true'] at hon
      exact ⟨.napping, {
        probes := h.set_probes .napping
        known := fun _ => h.known (by simp)
        nap := rfl
        napping := fun _ => hon
        flights := fun r => (h.land r).trans (by simp)
        live := by simp }⟩
    · next hoff =>
      simp only [Bool.and_eq_true, Bool.not_eq_true'] at hoff
      exact ⟨.ended, {
        probes := h.set_probes .ended
        known := by simp
        nap := h.nap_none (by simp)
        napping := by simp
        flights := fun r => (h.land r).trans (by simp)
        live := fun hd hc => absurd ⟨hd, hc⟩ hoff }⟩

/-- A loop starts after the last one has ended. -/
theorem Lone.start (h : w.Lone p .ended) (hc : w.closed = false) :
    w.start.Lone w.nextProbe .napping := by
  have hended : ∀ q, w.probes q = .ended := fun q => (h.probes q).trans (by simp)
  have hstart : w.start = { w with
      down := true, nextProbe := w.nextProbe + 1, nap := some w.nextProbe }.set w.nextProbe
        .napping := by
    unfold Watch.start Watch.top
    simp only [hc]
    rfl
  rw [hstart]
  exact {
    probes := fun q => by
      show Function.update w.probes w.nextProbe .napping q = _
      by_cases hq : q = w.nextProbe
      · rw [hq, Function.update_self, if_pos rfl]
      · rw [Function.update_of_ne hq, hended, if_neg hq]
    known := fun _ => Nat.lt_succ_self _
    nap := rfl
    napping := fun _ => ⟨rfl, hc⟩
    flights := fun q => (h.flights q).trans (by simp)
    live := by simp }

end Watch

end Minipg
