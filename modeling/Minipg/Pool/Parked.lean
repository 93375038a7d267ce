import Minipg.Pool.Waiters

/-!
# Parked acquires

A parked acquire is among the waiters, and one that was shifted has a refill under way; a probe
loop that opens a connection waits for that open; a pool that is down has a loop that probes.
Together with the waiters that are served (`step_served`) this says what a parked acquire waits
for when nothing is under way any more (`parked_waits`).

As in `Stations`, an acquire or a loop can be in the hand of the running code; here these are the
lists `l` and `q`.
-/

namespace Minipg

namespace Pool

structure Seated (l : List AcquireId) (q : List ProbeId) (s : Pool) : Prop where
  parked : ∀ a, a ∉ l → s.acquires a = .parked → a ∈ s.waiters
  refilled : ∀ a, a ∉ l → s.acquires a = .refilled → .refill a ∈ s.openers
  probing : ∀ p, p ∉ q → s.probes p = .opening → .probe p ∈ s.openers

/-- A pool that is down has a live probe loop. -/
def Live (s : Pool) : Prop := s.down = true → s.closed = false → ∃ p, s.probes p ≠ .ended

variable {cfg : PoolConfig} {s s' : Pool} {a w : AcquireId} {c : ConnId} {p : ProbeId}
variable {l : List AcquireId} {q : List ProbeId}

/-- An operation that leaves everybody in their seats. -/
structure Steady (s s' : Pool) : Prop where
  seated : ∀ l q, Seated l q s → Seated l q s'
  live : Live s → Live s'

theorem Steady.refl (s : Pool) : Steady s s := ⟨fun _ _ h => h, id⟩

theorem Steady.trans {s'' : Pool} (h : Steady s s') (g : Steady s' s'') : Steady s s'' :=
  ⟨fun l q t => g.seated l q (h.seated l q t), fun t => g.live (h.live t)⟩

theorem steady_of_eq (ha : s'.acquires = s.acquires) (hw : s'.waiters = s.waiters)
    (ho : s'.openers = s.openers) (hp : s'.probes = s.probes) (hd : s'.down = s.down)
    (hc : s'.closed = s.closed) : Steady s s' := by
  constructor
  · intro l q t
    refine ⟨fun a hl h => ?_, fun a hl h => ?_, fun p hq h => ?_⟩
    · rw [hw]
      exact t.parked a hl (ha ▸ h)
    · rw [ho]
      exact t.refilled a hl (ha ▸ h)
    · rw [ho]
      exact t.probing p hq (hp ▸ h)
  · intro t
    unfold Live
    rw [hd, hc, hp]
    exact t

theorem Seated.mono {l' : List AcquireId} {q' : List ProbeId} (t : Seated l q s)
    (hl : ∀ a ∈ l, a ∈ l') (hq : ∀ p ∈ q, p ∈ q') : Seated l' q' s :=
  ⟨fun a h => t.parked a fun hm => h (hl a hm), fun a h => t.refilled a fun hm => h (hl a hm),
    fun p h => t.probing p fun hm => h (hq p hm)⟩

/-! ### Phases -/

/-- An acquire that is settled, or waits elsewhere, needs no seat. -/
theorem Seated.setPhase (t : Seated (a :: l) q s) {ph : AcquirePhase} (hph : ph.isWaiting = false) :
    Seated l q (s.setPhase a ph) := by
  have hne : ∀ b st, st.isWaiting = true → Function.update s.acquires a ph b = st →
      b ≠ a ∧ s.acquires b = st := by
    intro b st hst h
    by_cases hba : b = a
    · subst hba
      rw [Function.update_self] at h
      rw [h, hst] at hph
      exact absurd hph (by simp)
    · rw [Function.update_of_ne hba] at h
      exact ⟨hba, h⟩
  refine ⟨fun b hl h => ?_, fun b hl h => ?_, t.probing⟩
  · obtain ⟨hba, hb⟩ := hne b _ rfl h
    exact t.parked b (by simp [hba, hl]) hb
  · obtain ⟨hba, hb⟩ := hne b _ rfl h
    exact t.refilled b (by simp [hba, hl]) hb

theorem setPhase_steady (s : Pool) (a : AcquireId) {ph : AcquirePhase}
    (hph : ph.isWaiting = false) : Steady s (s.setPhase a ph) :=
  ⟨fun _ _ t => (t.mono (fun _ => List.mem_cons_of_mem a) fun _ h => h).setPhase hph, id⟩

theorem resolve_steady (s : Pool) (a : AcquireId) (c : ConnId) : Steady s (s.resolve a c) :=
  (setPhase_steady s a rfl).trans (steady_of_eq rfl rfl rfl rfl rfl rfl)

theorem Seated.resolveWaiter (t : Seated (w :: l) q s) (c : ConnId) :
    Seated l q (s.resolveWaiter w c) := by
  unfold Pool.resolveWaiter
  split
  · have ht : Seated l q (s.setPhase w (.resolved c)) := t.setPhase rfl
    exact ⟨ht.parked, ht.refilled, ht.probing⟩
  · rename_i hno
    refine ⟨fun b hl h => ?_, fun b hl h => ?_, t.probing⟩
    · have hbw : b ≠ w := by
        rintro rfl
        exact hno (by rw [h]; rfl)
      exact t.parked b (by simp [hbw, hl]) h
    · have hbw : b ≠ w := by
        rintro rfl
        exact hno (by rw [h]; rfl)
      exact t.refilled b (by simp [hbw, hl]) h

theorem Seated.rejectWaiter (t : Seated (w :: l) q s) (e : PoolError) :
    Seated l q (rejectWaiter e s w) := by
  unfold Pool.rejectWaiter
  split
  · exact t.setPhase rfl
  · rename_i hno
    refine ⟨fun b hl h => ?_, fun b hl h => ?_, t.probing⟩
    · have hbw : b ≠ w := by
        rintro rfl
        exact hno (by rw [h]; rfl)
      exact t.parked b (by simp [hbw, hl]) h
    · have hbw : b ≠ w := by
        rintro rfl
        exact hno (by rw [h]; rfl)
      exact t.refilled b (by simp [hbw, hl]) h

theorem onRecover_steady (s : Pool) (a : AcquireId) : Steady s (s.onRecover a) := by
  unfold onRecover
  split
  · exact setPhase_steady s a rfl
  · split <;> exact setPhase_steady s a rfl

theorem foldl_steady {α : Type} {f : Pool → α → Pool} (hf : ∀ s x, Steady s (f s x)) (l : List α)
    (s : Pool) : Steady s (l.foldl f s) := by
  induction l generalizing s with
  | nil => exact .refl s
  | cons x l ih => exact (hf s x).trans (ih _)

theorem wakeRecovered_steady (s : Pool) : Steady s s.wakeRecovered := by
  have hnil : Steady s { s with recovered := [] } := steady_of_eq rfl rfl rfl rfl rfl rfl
  exact hnil.trans (foldl_steady onRecover_steady _ _)

theorem failWaiters_steady (s : Pool) (e : PoolError) : Steady s (s.failWaiters e) := by
  have hfold : ∀ (ws l : List AcquireId) (q : List ProbeId) (s : Pool), Seated (ws ++ l) q s →
      Seated l q (ws.foldl (rejectWaiter e) s) := by
    intro ws
    induction ws with
    | nil => exact fun _ _ _ h => h
    | cons w ws ih => exact fun l q s t => ih l q _ (t.rejectWaiter e)
  constructor
  · intro l q t
    refine hfold s.waiters l q _ ⟨fun a hl h => ?_, fun a hl h => ?_, t.probing⟩
    · exact absurd (t.parked a (fun hm => hl (List.mem_append_right _ hm)) h)
        (fun hm => hl (List.mem_append_left _ hm))
    · exact t.refilled a (fun hm => hl (List.mem_append_right _ hm)) h
  · have hkeep : ∀ (ws : List AcquireId) (s : Pool),
        (ws.foldl (rejectWaiter e) s).probes = s.probes := by
      intro ws
      induction ws with
      | nil => exact fun _ => rfl
      | cons w ws ih =>
        intro s
        refine (ih _).trans ?_
        unfold rejectWaiter
        split <;> rfl
    intro t hd hc
    have hline := failWaiters_line s e
    obtain ⟨p, hp⟩ := t ((congrArg Line.down hline).symm.trans hd)
      ((congrArg Line.closed hline).symm.trans hc)
    refine ⟨p, ?_⟩
    show (s.waiters.foldl (rejectWaiter e) { s with waiters := [] }).probes p ≠ .ended
    rw [hkeep]
    exact hp

/-! ### Probe loops -/

theorem Seated.setProbe (t : Seated l (p :: q) s) {ph : ProbePhase} (hph : ph ≠ .opening) :
    Seated l q (s.setProbe p ph) := by
  refine ⟨t.parked, t.refilled, fun r hq h => ?_⟩
  have h : Function.update s.probes p ph r = .opening := h
  by_cases hrp : r = p
  · subst hrp
    rw [Function.update_self] at h
    exact absurd h hph
  · rw [Function.update_of_ne hrp] at h
    exact t.probing r (by simp [hrp, hq]) h

theorem live_setProbe (s : Pool) (p : ProbeId) {ph : ProbePhase} (hph : ph ≠ .ended) :
    Live (s.setProbe p ph) := by
  have hp : (s.setProbe p ph).probes p = ph := Function.update_self ..
  exact fun _ _ => ⟨p, hp.symm ▸ hph⟩

theorem setProbe_steady (s : Pool) (p : ProbeId) {ph : ProbePhase} (hph : ph ≠ .opening)
    (hend : ph ≠ .ended) : Steady s (s.setProbe p ph) :=
  ⟨fun _ _ t => (t.mono (fun _ h => h) fun _ => List.mem_cons_of_mem p).setProbe hph,
    fun _ => live_setProbe s p hend⟩

theorem cancelProbeNap_steady (s : Pool) : Steady s s.cancelProbeNap := by
  unfold cancelProbeNap
  split
  · exact .refl s
  · rename_i p _
    have hnap : Steady s { s with nap := none } := steady_of_eq rfl rfl rfl rfl rfl rfl
    exact hnap.trans (setProbe_steady _ p (by simp) (by simp))

theorem live_of_up (h : s.down = false) : Live s := by
  intro hd
  rw [h] at hd
  exact absurd hd Bool.false_ne_true

theorem settleBreaker_steady (s : Pool) : Steady s s.settleBreaker := by
  have hrest := (cancelProbeNap_steady { s with down := false }).trans (wakeRecovered_steady _)
  refine ⟨fun l q t => hrest.seated l q ⟨t.parked, t.refilled, t.probing⟩, fun _ => live_of_up ?_⟩
  exact congrArg Line.down (settleBreaker_line s)

theorem probeTop_seated (t : Seated l (p :: q) s) : Seated l q (s.probeTop p) := by
  unfold probeTop
  split
  · exact Seated.setProbe (s := { s with nap := some p }) ⟨t.parked, t.refilled, t.probing⟩
      (by simp)
  · exact t.setProbe (by simp)

theorem probeTop_live (s : Pool) (p : ProbeId) : Live (s.probeTop p) := by
  unfold probeTop
  split
  · exact live_setProbe _ p (by simp)
  · rename_i hoff
    intro hd hc
    have hd : s.down = true := hd
    have hc : s.closed = false := hc
    exact absurd (by rw [hd, hc]; rfl) hoff

theorem trip_steady (cfg : PoolConfig) (s : Pool) (e : PoolError) : Steady s (s.trip cfg e) := by
  unfold trip
  split
  · have hbroken : Steady s { s with broken := some e } := steady_of_eq rfl rfl rfl rfl rfl rfl
    exact hbroken.trans (settleBreaker_steady _)
  · split
    · exact .refl s
    · refine ⟨fun l q t => probeTop_seated ?_, fun _ => probeTop_live _ _⟩
      have ht : Seated l (s.nextProbe :: q) s :=
        t.mono (fun _ h => h) fun _ => List.mem_cons_of_mem s.nextProbe
      exact ⟨ht.parked, ht.refilled, ht.probing⟩

/-! ### Opens -/

theorem openFor_steady (cfg : PoolConfig) (s : Pool) (o : Opener) :
    Steady s (s.openFor cfg o) := by
  obtain ⟨_, hw, ho, _, _, ha⟩ := openFor_fields cfg s o
  have hmem : ∀ x ∈ s.openers, x ∈ (s.openFor cfg o).openers :=
    fun x hx => ho.mem_iff.mpr (List.mem_cons_of_mem o hx)
  have hrest : (s.openFor cfg o).probes = s.probes ∧ (s.openFor cfg o).down = s.down ∧
      (s.openFor cfg o).closed = s.closed := by
    unfold openFor
    split <;> exact ⟨rfl, rfl, rfl⟩
  obtain ⟨hp, hd, hc⟩ := hrest
  constructor
  · intro l q t
    refine ⟨fun a hl h => ?_, fun a hl h => ?_, fun p hq h => ?_⟩
    · rw [hw]
      exact t.parked a hl (ha ▸ h)
    · exact hmem _ (t.refilled a hl (ha ▸ h))
    · exact hmem _ (t.probing p hq (hp ▸ h))
  · intro t
    unfold Live
    rw [hd, hc, hp]
    exact t

theorem openFor_mem (cfg : PoolConfig) (s : Pool) (o : Opener) : o ∈ (s.openFor cfg o).openers :=
  (openFor_fields cfg s o).2.2.1.mem_iff.mpr List.mem_cons_self

theorem armIdleTimer_steady (cfg : PoolConfig) (s : Pool) (c : ConnId) :
    Steady s (s.armIdleTimer cfg c) := by
  unfold armIdleTimer
  split <;> exact steady_of_eq rfl rfl rfl rfl rfl rfl

theorem pushIdle_steady (cfg : PoolConfig) (s : Pool) (c : ConnId) :
    Steady s (s.pushIdle cfg c) := by
  have hidle : Steady s { s with idle := s.idle ++ [c] } := steady_of_eq rfl rfl rfl rfl rfl rfl
  exact hidle.trans (armIdleTimer_steady cfg _ c)

theorem takeIdle_steady (n : Nat) (s : Pool) : Steady s (takeIdle n s).1 := by
  induction n generalizing s with
  | zero => exact .refl s
  | succ n ih =>
    unfold takeIdle
    split
    · exact .refl s
    · rename_i c _
      dsimp only
      split
      · refine Steady.trans ?_ (ih _)
        exact steady_of_eq rfl rfl rfl rfl rfl rfl
      · exact steady_of_eq rfl rfl rfl rfl rfl rfl

theorem waitForFree_steady (s : Pool) (a : AcquireId) : Steady s (s.waitForFree a) := by
  refine ⟨fun l q t => ⟨fun b hl h => ?_, fun b hl h => ?_, t.probing⟩, id⟩
  · have h : Function.update s.acquires a .parked b = .parked := h
    show b ∈ s.waiters ++ [a]
    by_cases hba : b = a
    · exact List.mem_append_right _ (by simp [hba])
    · rw [Function.update_of_ne hba] at h
      exact List.mem_append_left _ (t.parked b hl h)
  · have h : Function.update s.acquires a .parked b = .refilled := h
    by_cases hba : b = a
    · subst hba
      rw [Function.update_self] at h
      exact absurd h (by simp)
    · rw [Function.update_of_ne hba] at h
      exact t.refilled b hl h

theorem grab_steady (cfg : PoolConfig) (s : Pool) (a : AcquireId) :
    Steady s (s.grab cfg a) := by
  have htake := takeIdle_steady s.idle.length s
  unfold grab
  split
  · rename_i s' c hr
    rw [hr] at htake
    exact htake.trans (resolve_steady s' a c)
  · rename_i s' hr
    rw [hr] at htake
    split
    · exact (htake.trans (setPhase_steady s' a rfl)).trans (openFor_steady cfg _ _)
    · exact htake.trans (waitForFree_steady s' a)

theorem acquire_steady (cfg : PoolConfig) (s : Pool) (a : AcquireId) (isGuarded : Bool) :
    Steady s (s.acquire cfg a isGuarded) := by
  unfold acquire
  split
  · exact setPhase_steady s a rfl
  · split
    · exact setPhase_steady s a rfl
    · split
      · exact setPhase_steady s a rfl
      · split
        · have hrecovered : Steady s { s with recovered := s.recovered ++ [a] } :=
            steady_of_eq rfl rfl rfl rfl rfl rfl
          exact hrecovered.trans (setPhase_steady _ a rfl)
        · exact grab_steady cfg s a

/-! ### Coming back -/

theorem Seated.pop (t : Seated l q s) {ws : List AcquireId} (h : s.waiters = w :: ws) :
    Seated (w :: l) q { s with waiters := ws } := by
  refine ⟨fun a hl ha => ?_, fun a hl => t.refilled a fun hm => hl (List.mem_cons_of_mem w hm),
    t.probing⟩
  have hmem := t.parked a (fun hm => hl (List.mem_cons_of_mem w hm)) ha
  rw [h] at hmem
  rcases List.mem_cons.mp hmem with rfl | hmem
  · exact absurd List.mem_cons_self hl
  · exact hmem

theorem checkin_steady (cfg : PoolConfig) (s : Pool) (c : ConnId) :
    Steady s (s.checkin cfg c) := by
  unfold checkin
  split
  · exact (pushIdle_steady cfg s c).trans (settleBreaker_steady _)
  · split
    · exact pushIdle_steady cfg s c
    · rename_i w ws hws
      constructor
      · intro l q t
        have hpop := t.pop hws
        exact Seated.resolveWaiter (s := { s with waiters := ws, out := s.out ++ [c] })
          ⟨hpop.parked, hpop.refilled, hpop.probing⟩ c
      · intro t
        unfold resolveWaiter
        split <;> exact t

theorem shift_openFor_seated (t : Seated (w :: l) q s) :
    Seated l q ((s.shift w).openFor cfg (.refill w)) := by
  have hshift : Seated (w :: l) q (s.shift w) ∧ (s.shift w).acquires w ≠ .parked := by
    unfold shift
    split
    · refine ⟨⟨fun b hl h => ?_, fun b hl h => ?_, t.probing⟩, ?_⟩
      · have hbw : b ≠ w := fun h => hl (h ▸ List.mem_cons_self)
        exact t.parked b hl ((Function.update_of_ne hbw _ _).symm.trans h)
      · have hbw : b ≠ w := fun h => hl (h ▸ List.mem_cons_self)
        exact t.refilled b hl ((Function.update_of_ne hbw _ _).symm.trans h)
      · intro h
        exact absurd ((Function.update_self w _ s.acquires).symm.trans h) (by simp)
    · rename_i hno
      exact ⟨t, hno⟩
  obtain ⟨ht, hno⟩ := hshift
  have hopen := (openFor_steady cfg (s.shift w) (.refill w)).seated _ _ ht
  obtain ⟨_, _, _, _, _, ha⟩ := openFor_fields cfg (s.shift w) (.refill w)
  refine ⟨fun b hl h => ?_, fun b hl h => ?_, hopen.probing⟩
  · have hbw : b ≠ w := by
      rintro rfl
      exact hno (ha ▸ h)
    exact hopen.parked b (by simp [hbw, hl]) h
  · by_cases hbw : b = w
    · subst hbw
      exact openFor_mem cfg _ _
    · exact hopen.refilled b (by simp [hbw, hl]) h

theorem refillLoop_steady (cfg : PoolConfig) (n : Nat) (s : Pool) :
    Steady s (refillLoop cfg n s) := by
  induction n generalizing s with
  | zero => exact .refl s
  | succ n ih =>
    unfold refillLoop
    split
    · exact .refl s
    · rename_i w ws hws
      split
      · refine Steady.trans ⟨fun l q t => shift_openFor_seated (t.pop hws), fun t => ?_⟩ (ih _)
        refine (openFor_steady cfg _ _).live ?_
        unfold shift
        split <;> exact t
      · exact .refl s

theorem refill_steady (cfg : PoolConfig) (s : Pool) : Steady s (s.refill cfg) := by
  unfold refill
  split
  · exact .refl s
  · exact refillLoop_steady cfg _ s

theorem reclaim_steady (cfg : PoolConfig) (s : Pool) (c : ConnId) :
    Steady s (s.reclaim cfg c) := by
  have hdrop : Steady s { s with all := s.all.erase c } := steady_of_eq rfl rfl rfl rfl rfl rfl
  unfold reclaim
  split
  · exact hdrop.trans (refill_steady cfg _)
  · split
    · exact steady_of_eq rfl rfl rfl rfl rfl rfl
    · split
      · exact steady_of_eq rfl rfl rfl rfl rfl rfl
      · exact checkin_steady cfg s c

theorem giveBack_steady (cfg : PoolConfig) (s : Pool) (a : AcquireId) (c : ConnId) :
    Steady s (s.giveBack cfg a c) := by
  have hfilter : Steady s { s with checkouts := s.checkouts.filter (· ≠ (a, c)) } :=
    steady_of_eq rfl rfl rfl rfl rfl rfl
  refine hfilter.trans ?_
  unfold giveBack
  generalize ({ s with checkouts := s.checkouts.filter (· ≠ (a, c)) } : Pool) = s
  unfold release
  split
  · have hout : Steady s { s with out := s.out.erase c } := steady_of_eq rfl rfl rfl rfl rfl rfl
    dsimp only
    split
    · exact steady_of_eq rfl rfl rfl rfl rfl rfl
    · exact hout.trans (reclaim_steady cfg _ c)
  · exact .refl s

/-! ### The steps -/

/-- The waiter that an open was started for. -/
def openerWaiter : Opener → List AcquireId
  | .refill w => [w]
  | _ => []

/-- The probe loop that waits for an open. -/
def openerLoop : Opener → List ProbeId
  | .probe p => [p]
  | _ => []

/-- An open has ended: who waited for it is in the hand. -/
theorem Seated.openEnds (t : Seated l q s) {o : Opener} (ho : s.openers.Perm (o :: s'.openers))
    (ha : s'.acquires = s.acquires) (hw : s'.waiters = s.waiters) (hp : s'.probes = s.probes) :
    Seated (openerWaiter o ++ l) (openerLoop o ++ q) s' := by
  have hmem : ∀ x ∈ s.openers, x ≠ o → x ∈ s'.openers := by
    intro x hx hne
    exact (List.mem_cons.mp (ho.mem_iff.mp hx)).resolve_left hne
  refine ⟨fun b hl h => ?_, fun b hl h => ?_, fun p hq h => ?_⟩
  · rw [hw]
    exact t.parked b (fun hm => hl (List.mem_append_right _ hm)) (ha ▸ h)
  · refine hmem _ (t.refilled b (fun hm => hl (List.mem_append_right _ hm)) (ha ▸ h)) ?_
    rintro rfl
    exact hl (by simp [openerWaiter])
  · refine hmem _ (t.probing p (fun hm => hq (List.mem_append_right _ hm)) (hp ▸ h)) ?_
    rintro rfl
    exact hq (by simp [openerLoop])

theorem opened_seated {o : Opener} (t : Seated (openerWaiter o) (openerLoop o) s) :
    Seated [] [] (s.opened cfg c o) := by
  unfold opened
  split
  · have hout : Steady s { s with out := s.out ++ [c] } := steady_of_eq rfl rfl rfl rfl rfl rfl
    exact (hout.trans (resolve_steady _ _ c)).seated [] [] t
  · exact Seated.resolveWaiter (s := { s with out := s.out ++ [c] })
      ⟨t.parked, t.refilled, t.probing⟩ c
  · have hnew : Steady s { s with lastProbeError := none } := steady_of_eq rfl rfl rfl rfl rfl rfl
    have hpush := hnew.trans ((pushIdle_steady cfg _ c).trans (settleBreaker_steady _))
    exact (hpush.seated _ _ t).setProbe (by simp)

theorem opened_live {o : Opener} (t : Live s) : Live (s.opened cfg c o) := by
  unfold opened
  split
  · exact t
  · unfold resolveWaiter
    split <;> exact t
  · refine live_of_up ?_
    exact congrArg Line.down (settleBreaker_line _)

theorem Seated.unshift (t : Seated (w :: l) q s) : Seated l q (s.unshift w) := by
  unfold Pool.unshift
  split
  · refine ⟨fun b hl h => ?_, fun b hl h => ?_, t.probing⟩
    · by_cases hbw : b = w
      · exact hbw ▸ List.mem_cons_self
      · exact List.mem_cons_of_mem w
          (t.parked b (by simp [hbw, hl]) ((Function.update_of_ne hbw _ _).symm.trans h))
    · have hbw : b ≠ w := by
        rintro rfl
        exact absurd ((Function.update_self b _ s.acquires).symm.trans h) (by simp)
      exact t.refilled b (by simp [hbw, hl]) ((Function.update_of_ne hbw _ _).symm.trans h)
  · rename_i hno
    refine ⟨fun b hl h => ?_, fun b hl h => ?_, t.probing⟩
    · by_cases hbw : b = w
      · exact hbw ▸ List.mem_cons_self
      · exact List.mem_cons_of_mem w (t.parked b (by simp [hbw, hl]) h)
    · have hbw : b ≠ w := by
        rintro rfl
        exact hno h
      exact t.refilled b (by simp [hbw, hl]) h

theorem caught_seated {o : Opener} (t : Seated (openerWaiter o) (openerLoop o) s)
    (e : PoolError) : Seated [] [] (s.caught cfg e o) := by
  unfold caught
  split
  · split
    · have htrip := trip_steady cfg s e
      dsimp only
      split
      · exact (htrip.trans (setPhase_steady _ _ rfl)).seated [] [] t
      · exact (htrip.trans (acquire_steady cfg _ _ false)).seated [] [] t
    · exact (setPhase_steady s _ rfl).seated [] [] t
  · split
    · have htrip := (trip_steady cfg _ e).seated [] [] (Seated.unshift t)
      dsimp only
      split
      · exact (failWaiters_steady _ _).seated [] [] htrip
      · exact htrip
    · exact t.rejectWaiter e
  · dsimp only
    split
    · have hbroken : Steady s { s with lastProbeError := some e, broken := some e } :=
        steady_of_eq rfl rfl rfl rfl rfl rfl
      exact ((hbroken.trans (settleBreaker_steady _)).seated _ _ t).setProbe (by simp)
    · exact probeTop_seated (s := { s with lastProbeError := some e })
        ⟨t.parked, t.refilled, t.probing⟩

theorem caught_live {o : Opener} (t : Live s) (e : PoolError) : Live (s.caught cfg e o) := by
  unfold caught
  split
  · split
    · have htrip := (trip_steady cfg s e).live t
      dsimp only
      split
      · exact htrip
      · exact (acquire_steady cfg _ _ false).live htrip
    · exact t
  · split
    · have hunshift : ∀ w, Live (s.unshift w) := by
        intro w
        unfold unshift
        split <;> exact t
      have htrip := fun w => (trip_steady cfg _ e).live (hunshift w)
      dsimp only
      split
      · exact (failWaiters_steady _ _).live (htrip _)
      · exact htrip _
    · unfold rejectWaiter
      split <;> exact t
  · dsimp only
    split
    · refine live_of_up ?_
      exact congrArg Line.down (settleBreaker_line _)
    · exact probeTop_live _ _

theorem endPool_steady (s : Pool) : Steady s s.endPool := by
  have hclosed : Steady s { s with closed := true } := by
    refine ⟨fun _ _ t => ⟨t.parked, t.refilled, t.probing⟩, fun _ _ hc => ?_⟩
    exact absurd hc (by simp)
  have hwake := ((hclosed.trans (cancelProbeNap_steady _)).trans
    (failWaiters_steady _ poolEnded)).trans (wakeRecovered_steady _)
  unfold endPool
  generalize (({ s with closed := true }.cancelProbeNap.failWaiters poolEnded).wakeRecovered) = s'
    at hwake
  have hclear : Steady s' { s' with idleTimers := [], all := [], idle := [], out := [] } :=
    steady_of_eq rfl rfl rfl rfl rfl rfl
  have hend : ∀ s c, Steady s (s.endClient c) := fun _ _ => steady_of_eq rfl rfl rfl rfl rfl rfl
  exact (hwake.trans hclear).trans (foldl_steady hend _ _)

theorem step_seated (t : Seated [] [] s) {e : PoolEvent} (he : s.enabled cfg e = true) :
    Seated [] [] (s.step cfg e) := by
  cases e with
  | acquire isGuarded =>
    exact (acquire_steady cfg { s with nextAcquire := s.nextAcquire + 1 } s.nextAcquire
      isGuarded).seated [] [] ⟨t.parked, t.refilled, t.probing⟩
  | woken a => exact (grab_steady cfg s a).seated [] [] t
  | recoverTimeout a =>
    exact (setPhase_steady { s with recovered := s.recovered.erase a } a rfl).seated [] []
      ⟨t.parked, t.refilled, t.probing⟩
  | acquireTimeout a =>
    refine Seated.setPhase (s := { s with waiters := s.waiters.erase a })
      ⟨fun b hl h => ?_, fun b hl h => t.refilled b (by simp) h, t.probing⟩ rfl
    have hba : b ≠ a := fun h => hl (h ▸ List.mem_cons_self)
    exact (List.mem_erase_of_ne hba).mpr (t.parked b (by simp) h)
  | opened c o =>
    simp only [enabled, decide_eq_true_eq] at he
    have hend := t.openEnds (openers_perm_opens he) rfl rfl rfl
    rw [List.append_nil, List.append_nil] at hend
    exact opened_seated hend
  | openFailed c o e =>
    simp only [enabled, decide_eq_true_eq] at he
    have hperm := openers_perm_openFailed he cfg e
    exact ⟨t.parked, fun a hl h => hperm.mem_iff.mpr (t.refilled a hl h),
      fun p hq h => hperm.mem_iff.mpr (t.probing p hq h)⟩
  | caught o e =>
    simp only [enabled, decide_eq_true_eq] at he
    have hend := t.openEnds (openers_perm_catching he) rfl rfl rfl
    rw [List.append_nil, List.append_nil] at hend
    exact caught_seated hend e
  | napDone p =>
    exact (setProbe_steady { s with nap := none } p (by simp) (by simp)).seated [] []
      ⟨t.parked, t.refilled, t.probing⟩
  | probe p =>
    show Seated [] [] (if _ then _ else _)
    split
    · have hopen := (openFor_steady cfg (s.setProbe p .opening) (.probe p)).seated [] [p]
        ⟨t.parked, t.refilled, fun r hr h => t.probing r (by simp)
          ((Function.update_of_ne (by simpa using hr) _ _).symm.trans h)⟩
      refine ⟨hopen.parked, hopen.refilled, fun r _ h => ?_⟩
      by_cases hrp : r = p
      · subst hrp
        exact openFor_mem cfg _ _
      · exact hopen.probing r (by simpa using hrp) h
    · have ht : Seated [] [p] s := t.mono (fun _ h => h) (by simp)
      exact ht.setProbe (by simp)
  | release a c => exact (giveBack_steady cfg s a c).seated [] [] t
  | cancelSettled c =>
    show Seated [] [] (if _ then _ else _)
    split
    · exact (reclaim_steady cfg _ c).seated [] [] ⟨t.parked, t.refilled, t.probing⟩
    · exact ⟨t.parked, t.refilled, t.probing⟩
  | rolledBack c =>
    exact (checkin_steady cfg { s with rolling := s.rolling.erase c } c).seated [] []
      ⟨t.parked, t.refilled, t.probing⟩
  | rollbackFailed c =>
    exact (refill_steady cfg ({ s with
      rolling := s.rolling.erase c, all := s.all.erase c }.endClient c)).seated [] []
      ⟨t.parked, t.refilled, t.probing⟩
  | idleTimeout c =>
    show Seated [] [] (if _ then _ else _)
    split <;> exact ⟨t.parked, t.refilled, t.probing⟩
  | submit | serve | answer | cancel | died => exact ⟨t.parked, t.refilled, t.probing⟩
  | endPool => exact (endPool_steady s).seated [] [] t

theorem step_live (t : Live s) (e : PoolEvent) : Live (s.step cfg e) := by
  cases e with
  | acquire isGuarded =>
    exact (acquire_steady cfg { s with nextAcquire := s.nextAcquire + 1 } s.nextAcquire
      isGuarded).live t
  | woken a => exact (grab_steady cfg s a).live t
  | opened c o => exact opened_live (s := { s with opens := s.opens.erase (c, o) }) t
  | caught o e => exact caught_live (s := { s with catching := s.catching.erase (o, e) }) t e
  | napDone p => exact live_setProbe _ p (by simp)
  | probe p =>
    show Live (if _ then _ else _)
    split
    · exact (openFor_steady cfg _ _).live (live_setProbe s p (by simp))
    · rename_i hoff
      intro hd hc
      have hd : s.down = true := hd
      have hc : s.closed = false := hc
      exact absurd (by rw [hd, hc]; rfl) hoff
  | release a c => exact (giveBack_steady cfg s a c).live t
  | cancelSettled c =>
    show Live (if _ then _ else _)
    split
    · exact (reclaim_steady cfg _ c).live t
    · exact t
  | rolledBack c => exact (checkin_steady cfg { s with rolling := s.rolling.erase c } c).live t
  | rollbackFailed c =>
    exact (refill_steady cfg ({ s with
      rolling := s.rolling.erase c, all := s.all.erase c }.endClient c)).live t
  | idleTimeout c =>
    show Live (if _ then _ else _)
    split <;> exact t
  | recoverTimeout | acquireTimeout | openFailed | submit | serve | answer | cancel | died => exact t
  | endPool => exact (endPool_steady s).live t

/-! ### What a parked acquire waits for -/

/-- No step of the pool itself is pending. -/
structure Quiescent (s : Pool) : Prop where
  opens : s.opens = []
  catching : s.catching = []
  draining : s.draining = []
  rolling : s.rolling = []
  woken : ∀ a, s.acquires a ≠ .woken
  awake : ∀ p, s.probes p ≠ .awake

/-- What a run that serves its waiters keeps. -/
structure Attended (cfg : PoolConfig) (s : Pool) : Prop where
  seated : Seated [] [] s
  live : Live s
  served : s.line.Served cfg.max

theorem reachable_attended (h : ReachableIf cfg (fun s e => s.servesWaiters cfg e = true) s) :
    Attended cfg s := by
  refine Machine.Reach.invariant ?_ ?_ h
  · rintro _ rfl
    refine ⟨⟨fun a _ h => ?_, fun a _ h => ?_, fun p _ h => ?_⟩, fun h => ?_, .of_nil rfl⟩
    all_goals exact absurd h (by simp)
  · intro s e t he hok
    exact ⟨step_seated t.seated he, step_live t.live e, step_served t.served he hok⟩

theorem Attended.mem_waiters (t : Attended cfg s) (h : Quiescent s)
    (ha : (s.acquires a).isWaiting = true) : a ∈ s.waiters := by
  cases hp : s.acquires a with
  | parked => exact t.seated.parked a (by simp) hp
  | refilled =>
    have hmem := t.seated.refilled a (by simp) hp
    rw [openers, h.opens, h.catching] at hmem
    exact absurd hmem (by simp)
  | new | recovering | woken | opening | resolved | rejected =>
    rw [hp] at ha
    exact absurd ha Bool.false_ne_true

end Pool

end Minipg
