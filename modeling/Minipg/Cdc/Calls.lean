import Minipg.Cdc.Changes

/-!
# The calls of the consumer's callbacks

Every call has a number of its own.  `current` is the call that `run` awaits, as long as it has not
settled (`Tracked`).
-/

namespace Minipg

namespace Cdc

variable {o : ReplicateOptions} {s s' : Cdc} {e : CdcEvent}

structure Tracked (s : Cdc) : Prop where
  fresh : ∀ i, s.nextCall ≤ i → s.results i = none
  issued : ∀ k i, s.runAt = .pending k i → i < s.nextCall
  current : ∀ i, s.current = some i → ∃ k, s.runAt = .pending k i ∧ s.results i = none

namespace Tracked

theorem init : Tracked {} where
  fresh := fun _ _ => rfl
  issued := fun _ _ h => nomatch h
  current := fun _ h => nomatch h

/-- `run` moves on from a call only when it has settled. -/
theorem moves (h : Tracked s) (hc : s'.current = s.current) (hres : s'.results = s.results)
    (hn : s'.nextCall = s.nextCall)
    (hset : ∀ k i, s.runAt = .pending k i → (s.results i).isSome = true)
    (hi : ∀ k i, s'.runAt ≠ .pending k i) : Tracked s' where
  fresh := by
    rw [hn, hres]
    exact h.fresh
  issued := fun k i hp => absurd hp (hi k i)
  current := by
    intro i hcur
    rw [hc] at hcur
    obtain ⟨k, hp, hnone⟩ := h.current i hcur
    have hsome := hset k i hp
    rw [hnone] at hsome
    exact nomatch hsome

theorem control (h : Tracked s) (hc : Control s s')
    (hset : ∀ k i, s.runAt = .pending k i → (s.results i).isSome = true)
    (hi : ∀ k i, s'.runAt ≠ .pending k i) : Tracked s' :=
  h.moves hc.current hc.results hc.nextCall hset hi

/-- Some steps leave `run` where it is. -/
theorem same (h : Tracked s) (hr : s'.runAt = s.runAt) (hc : s'.current = s.current)
    (hres : s'.results = s.results) (hn : s'.nextCall = s.nextCall) : Tracked s' where
  fresh := by
    rw [hn, hres]
    exact h.fresh
  issued := by
    rw [hr, hn]
    exact h.issued
  current := by
    rw [hc, hr, hres]
    exact h.current

theorem call (h : Tracked s) (k : Callback) :
    Tracked { s with
      current := some s.nextCall, nextCall := s.nextCall + 1, runAt := .pending k s.nextCall } where
  fresh := fun i hi => h.fresh i (Nat.le_of_succ_le hi)
  issued := by
    intro k' i hp
    cases hp
    exact Nat.lt_succ_self _
  current := by
    intro i hi
    cases hi
    exact ⟨k, rfl, h.fresh _ (Nat.le_refl _)⟩

@[simp]
theorem achieve_runAt (s : Cdc) (k : Callback) : (s.achieve k).runAt = s.runAt := by
  cases k <;> rfl

@[simp]
theorem achieve_current (s : Cdc) (k : Callback) : (s.achieve k).current = s.current := by
  cases k <;> rfl

@[simp]
theorem achieve_results (s : Cdc) (k : Callback) : (s.achieve k).results = s.results := by
  cases k <;> rfl

@[simp]
theorem achieve_nextCall (s : Cdc) (k : Callback) : (s.achieve k).nextCall = s.nextCall := by
  cases k <;> rfl

theorem settle (h : Tracked s) {k : Callback} {i : CallId} (r : Settled)
    (hr : s.runAt = .pending k i) : Tracked (s.settleCall k i r) := by
  have hset : Tracked { s with
      results := Function.update s.results i (some r), current := none } := by
    refine ⟨fun j hj => ?_, h.issued, fun _ hc => nomatch hc⟩
    have hne : j ≠ i := Nat.ne_of_gt (Nat.lt_of_lt_of_le (h.issued k i hr) hj)
    exact (Function.update_of_ne hne _ _).trans (h.fresh j hj)
  unfold settleCall
  split
  · exact hset.same (by simp) (by simp) (by simp) (by simp)
  · exact hset

theorem stop (h : Tracked s) : Tracked s.callStop := by
  refine h.same ?_ ?_ ?_ ?_ <;>
    (unfold callStop doStop; split <;> dsimp only <;> split <;> rfl)

theorem settled_of_resolved {k : Callback} {i : CallId} (hr : s.runAt = .pending k i)
    (hres : (s.results i).any Settled.isResolved = true) :
    ∀ k' j, s.runAt = .pending k' j → (s.results j).isSome = true := by
  intro k' j hp
  cases hr.symm.trans hp
  exact Option.isSome_of_any hres

theorem change (h : Tracked s) (hch : Change o s e s') : Tracked s' := by
  cases hch with
  | plain v r away gone plain =>
    have hbase : Tracked { s with slot := v, repl := r } := h.same rfl rfl rfl rfl
    exact hbase.control plain.control away.settled plain.idle
  | rests control same => exact h.same same control.current control.results control.nextCall
  | foreign v other => exact h.same rfl rfl rfl rfl
  | called k place => exact h.call k
  | settled k i r place fresh => exact h.settle r place
  | window n place retry => exact h.control retry.control retry.settled retry.idle
  | handler b place rejected retry => exact h.control retry.control retry.settled retry.idle
  | read n i place resolved =>
    exact h.moves rfl rfl rfl (settled_of_resolved place resolved) fun _ _ hp => nomatch hp
  | handled b i place resolved =>
    obtain ⟨hc, hres, hn⟩ : s.handlerDone.current = s.current ∧
        s.handlerDone.results = s.results ∧ s.handlerDone.nextCall = s.nextCall := by
      unfold handlerDone
      rw [ackPending_eq]
      split <;> exact ⟨rfl, rfl, rfl⟩
    exact h.moves hc hres hn (settled_of_resolved place resolved) fun _ _ hp => nomatch hp
  | escapes x place idle survives plain =>
    exact h.control plain.control (fun k i hp => absurd hp (idle k i)) plain.idle
  | created place =>
    obtain ⟨hc, hnext⟩ := created_cases o s
    refine h.moves hc.current hc.results hc.nextCall (settled_of_runAt place ?_) ?_
    · exact fun _ _ h => nomatch h
    · intro k i hp
      obtain hr | hr := hnext
      · exact nomatch hr.symm.trans hp
      · exact nomatch hr.symm.trans hp
  | lost x place =>
    have hp := catchSession_plain o (s.createSlot o) x
    refine h.moves hp.control.current hp.control.results hp.control.nextCall
      (settled_of_runAt place ?_) hp.idle
    exact fun _ _ h => nomatch h
  | issued place =>
    refine h.moves rfl rfl rfl (settled_of_runAt place ?_) fun _ _ hp => nomatch hp
    exact fun _ _ h => nomatch h
  | batch b place =>
    have hset := settled_of_runAt place (by intro _ _ h; cases h)
    obtain ⟨hc, hr⟩ | hb := receiveBatch_cases o s b
    · refine h.control hc hset ?_
      rw [hr]
      exact fun _ _ h => nomatch h
    · rw [hb]
      exact h.moves rfl rfl rfl hset fun _ _ hp => nomatch hp
  | stop => exact h.stop
  | stopContinues i isHandling place settled =>
    unfold stopContinues
    rw [ackPending_eq]
    split
    · split <;> exact h.same rfl rfl rfl rfl
    · exact h.same rfl rfl rfl rfl

end Tracked

theorem Reachable.tracked {ok : Cdc → CdcEvent → Prop} (h : ReachableIf o ok s) : Tracked s :=
  h.invariant (fun _ h0 => h0 ▸ Tracked.init) fun _ _ hs he _ => hs.change (step_change he)

end Cdc

end Minipg
