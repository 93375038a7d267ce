import Minipg.Cursor.State

/-!
# Who releases the lease

Once a cursor is done, the calls that can still release its lease wait for a statement that ends its
transaction, or for the end of its connection.  As long as the cursor has its lease there is such a
call (`Held`), if the lease is not acquired after the cursor was closed.
-/

namespace Minipg

/-- The call that waits for the statement releases the lease, or goes on to a statement after which
it does. -/
def CursorStmt.releases : CursorStmt → Bool
  | .close | .commit | .closeRollback | .rollback _ => true
  | .begin _ | .opening _ _ | .fetch => false

namespace Cursor

variable {o : CursorOptions} {s : Cursor}

structure Owned (s : Cursor) : Prop where
  lease : s.isAcquired = true ∧
      (s.hasLease = true ∧ s.releases = 0 ∨ s.hasLease = false ∧ s.releases = 1) ∨
    s.isAcquired = false ∧ s.hasLease = false ∧ s.releases = 0
  fresh : s.state = .idle → s.isAcquired = false
  acquiring : s.opening = .acquiring → s.isAcquired = false ∧ s.state ≠ .idle
  errored : s.isErrored = true → s.state = .done
  live : s.state ≠ .done → (∀ q ∈ s.wire, q.releases = false) ∧ s.ends = []

/-- Somebody will release the lease of a cursor that is done. -/
def IsHeld (s : Cursor) : Prop :=
  s.state = .done → s.hasLease = true → (∃ q ∈ s.wire, q.releases = true) ∨ s.ends ≠ []

structure Held (s : Cursor) : Prop where
  owned : Owned s
  held : IsHeld s

namespace Owned

theorem init : Owned {} where
  lease := .inr ⟨rfl, rfl, rfl⟩
  fresh := fun _ => rfl
  acquiring := fun h => nomatch h
  errored := fun h => nomatch h
  live := fun _ => ⟨(fun _ h => nomatch h), rfl⟩

/-- The other fields do not matter. -/
theorem set (h : Owned s) (f x : Bool) (w : Nat) (t : CursorTimers) :
    Owned { s with fetching := f, inTransaction := x, waiting := w, timers := t } :=
  ⟨h.lease, h.fresh, h.acquiring, h.errored, h.live⟩

/-- A statement that releases nothing. -/
theorem send (h : Owned s) {q : CursorStmt} (hq : q.releases = false) : Owned (s.send q) := by
  refine ⟨h.lease, h.fresh, h.acquiring, h.errored, fun hs => ⟨fun r hr => ?_, (h.live hs).2⟩⟩
  obtain hr | hr := List.mem_append.mp hr
  · exact (h.live hs).1 r hr
  · exact List.mem_singleton.mp hr ▸ hq

/-- A cursor that is done may send anything. -/
theorem send_done (h : Owned s) (hs : s.state = .done) (q : CursorStmt) : Owned (s.send q) :=
  ⟨h.lease, h.fresh, h.acquiring, h.errored, fun hne => absurd hs hne⟩

theorem pop (h : Owned s) {q : CursorStmt} {qs : List CursorStmt} (hw : s.wire = q :: qs) :
    Owned { s with wire := qs } := by
  refine ⟨h.lease, h.fresh, h.acquiring, h.errored, fun hs => ⟨fun r hr => ?_, (h.live hs).2⟩⟩
  exact (h.live hs).1 r (hw ▸ List.mem_cons_of_mem q hr)

/-- A statement that releases was sent by a cursor that is done. -/
theorem done_of_releases (h : Owned s) {q : CursorStmt} (hq : q ∈ s.wire) (hr : q.releases = true) :
    s.state = .done := by
  refine Decidable.byContradiction fun hs => ?_
  exact nomatch ((h.live hs).1 q hq).symm.trans hr

theorem done_of_ends (h : Owned s) {c : Cleaner} (hc : c ∈ s.ends) : s.state = .done := by
  refine Decidable.byContradiction fun hs => ?_
  rw [(h.live hs).2] at hc
  exact nomatch hc

theorem release (h : Owned s) : Owned s.release := by
  unfold Cursor.release
  split
  · rename_i hl
    refine ⟨?_, h.fresh, h.acquiring, h.errored, h.live⟩
    obtain ⟨ha, ⟨-, hr⟩ | ⟨hl', -⟩⟩ | ⟨-, hl', -⟩ := h.lease
    · exact .inl ⟨ha, .inr ⟨rfl, congrArg (· + 1) hr⟩⟩
    · exact nomatch hl.symm.trans hl'
    · exact nomatch hl.symm.trans hl'
  · exact h

theorem release_hasLease (s : Cursor) : s.release.hasLease = false := by
  unfold Cursor.release
  split
  · rfl
  · rename_i hl
    exact Bool.eq_false_iff.mpr hl

theorem cleaned (h : Owned s) (c : Cleaner) : Owned (s.cleaned c) := by
  cases c with
  | opener => exact ⟨h.lease, h.fresh, (fun h => nomatch h), h.errored, h.live⟩
  | next => exact ⟨h.lease, h.fresh, h.acquiring, h.errored, h.live⟩
  | abort => exact h

theorem cleaned_hasLease (s : Cursor) (c : Cleaner) : (s.cleaned c).hasLease = s.hasLease := by
  cases c <;> rfl

/-- Nothing is held after a release. -/
theorem releaseOrThrow (h : Owned s) (c : Cleaner) : Held (s.releaseOrThrow c) := by
  unfold Cursor.releaseOrThrow
  split
  · refine ⟨h.release.cleaned c, fun _ hl => ?_⟩
    rw [cleaned_hasLease, release_hasLease] at hl
    exact nomatch hl
  · rename_i hl
    have hc := h.cleaned c
    refine ⟨⟨hc.lease, hc.fresh, hc.acquiring, hc.errored, hc.live⟩, fun _ hl' => ?_⟩
    exact absurd ((cleaned_hasLease s c).symm.trans hl') hl

theorem released (h : Owned s) : Held s.release :=
  ⟨h.release, fun _ hl => nomatch (release_hasLease s).symm.trans hl⟩

/-- The cursor is done with an error. -/
theorem cleanup (h : Owned s) (c : Cleaner) : Held (s.cleanup c) := by
  have hacq : s.opening = .acquiring → s.isAcquired = false ∧ CursorState.done ≠ .idle :=
    fun ho => ⟨(h.acquiring ho).1, fun h => nomatch h⟩
  have hdone : Owned { s with isErrored := true, state := .done }.clearTimers :=
    ⟨h.lease, (fun h => nomatch h), hacq, fun _ => rfl, fun h => absurd rfl h⟩
  unfold Cursor.cleanup
  dsimp only
  split
  · split
    · refine ⟨⟨h.lease, (fun h => nomatch h), hacq, fun _ => rfl, fun h => absurd rfl h⟩, ?_⟩
      intro _ _
      exact .inr (List.append_ne_nil_of_right_ne_nil _ (List.cons_ne_nil c []))
    · refine ⟨hdone.send_done rfl _, fun _ _ => .inl ⟨.rollback c, ?_, rfl⟩⟩
      exact List.mem_append_right _ (List.mem_singleton.mpr rfl)
  · rename_i hl
    refine ⟨hdone.cleaned c, fun _ hl' => ?_⟩
    exact absurd ((cleaned_hasLease _ c).symm.trans hl') hl

end Owned

namespace Held

theorem init : Held {} := ⟨Owned.init, fun h => nomatch h⟩

theorem set (h : Held s) (f x : Bool) (w : Nat) (t : CursorTimers) :
    Held { s with fetching := f, inTransaction := x, waiting := w, timers := t } :=
  ⟨h.owned.set f x w t, h.held⟩

theorem send (h : Held s) {q : CursorStmt} (hq : q.releases = false) : Held (s.send q) := by
  refine ⟨h.owned.send hq, fun hs hl => (h.held hs hl).imp_left ?_⟩
  exact fun ⟨r, hr, hrel⟩ => ⟨r, List.mem_append_left _ hr, hrel⟩

theorem send_done (h : Owned s) (hs : s.state = .done) {q : CursorStmt} (hq : q.releases = true) :
    Held (s.send q) :=
  ⟨h.send_done hs q, fun _ _ => .inl ⟨q, List.mem_append_right _ (List.mem_singleton.mpr rfl), hq⟩⟩

/-- A statement that releases nothing was answered. -/
theorem pop (h : Held s) {q : CursorStmt} {qs : List CursorStmt} (hw : s.wire = q :: qs)
    (hq : q.releases = false) : Held { s with wire := qs } := by
  refine ⟨h.owned.pop hw, fun hs hl => (h.held hs hl).imp_left fun ⟨r, hr, hrel⟩ => ⟨r, ?_, hrel⟩⟩
  rw [hw] at hr
  obtain rfl | hr := List.mem_cons.mp hr
  · exact nomatch hq.symm.trans hrel
  · exact hr

theorem abort (h : Held s) : Held s.abort := by
  unfold Cursor.abort
  split
  · exact h
  · exact h.owned.cleanup .abort

theorem open' (h : Held s) : Held s.open' := by
  unfold Cursor.open'
  split
  · exact h
  · rename_i hne
    have hidle : s.state = .idle := by
      refine Decidable.byContradiction fun hs => hne (.inr hs)
    have hne' : s.state ≠ .done := by rw [hidle]; exact fun h => nomatch h
    refine ⟨⟨h.owned.lease, (fun h => nomatch h), fun _ => ?_, fun he => ?_, ?_⟩, ?_⟩
    · exact ⟨h.owned.fresh hidle, fun h => nomatch h⟩
    · exact absurd (h.owned.errored he) hne'
    · exact fun _ => h.owned.live hne'
    · exact fun hd => nomatch hd

theorem next (h : Held s) : Held s.next := by
  unfold Cursor.next
  split
  · exact h
  · exact h.open'.set _ _ _ _

theorem resume (h : Held s) : Held s.resume := by
  unfold Cursor.resume
  dsimp only
  split
  · exact h.set _ _ _ _
  · have hset : Held { s with
        waiting := s.waiting - 1, timers := s.timers.clearIdle, fetching := true } :=
      h.set _ _ _ _
    split
    · exact hset.send rfl
    · exact hset.owned.cleanup .next

/-- Whoever closes an open cursor releases its lease. -/
theorem close (h : Held s) : Held s.close := by
  unfold Cursor.close
  split
  · exact h
  · have hdone : Owned { s with state := .done }.clearTimers := by
      refine ⟨h.owned.lease, (fun h => nomatch h), fun ho => ?_, fun _ => rfl, fun h => absurd rfl h⟩
      exact ⟨(h.owned.acquiring ho).1, fun h => nomatch h⟩
    dsimp only
    split
    · exact send_done hdone rfl rfl
    · exact hdone.released

theorem acquired (h : Held s) (ho : s.opening = .acquiring) (hs : s.state ≠ .done)
    (rest : List OpenStmt) : Held (s.acquired rest) := by
  have hset : Held { s with isAcquired := true, hasLease := true, opening := .running } := by
    obtain ⟨hna, hidle⟩ := h.owned.acquiring ho
    refine ⟨⟨?_, fun hi => ?_, (fun h => nomatch h), h.owned.errored, h.owned.live⟩, ?_⟩
    · obtain ⟨ha, -⟩ | ⟨-, -, hr⟩ := h.owned.lease
      · exact nomatch hna.symm.trans ha
      · exact .inl ⟨rfl, .inl ⟨rfl, hr⟩⟩
    · exact absurd hi hidle
    · exact fun hd => absurd hd hs
  exact hset.send rfl

theorem openNext (h : Held s) (rest : List OpenStmt) : Held (s.openNext o rest) := by
  cases rest with
  | nil =>
    exact ⟨⟨h.owned.lease, h.owned.fresh, (fun h => nomatch h), h.owned.errored, h.owned.live⟩,
      h.held⟩
  | cons q rest => exact h.send rfl

/-- The call that waits for a statement goes on. -/
theorem answered (h : Held s) {q : CursorStmt} {qs : List CursorStmt} (hw : s.wire = q :: qs) (a : Answer) :
    Held ({ s with wire := qs }.answered o q a) := by
  have hpop := h.owned.pop hw
  have hdone : q.releases = true → s.state = .done :=
    h.owned.done_of_releases (hw ▸ List.mem_cons_self)
  cases q with
  | begin rest =>
    have hp := h.pop hw rfl
    cases a with
    | failed => exact hp.owned.cleanup .opener
    | ok isShort => exact (hp.set _ true _ _).openNext rest
  | opening q rest =>
    have hp := h.pop hw rfl
    cases a with
    | failed => exact hp.owned.cleanup .opener
    | ok isShort => exact hp.openNext rest
  | fetch =>
    have hp := h.pop hw rfl
    cases a with
    | failed => exact hp.owned.cleanup .next
    | ok isShort =>
      have hset : Held { s with wire := qs, fetching := false } := hp.set _ _ _ _
      show Held (if isShort then _ else if _ then _ else _)
      split
      · exact hset.close
      · split
        · exact hset.set _ _ _ _
        · exact hset
  | close =>
    cases a with
    | ok isShort => exact send_done hpop (hdone rfl) rfl
    | failed => exact send_done hpop (hdone rfl) rfl
  | commit =>
    cases a with
    | ok isShort =>
      have hset : Owned { s with wire := qs, inTransaction := false } := hpop.set _ _ _ _
      exact hset.released
    | failed => exact send_done hpop (hdone rfl) rfl
  | closeRollback =>
    have hset : Owned { s with wire := qs, inTransaction := false } := hpop.set _ _ _ _
    cases a <;> exact hset.released
  | rollback c =>
    have hset : Owned { s with wire := qs, inTransaction := false } := hpop.set _ _ _ _
    cases a <;> exact hset.releaseOrThrow c

/-- **One step.** -/
theorem step (h : Held s) {e : CursorEvent} (he : enabled s e = true)
    (hok : e = .acquired → s.state ≠ .done) : Held (step o s e) := by
  cases e with
  | open' => exact h.open'
  | next => exact h.next
  | close => exact h.close
  | acquired => exact h.acquired (by simpa [enabled] using he) (hok rfl) _
  | acquireFailed =>
    exact ⟨⟨h.owned.lease, h.owned.fresh, (fun h => nomatch h), h.owned.errored, h.owned.live⟩,
      h.held⟩
  | resumed => exact h.resume
  | answer a =>
    rw [Cursor.step]
    split
    · rename_i q qs hw
      exact h.answered hw a
    · exact h
  | ended c =>
    have hc : c ∈ s.ends := by simpa [enabled] using he
    have hd := h.owned.done_of_ends hc
    have hset : Owned { s with ends := s.ends.erase c } :=
      ⟨h.owned.lease, h.owned.fresh, h.owned.acquiring, h.owned.errored, fun hne => absurd hd hne⟩
    exact hset.releaseOrThrow c
  | lost => exact h.set _ _ _ _
  | idleFires t =>
    have hset : Held { s with
        timers := { s.timers with idleArmed := s.timers.idleArmed.erase t } } := h.set _ _ _ _
    exact hset.abort
  | deadlineFires =>
    have hset : Held { s with timers := { s.timers with deadline := false } } := h.set _ _ _ _
    exact hset.abort

end Held

end Cursor

end Minipg
