import Minipg.Cursor.Held

/-!
# The lease is released exactly once

When the lease is given back, the transaction of the cursor is over (`Over`): the call that does it
has waited for COMMIT, for ROLLBACK or for the end of the connection.

A guard's cleanup is awaited by nobody.  It does not throw as long as it is the first that can
release the lease, which it is unless it ends the connection below a FETCH (`Calm`).
-/

namespace Minipg

def CursorStmt.isBegin : CursorStmt → Bool
  | .begin _ => true
  | _ => false

namespace Cursor

variable {o : CursorOptions} {s : Cursor}

/-! ### The transaction -/

structure Over (s : Cursor) : Prop where
  first : ∀ q ∈ s.wire.tail, q.isBegin = false
  unsent : s.isAcquired = false → s.wire = []
  ended : s.isEnded = true → s.inTransaction = false
  ends : s.ends ≠ [] → s.isEnded = true
  released : s.releases ≠ 0 →
    s.inTransaction = false ∧ ((∀ q ∈ s.wire, q.isBegin = false) ∨ s.isEnded = true)

theorem acquired_of_hasLease (h : Owned s) (hl : s.hasLease = true) : s.isAcquired = true := by
  obtain ⟨ha, -⟩ | ⟨-, hf, -⟩ := h.lease
  · exact ha
  · exact nomatch hl.symm.trans hf

namespace Over

theorem init : Over {} where
  first := fun _ h => nomatch h
  unsent := fun _ => rfl
  ended := fun _ => rfl
  ends := fun h => absurd rfl h
  released := fun h => absurd rfl h

theorem send (h : Over s) (ha : s.isAcquired = true) {q : CursorStmt} (hq : q.isBegin = false) :
    Over (s.send q) where
  first := by
    intro r hr
    cases hw : s.wire with
    | nil =>
      have htail : (s.wire ++ [q]).tail = [] := by rw [hw]; rfl
      exact nomatch htail ▸ hr
    | cons p ps =>
      have htail : (s.wire ++ [q]).tail = s.wire.tail ++ [q] := by rw [hw]; rfl
      obtain hr | hr := List.mem_append.mp (htail ▸ hr)
      · exact h.first r hr
      · exact List.mem_singleton.mp hr ▸ hq
  unsent := fun hna => nomatch ha.symm.trans hna
  ended := h.ended
  ends := h.ends
  released := by
    intro hr
    refine ⟨(h.released hr).1, (h.released hr).2.imp_left fun hb r hr => ?_⟩
    obtain hr | hr := List.mem_append.mp hr
    · exact hb r hr
    · exact List.mem_singleton.mp hr ▸ hq

theorem pop (h : Over s) {q : CursorStmt} {qs : List CursorStmt} (hw : s.wire = q :: qs) :
    Over { s with wire := qs } where
  first := fun r hr => h.first r (by rw [hw]; exact List.mem_of_mem_tail hr)
  unsent := fun hna => nomatch hw.symm.trans (h.unsent hna)
  ended := h.ended
  ends := h.ends
  released := by
    intro hr
    refine ⟨(h.released hr).1, (h.released hr).2.imp_left fun hb r hr => hb r ?_⟩
    rw [hw]
    exact List.mem_cons_of_mem q hr

/-- Only the first statement is a BEGIN. -/
theorem begun (h : Over s) {q : CursorStmt} {qs : List CursorStmt} (hw : s.wire = q :: qs) :
    ∀ r ∈ qs, r.isBegin = false :=
  fun r hr => h.first r (by rw [hw]; exact hr)

theorem finish (h : Over s) : Over { s with inTransaction := false } :=
  ⟨h.first, h.unsent, fun _ => rfl, h.ends, fun hr => ⟨rfl, (h.released hr).2⟩⟩

/-- The other fields do not matter. -/
theorem set (h : Over s) (t : CursorState) (r f l : Bool) (p : Opening) (m : CursorTimers) (w : Nat)
    (x : Bool) :
    Over { s with
      state := t, isErrored := r, fetching := f, hasLease := l, opening := p, timers := m, waiting := w
      hasThrown := x } :=
  ⟨h.first, h.unsent, h.ended, h.ends, h.released⟩

theorem release (h : Over s) (ht : s.inTransaction = false)
    (hb : (∀ q ∈ s.wire, q.isBegin = false) ∨ s.isEnded = true) : Over s.release := by
  unfold Cursor.release
  split
  · exact ⟨h.first, h.unsent, h.ended, h.ends, fun _ => ⟨ht, hb⟩⟩
  · exact h

theorem cleaned (h : Over s) (c : Cleaner) : Over (s.cleaned c) := by
  cases c with
  | opener => exact h.set _ _ _ _ _ _ _ _
  | next => exact h.set _ _ _ _ _ _ _ _
  | abort => exact h

theorem releaseOrThrow (h : Over s) (ht : s.inTransaction = false)
    (hb : (∀ q ∈ s.wire, q.isBegin = false) ∨ s.isEnded = true) (c : Cleaner) :
    Over (s.releaseOrThrow c) := by
  unfold Cursor.releaseOrThrow
  split
  · exact (h.release ht hb).cleaned c
  · exact (h.cleaned c).set _ _ _ _ _ _ _ _

theorem cleanup (h : Over s) (ho : Owned s) (c : Cleaner) : Over (s.cleanup c) := by
  have hset : Over { s with isErrored := true, state := .done }.clearTimers :=
    h.set _ _ _ _ _ _ _ _
  unfold Cursor.cleanup
  dsimp only
  split
  · rename_i hl
    split
    · exact ⟨h.first, h.unsent, fun _ => rfl, fun _ => rfl, fun _ => ⟨rfl, .inr rfl⟩⟩
    · have ha : s.isAcquired = true := acquired_of_hasLease ho hl
      exact hset.send ha rfl
  · exact hset.cleaned c

theorem abort (h : Over s) (ho : Owned s) : Over s.abort := by
  unfold Cursor.abort
  split
  · exact h
  · exact h.cleanup ho .abort

theorem open' (h : Over s) : Over s.open' := by
  unfold Cursor.open'
  split
  · exact h
  · exact h.set _ _ _ _ _ _ _ _

theorem resume (h : Over s) (ho : Owned s) : Over s.resume := by
  unfold Cursor.resume
  dsimp only
  split
  · exact h.set _ _ _ _ _ _ _ _
  · have hset : Over { s with
        waiting := s.waiting - 1, timers := s.timers.clearIdle, fetching := true } :=
      h.set _ _ _ _ _ _ _ _
    split
    · rename_i hl
      have ha : s.isAcquired = true := acquired_of_hasLease ho hl
      exact hset.send ha rfl
    · exact hset.cleanup (ho.set _ _ _ _) .next

/-- `close` releases no lease at once. -/
theorem close_release (ho : Owned s) (hd : s.state ≠ .done)
    (hl : ¬((s.state = .opened ∧ s.hasLease = true) ∧ s.isErrored = false)) :
    s.hasLease = false := by
  have herr : s.isErrored = false := Bool.eq_false_iff.mpr fun he => hd (ho.errored he)
  cases hl' : s.hasLease with
  | false => rfl
  | true =>
    have ha := acquired_of_hasLease ho hl'
    cases hs : s.state with
    | idle => exact nomatch ha.symm.trans (ho.fresh hs)
    | opened => exact absurd ⟨⟨hs, hl'⟩, herr⟩ hl
    | done => exact absurd hs hd

theorem close (h : Over s) (ho : Owned s) : Over s.close := by
  unfold Cursor.close
  split
  · exact h
  · rename_i hd
    have hset : Over { s with state := .done }.clearTimers := h.set _ _ _ _ _ _ _ _
    dsimp only
    split
    · rename_i hl
      have ha : s.isAcquired = true := acquired_of_hasLease ho hl.1.2
      exact hset.send ha rfl
    · rename_i hl
      have hnone : s.hasLease = false := close_release ho hd hl
      have hsame : { s with state := .done }.clearTimers.release =
          { s with state := .done }.clearTimers := if_neg (Bool.eq_false_iff.mp hnone)
      rw [hsame]
      exact hset

theorem openNext (h : Over s) (ha : s.isAcquired = true) (rest : List OpenStmt) :
    Over (s.openNext o rest) := by
  cases rest with
  | nil => exact h.set _ _ _ _ _ _ _ _
  | cons q rest => exact h.send ha rfl

theorem answered (h : Over s) (ho : Owned s) {q : CursorStmt} {qs : List CursorStmt} (hw : s.wire = q :: qs)
    {a : Answer} (ha : s.canAnswer a = true) : Over ({ s with wire := qs }.answered o q a) := by
  have hp := h.pop hw
  have hop := ho.pop hw
  have hacq : s.isAcquired = true := by
    cases hna : s.isAcquired with
    | true => rfl
    | false => exact nomatch hw.symm.trans (h.unsent hna)
  have hbegun : (∀ r ∈ qs, r.isBegin = false) ∨ s.isEnded = true := .inl (h.begun hw)
  cases q with
  | begin rest =>
    cases a with
    | failed => exact hp.cleanup hop .opener
    | ok isShort =>
      -- nothing was released, and the connection was not ended
      have hlive : s.isEnded = false := by simpa [canAnswer, hw] using ha
      have hzero : s.releases = 0 := by
        refine Decidable.byContradiction fun hr => ?_
        obtain ⟨-, hb | he⟩ := h.released hr
        · have hbegin := hb (.begin rest) (hw ▸ List.mem_cons_self)
          exact nomatch hbegin
        · exact nomatch hlive.symm.trans he
      have htx : Over { s with wire := qs, inTransaction := true } :=
        ⟨hp.first, hp.unsent, (fun he => nomatch hlive.symm.trans he), hp.ends,
          fun hr => absurd hzero hr⟩
      exact htx.openNext hacq rest
  | opening q rest =>
    cases a with
    | failed => exact hp.cleanup hop .opener
    | ok isShort => exact hp.openNext hacq rest
  | fetch =>
    cases a with
    | failed => exact hp.cleanup hop .next
    | ok isShort =>
      have hset : Over { s with wire := qs, fetching := false } := hp.set _ _ _ _ _ _ _ _
      show Over (if isShort then _ else if _ then _ else _)
      split
      · exact hset.close (hop.set _ _ _ _)
      · split
        · exact hset.set _ _ _ _ _ _ _ _
        · exact hset
  | close => cases a <;> exact hp.send hacq rfl
  | commit =>
    cases a with
    | ok isShort => exact hp.finish.release rfl hbegun
    | failed => exact hp.send hacq rfl
  | closeRollback => cases a <;> exact hp.finish.release rfl hbegun
  | rollback c => cases a <;> exact hp.finish.releaseOrThrow rfl hbegun c

theorem acquired (h : Over s) (ho : Owned s) (hop : s.opening = .acquiring) (rest : List OpenStmt) :
    Over (s.acquired rest) := by
  have hnil := h.unsent (ho.acquiring hop).1
  have hwire : s.wire ++ [.begin rest] = [.begin rest] := by rw [hnil]; rfl
  unfold Cursor.acquired Cursor.send
  dsimp only
  rw [hwire]
  refine ⟨(fun _ hr => nomatch hr), (fun hna => nomatch hna), h.ended, h.ends, fun hr => ?_⟩
  obtain ⟨ha, -⟩ | ⟨-, -, hz⟩ := ho.lease
  · exact nomatch ha.symm.trans (ho.acquiring hop).1
  · exact absurd hz hr

/-- **One step.** -/
theorem step (h : Over s) (ho : Owned s) {e : CursorEvent} (he : enabled s e = true) :
    Over (step o s e) := by
  cases e with
  | open' => exact h.open'
  | next =>
    show Over (if _ then _ else _)
    split
    · exact h
    · exact h.open'.set _ _ _ _ _ _ _ _
  | close => exact h.close ho
  | acquired => exact h.acquired ho (by simpa [enabled] using he) _
  | acquireFailed => exact h.set _ _ _ _ _ _ _ _
  | resumed => exact h.resume ho
  | answer a =>
    rw [Cursor.step]
    split
    · rename_i q qs hw
      exact h.answered ho hw he
    · exact h
  | ended c =>
    have hc : c ∈ s.ends := by simpa [enabled] using he
    have hended := h.ends (List.ne_nil_of_mem hc)
    have hset : Over { s with ends := s.ends.erase c } :=
      ⟨h.first, h.unsent, h.ended, fun _ => hended, h.released⟩
    exact hset.releaseOrThrow (h.ended hended) (.inr hended) c
  | lost => exact h.finish
  | idleFires t => exact Over.abort (h.set _ _ _ _ _ _ _ _) (ho.set _ _ _ _)
  | deadlineFires => exact Over.abort (h.set _ _ _ _ _ _ _ _) (ho.set _ _ _ _)

end Over

/-! ### The guards -/

/-- The ROLLBACK of a guard is the first statement after which the lease is released. -/
structure FirstAbort (s : Cursor) : Prop where
  order : ∃ pre post, s.wire = pre ++ .rollback .abort :: post ∧
    (∀ q ∈ pre, q.releases = false) ∧ CursorStmt.rollback .abort ∉ post
  ends : s.ends = []
  fetching : s.fetching = false
  errored : s.isErrored = true
  lease : s.hasLease = true

structure Calm (s : Cursor) : Prop where
  thrown : s.hasThrown = false
  ends : Cleaner.abort ∉ s.ends
  first : CursorStmt.rollback .abort ∈ s.wire → FirstAbort s

namespace Calm

theorem init : Calm {} where
  thrown := rfl
  ends := fun h => nomatch h
  first := fun h => nomatch h

theorem set (h : Calm s) (t : CursorState) (p : Opening) (m : CursorTimers) (w : Nat) (x : Bool) :
    Calm { s with state := t, opening := p, timers := m, waiting := w, inTransaction := x } :=
  ⟨h.thrown, h.ends, fun ha => ⟨(h.first ha).order, (h.first ha).ends, (h.first ha).fetching,
    (h.first ha).errored, (h.first ha).lease⟩⟩

/-- `finally { this.fetching = false }`. -/
theorem fetched (h : Calm s) : Calm { s with fetching := false } :=
  ⟨h.thrown, h.ends, fun ha => ⟨(h.first ha).order, (h.first ha).ends, rfl, (h.first ha).errored,
    (h.first ha).lease⟩⟩

/-- No guard waits. -/
theorem of_none (hthrown : s.hasThrown = false) (hends : Cleaner.abort ∉ s.ends)
    (hw : CursorStmt.rollback .abort ∉ s.wire) : Calm s :=
  ⟨hthrown, hends, fun ha => absurd ha hw⟩

theorem send (h : Calm s) {q : CursorStmt} (hq : q ≠ .rollback .abort) : Calm (s.send q) := by
  refine ⟨h.thrown, h.ends, fun ha => ?_⟩
  have hmem : CursorStmt.rollback .abort ∈ s.wire := by
    obtain ha | ha := List.mem_append.mp ha
    · exact ha
    · exact absurd (List.mem_singleton.mp ha).symm hq
  obtain ⟨pre, post, hw, hpre, hpost⟩ := (h.first hmem).order
  refine ⟨⟨pre, post ++ [q], ?_, hpre, ?_⟩, (h.first hmem).ends, (h.first hmem).fetching,
    (h.first hmem).errored, (h.first hmem).lease⟩
  · show s.wire ++ [q] = _
    rw [hw, List.append_assoc, List.cons_append]
  · intro hr
    obtain hr | hr := List.mem_append.mp hr
    · exact hpost hr
    · exact hq (List.mem_singleton.mp hr).symm

/-- After a statement that releases nothing the guard is still the first. -/
theorem pop (h : Calm s) {q : CursorStmt} {qs : List CursorStmt} (hw : s.wire = q :: qs)
    (hq : q.releases = false) : Calm { s with wire := qs } := by
  refine ⟨h.thrown, h.ends, fun ha => ?_⟩
  have habort := h.first (hw ▸ List.mem_cons_of_mem q ha)
  obtain ⟨pre, post, hpre, hrel, hpost⟩ := habort.order
  refine ⟨?_, habort.ends, habort.fetching, habort.errored, habort.lease⟩
  rw [hw] at hpre
  cases pre with
  | nil =>
    cases hpre
    exact nomatch hq
  | cons p ps =>
    cases hpre
    exact ⟨ps, post, rfl, fun r hr => hrel r (List.mem_cons_of_mem _ hr), hpost⟩

/-- A statement after which the lease is released comes first: it is the guard's, or there is
none. -/
theorem head (h : Calm s) {q : CursorStmt} {qs : List CursorStmt} (hw : s.wire = q :: qs)
    (hq : q.releases = true) :
    CursorStmt.rollback .abort ∉ qs ∧ (q = .rollback .abort → s.hasLease = true) := by
  refine ⟨fun hmem => ?_, fun hab => ?_⟩
  · obtain ⟨pre, post, hpre, hrel, hpost⟩ := (h.first (hw ▸ List.mem_cons_of_mem q hmem)).order
    rw [hw] at hpre
    cases pre with
    | nil =>
      cases hpre
      exact hpost hmem
    | cons p ps =>
      cases hpre
      exact nomatch (hrel _ List.mem_cons_self).symm.trans hq
  · refine (h.first ?_).lease
    rw [hw, hab]
    exact List.mem_cons_self

theorem cleaned (h : Calm s) (c : Cleaner) : Calm (s.cleaned c) := by
  cases c with
  | opener => exact h.set _ _ _ _ _
  | next => exact h.fetched
  | abort => exact h

/-- A lease is released while no guard waits. -/
theorem release (hthrown : s.hasThrown = false) (hends : Cleaner.abort ∉ s.ends)
    (hw : CursorStmt.rollback .abort ∉ s.wire) : Calm s.release := by
  unfold Cursor.release
  split
  · exact of_none hthrown hends hw
  · exact of_none hthrown hends hw

theorem releaseOrThrow (hthrown : s.hasThrown = false) (hends : Cleaner.abort ∉ s.ends)
    (hw : CursorStmt.rollback .abort ∉ s.wire) (c : Cleaner) (hc : c = .abort → s.hasLease = true) :
    Calm (s.releaseOrThrow c) := by
  unfold Cursor.releaseOrThrow
  split
  · exact (release hthrown hends hw).cleaned c
  · rename_i hl
    have hsame : (s.hasThrown || c == .abort) = s.hasThrown := by
      cases c with
      | abort => exact absurd (hc rfl) hl
      | _ => exact Bool.or_false _
    have hcalm : Calm (s.cleaned c) := (of_none hthrown hends hw).cleaned c
    have hsame' : { s.cleaned c with hasThrown := s.hasThrown || c == .abort } = s.cleaned c := by
      rw [hsame]
      cases c <;> rfl
    rw [hsame']
    exact hcalm

/-- `open` and `next` clean up behind a guard. -/
theorem cleanup (h : Calm s) {c : Cleaner} (hc : c ≠ .abort) : Calm (s.cleanup c) := by
  have hset : Calm { s with isErrored := true, state := .done }.clearTimers :=
    ⟨h.thrown, h.ends, fun ha => ⟨(h.first ha).order, (h.first ha).ends, (h.first ha).fetching, rfl,
      (h.first ha).lease⟩⟩
  unfold Cursor.cleanup
  dsimp only
  split
  · split
    · rename_i hf
      refine of_none h.thrown (fun hmem => ?_) fun ha => ?_
      · obtain hmem | hmem := List.mem_append.mp hmem
        · exact h.ends hmem
        · exact hc (List.mem_singleton.mp hmem).symm
      · exact nomatch (h.first ha).fetching.symm.trans hf
    · exact hset.send fun heq => hc (CursorStmt.rollback.inj heq)
  · exact hset.cleaned c

/-- No guard waits in a cursor without an error. -/
theorem none_of_live (h : Calm s) (he : ¬s.isErrored = true) : CursorStmt.rollback .abort ∉ s.wire :=
  fun ha => he (h.first ha).errored

/-- A guard trips outside a FETCH. -/
theorem abort (h : Calm s) (ho : Owned s) (hf : s.state ≠ .done → s.fetching = false) :
    Calm s.abort := by
  unfold Cursor.abort
  split
  · exact h
  · rename_i hne
    have hd : s.state ≠ .done := fun hd => hne (.inl hd)
    have hw := h.none_of_live fun he => hne (.inr he)
    unfold Cursor.cleanup
    dsimp only
    split
    · rename_i hl
      split
      · rename_i hfetching
        exact nomatch (hf hd).symm.trans hfetching
      · refine ⟨h.thrown, h.ends, fun _ => ⟨⟨s.wire, [], rfl, (ho.live hd).1, fun h => nomatch h⟩,
          (ho.live hd).2, hf hd, rfl, hl⟩⟩
    · exact of_none h.thrown h.ends hw

theorem open' (h : Calm s) : Calm s.open' := by
  unfold Cursor.open'
  split
  · exact h
  · exact h.set _ _ _ _ _

theorem resume (h : Calm s) : Calm s.resume := by
  unfold Cursor.resume
  dsimp only
  split
  · exact h.set _ _ _ _ _
  · rename_i hne
    have hset : Calm { s with
        waiting := s.waiting - 1, timers := s.timers.clearIdle, fetching := true } :=
      of_none h.thrown h.ends (h.none_of_live fun he => hne (.inr he))
    split
    · exact hset.send fun h => nomatch h
    · exact hset.cleanup fun h => nomatch h

theorem close (h : Calm s) (ho : Owned s) : Calm s.close := by
  unfold Cursor.close
  split
  · exact h
  · rename_i hd
    have hw := h.none_of_live fun he => hd (ho.errored he)
    dsimp only
    split
    · exact Calm.send (h.set _ _ _ _ _) fun h => nomatch h
    · exact release h.thrown h.ends hw

theorem acquired (h : Calm s) (rest : List OpenStmt) : Calm (s.acquired rest) := by
  have hset : Calm { s with isAcquired := true, hasLease := true, opening := .running } :=
    ⟨h.thrown, h.ends, fun ha => ⟨(h.first ha).order, (h.first ha).ends, (h.first ha).fetching,
      (h.first ha).errored, rfl⟩⟩
  exact hset.send fun h => nomatch h

theorem openNext (h : Calm s) (rest : List OpenStmt) : Calm (s.openNext o rest) := by
  cases rest with
  | nil => exact h.set _ _ _ _ _
  | cons q rest => exact h.send fun h => nomatch h

theorem answered (h : Calm s) (ho : Owned s) {q : CursorStmt} {qs : List CursorStmt} (hw : s.wire = q :: qs)
    (a : Answer) : Calm ({ s with wire := qs }.answered o q a) := by
  cases q with
  | begin rest =>
    have hp := h.pop hw rfl
    cases a with
    | failed => exact hp.cleanup fun h => nomatch h
    | ok isShort => exact (hp.set _ _ _ _ true).openNext rest
  | opening q rest =>
    have hp := h.pop hw rfl
    cases a with
    | failed => exact hp.cleanup fun h => nomatch h
    | ok isShort => exact hp.openNext rest
  | fetch =>
    have hp := h.pop hw rfl
    cases a with
    | failed => exact hp.cleanup fun h => nomatch h
    | ok isShort =>
      have hop := (ho.pop hw).set false s.inTransaction s.waiting s.timers
      show Calm (if isShort then _ else if _ then _ else _)
      split
      · exact hp.fetched.close hop
      · split
        · exact hp.fetched.set _ _ _ _ _
        · exact hp.fetched
  | close =>
    have hnone : Calm { s with wire := qs } := of_none h.thrown h.ends (h.head hw rfl).1
    cases a <;> exact hnone.send fun h => nomatch h
  | commit =>
    have hnone : Calm { s with wire := qs } := of_none h.thrown h.ends (h.head hw rfl).1
    cases a with
    | ok isShort =>
      have hset := hnone.set s.state s.opening s.timers s.waiting false
      exact release hset.thrown hset.ends (h.head hw rfl).1
    | failed => exact hnone.send fun h => nomatch h
  | closeRollback =>
    have hnone : Calm { s with wire := qs } := of_none h.thrown h.ends (h.head hw rfl).1
    have hset := hnone.set s.state s.opening s.timers s.waiting false
    cases a <;> exact release hset.thrown hset.ends (h.head hw rfl).1
  | rollback c =>
    have hhead := h.head hw rfl
    have hc : c = .abort → s.hasLease = true := fun hc => hhead.2 (congrArg CursorStmt.rollback hc)
    have hset : Calm { s with wire := qs, inTransaction := false } :=
      of_none h.thrown h.ends hhead.1
    cases a <;> exact releaseOrThrow hset.thrown hset.ends hhead.1 c hc

/-- **One step.** -/
theorem step (h : Calm s) (ho : Owned s) {e : CursorEvent} (he : enabled s e = true)
    (hok : (∃ t, e = .idleFires t) ∨ e = .deadlineFires → s.state ≠ .done → s.fetching = false) :
    Calm (step o s e) := by
  cases e with
  | open' => exact h.open'
  | next =>
    show Calm (if _ then _ else _)
    split
    · exact h
    · exact h.open'.set _ _ _ _ _
  | close => exact h.close ho
  | acquired => exact h.acquired _
  | acquireFailed => exact h.set _ _ _ _ _
  | resumed => exact h.resume
  | answer a =>
    rw [Cursor.step]
    split
    · rename_i q qs hw
      exact h.answered ho hw a
    · exact h
  | ended c =>
    have hc : c ∈ s.ends := by simpa [enabled] using he
    have hw : CursorStmt.rollback .abort ∉ s.wire := by
      intro ha
      rw [(h.first ha).ends] at hc
      cases hc
    have hends : Cleaner.abort ∉ s.ends.erase c := fun ha => h.ends (List.mem_of_mem_erase ha)
    have hne : c ≠ .abort := by
      rintro rfl
      exact h.ends hc
    have hset : Calm { s with ends := s.ends.erase c } := of_none h.thrown hends hw
    exact releaseOrThrow hset.thrown hset.ends hw c fun heq => absurd heq hne
  | lost => exact h.set _ _ _ _ _
  | idleFires t =>
    exact Calm.abort (h.set _ _ _ _ _) (ho.set _ _ _ _) (hok (.inl ⟨t, rfl⟩))
  | deadlineFires => exact Calm.abort (h.set _ _ _ _ _) (ho.set _ _ _ _) (hok (.inr rfl))

end Calm

/-! ### Every run -/

/-- The lease is acquired after the cursor was closed, or a guard trips during a FETCH. -/
def mishandles (s : Cursor) : CursorEvent → Bool
  | .acquired => s.state == .done
  | .idleFires _ | .deadlineFires => s.state != .done && s.fetching
  | _ => false

abbrev Handles (s : Cursor) (e : CursorEvent) : Prop := mishandles s e = false

/-- No call waits any more. -/
def IsSettled (s : Cursor) : Prop :=
  s.opening ≠ .acquiring ∧ s.waiting = 0 ∧ s.wire = [] ∧ s.ends = []

instance (s : Cursor) : Decidable (IsSettled s) := by
  unfold IsSettled
  infer_instance

theorem Reachable.held (h : ReachableIf o Handles s) : Held s := by
  refine h.invariant (fun _ h0 => h0 ▸ Held.init) fun s e hs he hk => hs.step he fun heq => ?_
  rw [heq] at hk
  exact ne_of_beq_false hk

theorem Reachable.finished (h : ReachableIf o Handles s) : Over s :=
  Machine.Reach.invariant_with (J := Held) (fun _ => Reachable.held) (fun _ h0 => h0 ▸ Over.init)
    (fun _ _ hh hs he _ => hs.step hh.owned he) h

theorem Reachable.calm (h : ReachableIf o Handles s) : Calm s := by
  refine Machine.Reach.invariant_with (J := Held) (fun _ => Reachable.held)
    (fun _ h0 => h0 ▸ Calm.init) (fun s e hh hs he hk => hs.step hh.owned he fun hguard hd => ?_) h
  have hkeeps : (s.state != .done && s.fetching) = false := by
    obtain ⟨t, rfl⟩ | rfl := hguard
    · exact hk
    · exact hk
  have hne : (s.state != .done) = true := bne_iff_ne.mpr hd
  rwa [hne, Bool.true_and] at hkeeps

/-- **The lease is released exactly once**, with the transaction of the cursor over, and no guard
throws, in every run in which the lease is not acquired after `close` and no guard trips during a
FETCH. -/
theorem releases_lease_once (o : CursorOptions) : ∀ s, ReachableIf o Handles s →
    s.releases ≤ 1 ∧ s.hasThrown = false ∧
      (s.state = .done ∨ s.isErrored = true → s.IsSettled → s.isAcquired = true →
        s.releases = 1 ∧ s.inTransaction = false) := by
  intro s h
  have ho := (Reachable.held h).owned
  refine ⟨?_, (Reachable.calm h).thrown, fun hdone hsettled hacq => ?_⟩
  · obtain ⟨-, ⟨-, hr⟩ | ⟨-, hr⟩⟩ | ⟨-, -, hr⟩ := ho.lease <;> omega
  · have hd : s.state = .done := hdone.elim id ho.errored
    obtain ⟨-, -, hwire, hends⟩ := hsettled
    have hnone : s.hasLease = false := by
      refine Bool.eq_false_iff.mpr fun hl => ?_
      obtain ⟨q, hq, -⟩ | hne := (Reachable.held h).held hd hl
      · rw [hwire] at hq
        exact nomatch hq
      · exact hne hends
    have hone : s.releases = 1 := by
      obtain ⟨-, ⟨hl, -⟩ | ⟨-, hr⟩⟩ | ⟨hna, -⟩ := ho.lease
      · exact nomatch hnone.symm.trans hl
      · exact hr
      · exact nomatch hacq.symm.trans hna
    refine ⟨hone, ((Reachable.finished h).released ?_).1⟩
    omega

/-! ### Runs -/

/-- The first `next()` of a cursor without guards, up to its FETCH. -/
def openCursor : List CursorEvent :=
  [.next, .acquired, .answer (.ok false), .answer (.ok false), .resumed]

/-- The last batch closes the cursor. -/
theorem releases_lease_once_drained :
    (run { idleTimeoutMs := 0 } (openCursor ++ [.answer (.ok true), .answer (.ok false),
      .answer (.ok false)])).releases = 1 ∧
    (run { idleTimeoutMs := 0 } (openCursor ++ [.answer (.ok true), .answer (.ok false),
      .answer (.ok false)])).inTransaction = false := by
  have hruns : (machine { idleTimeoutMs := 0 }).Runs Handles {} (openCursor ++
      [.answer (.ok true), .answer (.ok false), .answer (.ok false)]) := by decide
  exact (releases_lease_once _ _ (reachable_run hruns)).2.2 (.inl (by decide)) (by decide)
    (by decide)

/-- `close()` comes before `acquire()` resolves: the cursor opens, and nobody gives its lease back.
Or the guard of `maxDurationMs` trips during a FETCH: it ends the connection, the FETCH is rejected,
`next()` finds the connection closed and releases the lease, and the guard throws. -/
theorem leaks_lease :
    (¬ ∀ (o : CursorOptions) (s : Cursor), Reachable o s → s.state = .done → s.IsSettled →
      s.isAcquired = true → s.releases = 1) ∧
    ¬ ∀ (o : CursorOptions) (s : Cursor), Reachable o s → s.hasThrown = false := by
  refine ⟨fun h => ?_, fun h => ?_⟩
  · have hruns : (machine { idleTimeoutMs := 0 }).Runs Machine.Free {}
        [.open', .close, .acquired, .answer (.ok false), .answer (.ok false)] := by decide
    exact absurd (h _ _ (reachable_run hruns) (by decide) (by decide) (by decide)) (by decide)
  · have hruns : (machine { idleTimeoutMs := 0, maxDurationMs := some 200 }).Runs Machine.Free {}
        (openCursor ++ [.deadlineFires, .answer .failed, .ended .next, .ended .abort]) := by decide
    exact absurd (h _ _ (reachable_run hruns)) (by decide)

end Cursor

end Minipg
