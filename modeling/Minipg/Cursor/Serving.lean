import Minipg.Cursor.Lease

/-!
# What a cursor's connection can still do for it

Facts about every reachable cursor, whichever way its calls overlap (`Serving.reachable`): the
statements of `open` follow one another and are over when `opening` is settled, a FETCH is sent
only then, and there is no transaction without the lease.
-/

namespace Minipg

/-- `open` waits for the statement. -/
def CursorStmt.isOpener : CursorStmt → Bool
  | .begin _ | .opening .. | .rollback .opener => true
  | _ => false

theorem CursorStmt.isOpener_of_isBegin (q : CursorStmt) (h : q.isBegin = true) :
    q.isOpener = true := by
  cases q <;> first | rfl | cases h

namespace Cursor

variable {o : CursorOptions} {s : Cursor}

structure Serving (s : Cursor) : Prop where
  errored : s.isErrored = true → s.state = .done
  idle : s.state = .idle → s.opening = .notCalled
  unsent : s.opening = .notCalled ∨ s.opening = .acquiring →
    s.wire = [] ∧ s.hasLease = false ∧ s.ends = [] ∧ s.inTransaction = false
  openers : s.wire.countP CursorStmt.isOpener ≤ if s.opening = .running then 1 else 0
  fetched : s.fetching = true ∨ .fetch ∈ s.wire ∨ s.ends ≠ [] → s.opening = .resolved
  first : ∀ q ∈ s.wire.tail, q.isBegin = false
  begun : ∀ q ∈ s.wire, q.isBegin = true → s.hasLease = true
  transaction : s.inTransaction = true → s.hasLease = true
  ended : s.isEnded = true → s.isErrored = true ∧ s.inTransaction = false
  ending : s.ends ≠ [] → s.isEnded = true ∧ .opener ∉ s.ends

namespace Serving

theorem init : Serving {} where
  errored := fun h => nomatch h
  idle := fun _ => rfl
  unsent := fun _ => ⟨rfl, rfl, rfl, rfl⟩
  openers := Nat.le_refl 0
  fetched := by simp
  first := fun _ h => nomatch h
  begun := fun _ h => nomatch h
  transaction := fun h => nomatch h
  ended := fun h => nomatch h
  ending := fun h => absurd rfl h

/-- The other fields do not matter. -/
theorem set (h : Serving s) (t : CursorTimers) (w r : Nat) (a x : Bool) :
    Serving { s with timers := t, waiting := w, releases := r, isAcquired := a, hasThrown := x } :=
  ⟨h.errored, h.idle, h.unsent, h.openers, h.fetched, h.first, h.begun, h.transaction, h.ended,
    h.ending⟩

theorem not_running (h : Serving s) (hres : s.opening = .resolved) : ∀ q ∈ s.wire,
    q.isOpener = false := by
  have hzero := h.openers
  rw [hres, if_neg (by decide), Nat.le_zero] at hzero
  intro q hq
  exact Bool.eq_false_iff.mpr (List.countP_eq_zero.mp hzero q hq)

/-- A statement that was answered is gone. -/
theorem pop (h : Serving s) {q : CursorStmt} {qs : List CursorStmt} (hw : s.wire = q :: qs) :
    Serving { s with wire := qs } := by
  have hmem : ∀ r ∈ qs, r ∈ s.wire := fun r hr => hw ▸ List.mem_cons_of_mem q hr
  refine ⟨h.errored, h.idle, fun ho => ?_, Nat.le_trans ?_ h.openers, ?_, fun r hr => ?_, ?_,
    h.transaction, h.ended, h.ending⟩
  · have hnil := (h.unsent ho).1
    rw [hw] at hnil
    cases hnil
  · show qs.countP _ ≤ _
    rw [hw]
    exact (List.sublist_cons_self q qs).countP_le
  · rintro (ht | hf | he)
    · exact h.fetched (.inl ht)
    · exact h.fetched (.inr (.inl (hmem _ hf)))
    · exact h.fetched (.inr (.inr he))
  · refine h.first r ?_
    rw [hw]
    exact List.mem_of_mem_tail hr
  · exact fun r hr => h.begun r (hmem r hr)

/-- The statement that `open` waits for is its only one. -/
theorem opener_head (h : Serving s) {q : CursorStmt} {qs : List CursorStmt} (hw : s.wire = q :: qs)
    (hq : q.isOpener = true) : s.opening = .running ∧ ∀ r ∈ qs, r.isOpener = false := by
  have hle := h.openers
  rw [hw, List.countP_cons, if_pos hq] at hle
  split at hle
  next hrun =>
    have hzero : qs.countP CursorStmt.isOpener = 0 := by omega
    exact ⟨hrun, fun r hr => Bool.eq_false_iff.mpr (List.countP_eq_zero.mp hzero r hr)⟩
  next => omega

/-- Nothing has been sent before the lease is acquired. -/
theorem begun_of_lease (h : Serving s) (hl : s.hasLease = true) :
    ¬(s.opening = .notCalled ∨ s.opening = .acquiring) :=
  fun hun => nomatch (h.unsent hun).2.1.symm.trans hl

theorem begun_of_wire (h : Serving s) {q : CursorStmt} {qs : List CursorStmt}
    (hw : s.wire = q :: qs) : ¬(s.opening = .notCalled ∨ s.opening = .acquiring) :=
  fun hun => nomatch (h.unsent hun).1.symm.trans hw

/-- A statement that is no BEGIN. -/
theorem send (h : Serving s) {q : CursorStmt}
    (hun : ¬(s.opening = .notCalled ∨ s.opening = .acquiring)) (hb : q.isBegin = false)
    (ho : q.isOpener = true → s.opening = .running ∧ ∀ r ∈ s.wire, r.isOpener = false)
    (hf : q = .fetch → s.opening = .resolved) : Serving (s.send q) := by
  refine ⟨h.errored, h.idle, fun hno => absurd hno hun, ?_, ?_, ?_, ?_, h.transaction, h.ended,
    h.ending⟩
  · show (s.wire ++ [q]).countP CursorStmt.isOpener ≤ _
    rw [List.countP_append, List.countP_singleton]
    cases hq : q.isOpener with
    | false => exact h.openers
    | true =>
      obtain ⟨hrun, hno⟩ := ho hq
      have hzero : s.wire.countP CursorStmt.isOpener = 0 :=
        List.countP_eq_zero.mpr fun r hr => Bool.eq_false_iff.mp (hno r hr)
      rw [hzero, show (s.send q).opening = .running from hrun]
      decide
  · rintro (ht | hmem | hends)
    · exact h.fetched (.inl ht)
    · rcases List.mem_append.mp hmem with hmem | hmem
      · exact h.fetched (.inr (.inl hmem))
      · exact hf (List.mem_singleton.mp hmem).symm
    · exact h.fetched (.inr (.inr hends))
  · intro r hr
    have hr' : r ∈ (s.wire ++ [q]).tail := hr
    cases hw : s.wire with
    | nil =>
      rw [hw] at hr'
      cases hr'
    | cons p ps =>
      rw [hw] at hr'
      rcases List.mem_append.mp (show r ∈ ps ++ [q] from hr') with hr' | hr'
      · exact h.first r (by rw [hw]; exact hr')
      · rw [List.mem_singleton.mp hr']
        exact hb
  · intro r hr hbegin
    rcases List.mem_append.mp (show r ∈ s.wire ++ [q] from hr) with hr | hr
    · exact h.begun r hr hbegin
    · rw [List.mem_singleton.mp hr] at hbegin
      exact nomatch hb.symm.trans hbegin

theorem release (h : Serving s) (ht : s.inTransaction = false)
    (hno : ∀ q ∈ s.wire, q.isBegin = false) : Serving s.release := by
  rw [Cursor.release]
  split
  · refine ⟨h.errored, h.idle, fun ho => ?_, h.openers, h.fetched, h.first, ?_, ?_, h.ended,
      h.ending⟩
    · exact ⟨(h.unsent ho).1, rfl, (h.unsent ho).2.2⟩
    · intro q hq hb
      exact nomatch (hno q hq).symm.trans hb
    · exact fun hin => nomatch ht.symm.trans hin
  · exact h

/-- A call that was waiting in `cleanup` goes on. -/
theorem cleaned (h : Serving s) {c : Cleaner}
    (hc : c = .opener → s.opening = .running ∧ ∀ q ∈ s.wire, q.isOpener = false) :
    Serving (s.cleaned c) := by
  cases c with
  | opener =>
    obtain ⟨hrun, hno⟩ := hc rfl
    refine ⟨h.errored, fun hi => ?_, (by rintro (h | h) <;> cases h), ?_, fun hf => ?_, h.first,
      h.begun, h.transaction, h.ended, h.ending⟩
    · exact nomatch hrun.symm.trans (h.idle hi)
    · exact Nat.le_of_eq (List.countP_eq_zero.mpr fun q hq => Bool.eq_false_iff.mp (hno q hq))
    · exact nomatch hrun.symm.trans (h.fetched hf)
  | next =>
    refine ⟨h.errored, h.idle, h.unsent, h.openers, ?_, h.first, h.begun, h.transaction, h.ended,
      h.ending⟩
    rintro (ht | hf)
    · cases ht
    · exact h.fetched (.inr hf)
  | abort => exact h

/-- The end of a `cleanup`, whose statement or connection has ended. -/
theorem releaseOrThrow (h : Serving s) {c : Cleaner} (ht : s.inTransaction = false)
    (hno : ∀ q ∈ s.wire, q.isBegin = false)
    (hc : c = .opener → s.opening = .running ∧ ∀ q ∈ s.wire, q.isOpener = false) :
    Serving (s.releaseOrThrow c) := by
  rw [Cursor.releaseOrThrow]
  split
  · have hsame : s.release.opening = s.opening ∧ s.release.wire = s.wire := by
      rw [Cursor.release]
      split <;> exact ⟨rfl, rfl⟩
    apply (h.release ht hno).cleaned
    rw [hsame.1, hsame.2]
    exact hc
  · exact (h.cleaned hc).set _ _ _ _ _

/-- The cursor is done. -/
theorem finish (h : Serving s) (x : Bool) (t : CursorTimers) (hx : s.isErrored = true → x = true) :
    Serving { s with state := .done, isErrored := x, timers := t } :=
  ⟨fun _ => rfl, (fun hi => nomatch hi), h.unsent, h.openers, h.fetched, h.first, h.begun,
    h.transaction, fun he => ⟨hx (h.ended he).1, (h.ended he).2⟩, h.ending⟩

theorem cleanup (h : Serving s) {c : Cleaner}
    (hc : c = .opener → s.opening = .running ∧ ∀ q ∈ s.wire, q.isOpener = false) :
    Serving (s.cleanup c) := by
  have hdone : Serving { s with isErrored := true, state := .done }.clearTimers :=
    h.finish true _ fun _ => rfl
  rw [Cursor.cleanup]
  split
  next hl =>
    split
    next hf =>
      have hres : s.opening = .resolved := h.fetched (.inl hf)
      refine ⟨fun _ => rfl, (fun hi => nomatch hi), fun hun => ?_, h.openers, fun _ => hres,
        h.first, h.begun, (fun hin => nomatch hin), fun _ => ⟨rfl, rfl⟩, fun _ => ⟨rfl, ?_⟩⟩
      · rcases hun with hun | hun <;> exact nomatch hres.symm.trans hun
      · intro hmem
        rcases List.mem_append.mp hmem with hmem | hmem
        · exact (h.ending (List.ne_nil_of_mem hmem)).2 hmem
        · exact nomatch hres.symm.trans (hc (List.mem_singleton.mp hmem).symm).1
    next =>
      refine hdone.send (h.begun_of_lease hl) rfl (fun ho => ?_) (fun hf => nomatch hf)
      cases c with
      | opener => exact hc rfl
      | next => cases ho
      | abort => cases ho
  next => exact hdone.cleaned hc

theorem abort (h : Serving s) : Serving s.abort := by
  rw [Cursor.abort]
  split
  · exact h
  · exact h.cleanup fun hc => nomatch hc

theorem open' (h : Serving s) : Serving s.open' := by
  rw [Cursor.open']
  split
  · exact h
  next hne =>
    rw [not_or, not_not] at hne
    have hnot := h.idle hne.2
    obtain ⟨hwire, hlease, hends, hin⟩ := h.unsent (.inl hnot)
    have hle := h.openers
    refine ⟨fun he => absurd he hne.1, (fun hi => nomatch hi), fun _ => ⟨hwire, hlease, hends, hin⟩,
      ?_, fun hf => ?_, h.first, h.begun, h.transaction, h.ended, h.ending⟩
    · show s.wire.countP _ ≤ _
      rw [hwire]
      exact Nat.zero_le _
    · exact nomatch hnot.symm.trans (h.fetched hf)

theorem next (h : Serving s) : Serving s.next := by
  rw [Cursor.next]
  split
  · exact h
  · exact h.open'.set _ _ _ _ _

/-- `next()` goes on when `opening` is settled. -/
theorem resume (h : Serving s) (hset : s.opening = .resolved ∨ s.opening = .rejected) :
    Serving s.resume := by
  rw [Cursor.resume]
  dsimp only
  split
  · exact h.set _ _ _ _ _
  next hok =>
    have hres : s.opening = .resolved := hset.resolve_right fun hr => hok (.inl hr)
    have hfetching : Serving { s with
        waiting := s.waiting - 1, timers := s.timers.clearIdle, fetching := true } :=
      ⟨h.errored, h.idle, h.unsent, h.openers, fun _ => hres, h.first, h.begun, h.transaction,
        h.ended, h.ending⟩
    split
    next hl => exact hfetching.send (h.begun_of_lease hl) rfl (fun ho => nomatch ho) fun _ => hres
    next => exact hfetching.cleanup fun hc => nomatch hc

theorem close (h : Serving s) : Serving s.close := by
  rw [Cursor.close]
  split
  · exact h
  next hne =>
    have hlive : s.isErrored = false := Bool.eq_false_iff.mpr fun he => hne (h.errored he)
    have hdone : Serving { s with state := .done }.clearTimers := h.finish _ _ id
    dsimp only
    split
    next hopen =>
      refine hdone.send ?_ rfl (fun ho => nomatch ho) fun hf => nomatch hf
      exact h.begun_of_lease hopen.1.2
    next hno =>
      have hlease : s.hasLease = false := by
        by_contra hl
        rw [Bool.not_eq_false] at hl
        cases hstate : s.state with
        | done => exact hne hstate
        | idle => exact nomatch (h.unsent (.inl (h.idle hstate))).2.1.symm.trans hl
        | opened => exact hno ⟨⟨hstate, hl⟩, hlive⟩
      have hkeep : { s with state := .done }.clearTimers.release =
          { s with state := .done }.clearTimers := by
        rw [Cursor.release, if_neg]
        exact Bool.eq_false_iff.mp hlease
      rw [hkeep]
      exact hdone

theorem acquired (h : Serving s) (ho : s.opening = .acquiring) (rest : List OpenStmt) :
    Serving (s.acquired rest) := by
  obtain ⟨hwire, -, hends, hin⟩ := h.unsent (.inr ho)
  refine ⟨h.errored, fun hi => (nomatch ho.symm.trans (h.idle hi)),
    (by rintro (h | h) <;> cases h), ?_, fun hf => ?_, ?_, fun _ _ _ => rfl, fun _ => rfl, h.ended,
    h.ending⟩
  · show (s.wire ++ [CursorStmt.begin rest]).countP _ ≤ 1
    rw [hwire]
    exact Nat.le_refl 1
  · have hnone : ¬(s.fetching = true ∨ .fetch ∈ s.wire ∨ s.ends ≠ []) :=
      fun hf => nomatch ho.symm.trans (h.fetched hf)
    refine absurd ?_ hnone
    rcases hf with hf | hf | hf
    · exact .inl hf
    · rcases List.mem_append.mp (show _ ∈ s.wire ++ [CursorStmt.begin rest] from hf) with hf | hf
      · exact .inr (.inl hf)
      · cases List.mem_singleton.mp hf
    · exact .inr (.inr hf)
  · intro q hq
    have hq' : q ∈ (s.wire ++ [CursorStmt.begin rest]).tail := hq
    rw [hwire] at hq'
    cases hq'

/-- `open` goes on, with its next statement if there is one. -/
theorem openNext (h : Serving s) (hrun : s.opening = .running)
    (hno : ∀ q ∈ s.wire, q.isOpener = false) (rest : List OpenStmt) :
    Serving (s.openNext o rest) := by
  cases rest with
  | nil =>
    refine ⟨h.errored, fun hi => (nomatch hrun.symm.trans (h.idle hi)),
      (by rintro (h | h) <;> cases h), ?_, fun _ => rfl, h.first, h.begun, h.transaction, h.ended,
      h.ending⟩
    exact Nat.le_of_eq (List.countP_eq_zero.mpr fun q hq => Bool.eq_false_iff.mp (hno q hq))
  | cons q rest =>
    refine h.send ?_ rfl (fun _ => ⟨hrun, hno⟩) fun hf => nomatch hf
    rintro (ho | ho) <;> exact nomatch hrun.symm.trans ho

/-- The call that waits for a statement goes on. -/
theorem answered (h : Serving s) {q : CursorStmt} {qs : List CursorStmt} (hw : s.wire = q :: qs)
    {a : Answer} (ha : s.canAnswer a = true) : Serving ({ s with wire := qs }.answered o q a) := by
  have hpop := h.pop hw
  have hbegin : ∀ r ∈ qs, r.isBegin = false := by
    have hfirst := h.first
    rwa [hw] at hfirst
  have hlive : ∀ isShort, a = .ok isShort → s.isEnded = false := by
    rintro isShort rfl
    simp only [canAnswer, hw, List.isEmpty_cons, Bool.not_false, Bool.true_and,
      Bool.not_eq_true'] at ha
    exact ha
  have hover : Serving { s with wire := qs, inTransaction := false } :=
    ⟨hpop.errored, hpop.idle, fun ho => ⟨(hpop.unsent ho).1, (hpop.unsent ho).2.1,
      (hpop.unsent ho).2.2.1, rfl⟩, hpop.openers, hpop.fetched, hpop.first, hpop.begun,
      (fun hin => by cases hin), fun he => ⟨(hpop.ended he).1, rfl⟩, hpop.ending⟩
  have hsend : ∀ q' : CursorStmt, q'.isBegin = false → q'.isOpener = false → q' ≠ .fetch →
      Serving ({ s with wire := qs }.send q') := by
    intro q' hb ho hf
    exact hpop.send (h.begun_of_wire hw) hb (fun ho' => by cases ho.symm.trans ho')
      fun heq => absurd heq hf
  cases q with
  | begin rest =>
    obtain ⟨hrun, hno⟩ := h.opener_head hw rfl
    have hl := h.begun (.begin rest) (hw ▸ List.mem_cons_self) rfl
    cases a with
    | failed => exact hpop.cleanup fun _ => ⟨hrun, hno⟩
    | ok isShort =>
      have hin : Serving { s with wire := qs, inTransaction := true } := by
        refine ⟨hpop.errored, hpop.idle, fun ho => ?_, hpop.openers, hpop.fetched, hpop.first,
          hpop.begun, fun _ => hl, fun he => ?_, hpop.ending⟩
        · rcases ho with ho | ho <;> cases hrun.symm.trans ho
        · cases (hlive _ rfl).symm.trans he
      exact hin.openNext hrun hno rest
  | opening q rest =>
    obtain ⟨hrun, hno⟩ := h.opener_head hw rfl
    cases a with
    | failed => exact hpop.cleanup fun _ => ⟨hrun, hno⟩
    | ok isShort => exact hpop.openNext hrun hno rest
  | fetch =>
    cases a with
    | failed => exact hpop.cleanup fun hc => by cases hc
    | ok isShort =>
      have hres : s.opening = .resolved :=
        h.fetched (.inr (.inl (hw ▸ List.mem_cons_self)))
      have hset : Serving { s with wire := qs, fetching := false } :=
        ⟨hpop.errored, hpop.idle, hpop.unsent, hpop.openers, fun _ => hres, hpop.first, hpop.begun,
          hpop.transaction, hpop.ended, hpop.ending⟩
      show Serving (if isShort then _ else if _ then _ else _)
      split
      · exact hset.close
      · split
        · exact hset.set _ _ _ _ _
        · exact hset
  | close => cases a <;> exact hsend _ rfl rfl (fun heq => by cases heq)
  | commit =>
    cases a with
    | ok isShort => exact hover.release rfl hbegin
    | failed => exact hsend _ rfl rfl (fun heq => by cases heq)
  | closeRollback => cases a <;> exact hover.release rfl hbegin
  | rollback c =>
    have hc : c = .opener → s.opening = .running ∧ ∀ r ∈ qs, r.isOpener = false := by
      rintro rfl
      exact h.opener_head hw rfl
    cases a <;> exact hover.releaseOrThrow rfl hbegin hc

/-- **One step.** -/
theorem step (h : Serving s) {e : CursorEvent} (he : enabled s e = true) :
    Serving (step o s e) := by
  cases e with
  | open' => exact h.open'
  | next => exact h.next
  | close => exact h.close
  | acquired => exact h.acquired (by simpa [enabled] using he) _
  | acquireFailed =>
    have ho : s.opening = .acquiring := by simpa [enabled] using he
    obtain ⟨hwire, -, -, -⟩ := h.unsent (.inr ho)
    refine ⟨h.errored, fun hi => (by cases ho.symm.trans (h.idle hi)),
      (by rintro (h | h) <;> cases h), ?_, fun hf => (by cases ho.symm.trans (h.fetched hf)),
      h.first, h.begun, h.transaction, h.ended, h.ending⟩
    show s.wire.countP _ ≤ _
    rw [hwire]
    exact Nat.zero_le _
  | resumed =>
    refine h.resume ?_
    simp only [enabled, Bool.and_eq_true, Bool.or_eq_true, beq_iff_eq] at he
    exact he.2
  | answer a =>
    rw [Cursor.step]
    split
    next q qs hw => exact h.answered hw he
    next => exact h
  | ended c =>
    have hc : c ∈ s.ends := by simpa [enabled] using he
    obtain ⟨hended, hopener⟩ := h.ending (List.ne_nil_of_mem hc)
    have hres := h.fetched (.inr (.inr (List.ne_nil_of_mem hc)))
    have hset : Serving { s with ends := s.ends.erase c } := by
      refine ⟨h.errored, h.idle, fun ho => ?_, h.openers, fun _ => hres, h.first, h.begun,
        h.transaction, h.ended, fun _ => ⟨hended, fun hmem => hopener (List.mem_of_mem_erase hmem)⟩⟩
      rcases ho with ho | ho <;> cases hres.symm.trans ho
    refine hset.releaseOrThrow (h.ended hended).2 ?_ ?_
    · intro q hq
      refine Bool.eq_false_iff.mpr fun hb => ?_
      cases (h.not_running hres q hq).symm.trans (q.isOpener_of_isBegin hb)
    · rintro rfl
      exact absurd hc hopener
  | lost =>
    exact ⟨h.errored, h.idle, fun ho => ⟨(h.unsent ho).1, (h.unsent ho).2.1, (h.unsent ho).2.2.1,
      rfl⟩, h.openers, h.fetched, h.first, h.begun, (fun hin => by cases hin),
      fun he => ⟨(h.ended he).1, rfl⟩, h.ending⟩
  | idleFires t => exact (h.set _ _ _ _ _).abort
  | deadlineFires => exact (h.set _ _ _ _ _).abort

end Serving

end Cursor

end Minipg
