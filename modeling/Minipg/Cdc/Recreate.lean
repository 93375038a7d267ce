import Minipg.Cdc.Fatal

/-!
# The durable slot is not recreated silently

`Watch` is kept beside a handle: whether the slot was seen, what the current session has decided
and dropped, and the system that the handle first met.  Once the slot was seen, a session waits for
CREATE_REPLICATION_SLOT only after its decision to recreate the slot and its drop
(`recreates_by_decision`).
-/

namespace Minipg

namespace Cdc

/-- What was observed, and what the current session has done to its slot. -/
structure Watch where
  seen : Bool := false
  decided : Bool := false
  dropped : Bool := false
  system : Option (String × Nat) := none
  changed : Bool := false
  deriving DecidableEq, Repr

/-- The slot was there: a row of the health check, or this handle has made it. -/
def seesSlot (o : ReplicateOptions) : CdcEvent → Bool
  | .health row => row.isSome
  | .created => o.durableName.isSome
  | _ => false

/-- A drop succeeded, or reported the slot missing. -/
def drops : CdcEvent → Bool
  | .dropped => true
  | .dropLost x _ | .dropFailed x _ => isMissing x
  | _ => false

/-- The watch after an event of the current session. -/
def Watch.note (o : ReplicateOptions) (s : Cdc) (w : Watch) (e : CdcEvent) : Watch where
  seen := w.seen || seesSlot o e
  decided := w.decided || decidesAt o s e
  dropped := w.dropped || drops e
  system :=
    match e with
    | .identified system => w.system.or (some system)
    | _ => w.system
  changed :=
    match e with
    | .identified system => w.changed || w.system.any (· ≠ system)
    | _ => w.changed

/-- A decision and a drop count in their own session. -/
def Watch.next (o : ReplicateOptions) (s : Cdc) (w : Watch) (e : CdcEvent) : Watch :=
  if (step o s e).sessions = s.sessions then w.note o s e
  else { w with decided := false, dropped := false }

/-- A handle and its watch. -/
def watched (o : ReplicateOptions) : Machine (Cdc × Watch) CdcEvent where
  enabled p e := enabled o p.1 e
  step p e := (step o p.1 e, p.2.next o p.1 e)

variable {o : ReplicateOptions} {s s' : Cdc} {e : CdcEvent} {w : Watch}

/-- What holds while `run` goes on. -/
structure Wary (o : ReplicateOptions) (s : Cdc) (w : Watch) : Prop where
  system : w.system = s.lastSystem
  same : w.changed = false
  seen : w.seen = true → s.sawSlot = true
  decided : s.recreate.isSome = true → w.decided = true
  recreating : isRecreating s.runAt = true → s.recreate.isSome = true
  creating : o.durableName.isSome = true → s.runAt = .creating → w.seen = true →
    w.decided = true ∧ w.dropped = true

theorem readHealth_stopping (h : s.stopping = true) (name : String) (evictions : Nat)
    (row : Option SlotHealthRow) : (s.readHealth o name evictions row).runAt = .done := by
  unfold readHealth durableFailed
  rw [if_pos h, if_neg (not_recreatable (by simp [stopError]))]
  exact catchSession_stopping o h stopError

/-- The watch and the handle remember the same, unless the handle is over. -/
theorem Wary.memory (h : Wary o s w) (he : enabled o s e = true)
    (hlive : (step o s e).runAt ≠ .done) :
    (w.note o s e).system = (s.observe o e).lastSystem ∧ (w.note o s e).changed = false ∧
      ((w.note o s e).seen = true → (s.observe o e).sawSlot = true) := by
  cases e with
  | identified system =>
    have hsame : s.lastSystem.any (· ≠ system) = false := by
      by_contra hn
      exact hlive (identified_changed (by simpa using hn))
    have hobs : s.observe o (.identified system) = { s with lastSystem := some system } :=
      if_neg (by rw [hsame]; exact Bool.false_ne_true)
    rw [hobs]
    refine ⟨?_, ?_, ?_⟩
    · show w.system.or (some system) = some system
      rw [h.system]
      cases hl : s.lastSystem with
      | none => rfl
      | some system' =>
        rw [hl] at hsame
        simpa using hsame
    · show (w.changed || w.system.any (· ≠ system)) = false
      rw [h.same, h.system, hsame]
      rfl
    · intro hseen
      exact h.seen (by simpa [Watch.note, seesSlot] using hseen)
  | health row =>
    cases row with
    | none =>
      have hobs : s.lookedAt none = s := if_neg (by simp)
      show _ = (s.lookedAt none).lastSystem ∧ _ ∧ (_ → (s.lookedAt none).sawSlot = true)
      rw [hobs]
      exact ⟨h.system, h.same, fun hseen => h.seen (by simpa [Watch.note, seesSlot] using hseen)⟩
    | some r =>
      have hrun : s.stopping = false := by
        by_contra hs
        apply hlive
        cases hr : s.runAt with
        | readingHealth evictions =>
          rw [step, hr]
          exact readHealth_stopping (by simpa using hs) _ _ _
        | _ => simp [enabled, hr] at he
      have hobs : s.lookedAt (some r) = { s with sawSlot := true } := if_pos ⟨rfl, hrun⟩
      show _ = (s.lookedAt (some r)).lastSystem ∧ _ ∧ (_ → (s.lookedAt (some r)).sawSlot = true)
      rw [hobs]
      exact ⟨h.system, h.same, fun _ => rfl⟩
  | created =>
    refine ⟨h.system, h.same, fun hseen => ?_⟩
    show (s.sawSlot || o.durableName.isSome) = true
    rcases Bool.or_eq_true_iff.mp hseen with hw | hw
    · rw [h.seen hw]
      rfl
    · rw [show o.durableName.isSome = true from hw, Bool.or_true]
  | _ => exact ⟨h.system, h.same, fun hseen => h.seen (by simpa [Watch.note, seesSlot] using hseen)⟩

/-- A creation that is allowed comes before the slot was seen, or after its decision and drop. -/
theorem Wary.creates (h : Wary o s w) (he : enabled o s e = true)
    (hmay : createsAt o s e = true) (hdurable : o.durableName.isSome = true)
    (hseen : (w.note o s e).seen = true) :
    (w.note o s e).decided = true ∧ (w.note o s e).dropped = true := by
  have hdropping : s.runAt = .dropping → drops e = true →
      (w.note o s e).decided = true ∧ (w.note o s e).dropped = true := by
    intro hr hd
    have hdecided := h.decided (h.recreating (by rw [hr]; rfl))
    exact ⟨by simp [Watch.note, hdecided], by simp [Watch.note, hd]⟩
  have hno : o.durableName.isNone = true → False := by
    intro hn
    rw [Option.isNone_iff_eq_none.mp hn] at hdurable
    cases hdurable
  cases e with
  | connected => exact (hno hmay).elim
  | probed ms => exact (hno hmay).elim
  | health row =>
    obtain ⟨hrow, hsaw⟩ := Bool.and_eq_true_iff.mp hmay
    rw [Option.isNone_iff_eq_none.mp hrow] at hseen
    have hsaw' := h.seen (by simpa [Watch.note, seesSlot] using hseen)
    simp [hsaw'] at hsaw
  | dropped =>
    exact hdropping (by simpa [enabled] using (Bool.and_eq_true_iff.mp he).1) rfl
  | dropLost x isPastDeadline =>
    exact hdropping (by simpa [enabled] using (Bool.and_eq_true_iff.mp he).1) hmay
  | dropFailed x isPastDeadline => exact hdropping (by simpa [enabled] using he) hmay
  | _ => cases hmay

/-- What a session goes on to is guarded. -/
theorem Wary.goes (h : Wary o s w) (he : enabled o s e = true)
    (g : Goes o (createsAt o s e = true) (decidesAt o s e = true) (s.observe o e) (step o s e)) :
    (step o s e).runAt = .done ∨ Wary o (step o s e) (w.note o s e) := by
  by_cases hlive : (step o s e).runAt = .done
  · exact .inl hlive
  · obtain ⟨hsystem, hsame, hseen⟩ := h.memory he hlive
    obtain ⟨saw, system, hobs⟩ := observe_eq o s e
    have hrec : (s.observe o e).recreate = s.recreate := by rw [hobs]
    have hdec : (s.observe o e).recreate.isSome = true → (w.note o s e).decided = true := by
      intro hr
      rw [hrec] at hr
      simp [Watch.note, h.decided hr]
    have hkeeps : Keeps (s.observe o e) (step o s e) →
        (w.note o s e).system = (step o s e).lastSystem ∧
          ((w.note o s e).seen = true → (step o s e).sawSlot = true) := by
      intro keeps
      rw [keeps.lastSystem, keeps.sawSlot]
      exact ⟨hsystem, hseen⟩
    cases g with
    | ends keeps stopping place => exact .inl place
    | fires x live fires => exact .inl fires.place
    | on keeps recreate place =>
      obtain ⟨hsys, hsaw⟩ := hkeeps keeps
      refine .inr ⟨hsys, hsame, hsaw, fun hr => hdec (recreate ▸ hr), ?_, ?_⟩
      · intro hr
        cases hp : (step o s e).runAt <;> simp [hp, isRecreating, isOrdinary] at hr place
      · intro _ hc _
        simp [hc, isOrdinary] at place
    | creates may keeps recreate place =>
      obtain ⟨hsys, hsaw⟩ := hkeeps keeps
      refine .inr ⟨hsys, hsame, hsaw, fun hr => hdec (recreate ▸ hr), ?_, ?_⟩
      · intro hr
        simp [place, isRecreating] at hr
      · intro hdurable _ hs
        exact h.creates he may hdurable hs
    | decides why keeps recreate place =>
      obtain ⟨hsys, hsaw⟩ := hkeeps keeps
      refine .inr ⟨hsys, hsame, hsaw, fun _ => ?_, fun _ => recreate, ?_⟩
      · rcases why with why | why
        · simp [Watch.note, why]
        · exact hdec why
      · intro _ hc _
        simp [hc, isRecreating] at place

theorem note_silent (h : isAnswer e = false) : (w.note o s e).seen = w.seen ∧
    (w.note o s e).system = w.system ∧ (w.note o s e).changed = w.changed := by
  cases e with
  | identified => cases h
  | health => cases h
  | created => cases h
  | _ => exact ⟨Bool.or_false _, rfl, rfl⟩

theorem callStop_same (s : Cdc) : s.callStop.sessions = s.sessions ∧
    s.callStop.sawSlot = s.sawSlot ∧ s.callStop.lastSystem = s.lastSystem ∧
    s.callStop.recreate = s.recreate ∧ s.callStop.runAt = s.runAt := by
  unfold callStop
  split
  · unfold doStop
    dsimp only
    split <;> exact ⟨rfl, rfl, rfl, rfl, rfl⟩
  · exact ⟨rfl, rfl, rfl, rfl, rfl⟩

/-- A step that remembers nothing new, and stays where it was or between decision and drop. -/
theorem Wary.silent (h : Wary o s w) (hs : isAnswer e = false)
    (hsaw : s'.sawSlot = s.sawSlot) (hsystem : s'.lastSystem = s.lastSystem)
    (hrec : s'.recreate = s.recreate)
    (hplace : s'.runAt = s.runAt ∨ isRecreating s.runAt = true ∧ isRecreating s'.runAt = true) :
    Wary o s' (w.note o s e) := by
  obtain ⟨hseen, hsys, hchanged⟩ := note_silent (o := o) (s := s) (w := w) hs
  refine ⟨?_, hchanged.trans h.same, ?_, ?_, ?_, ?_⟩
  · rw [hsys, hsystem]
    exact h.system
  · rw [hseen, hsaw]
    exact h.seen
  · intro hr
    rw [hrec] at hr
    simp [Watch.note, h.decided hr]
  · intro hr
    rw [hrec]
    rcases hplace with hp | hp
    · exact h.recreating (hp ▸ hr)
    · exact h.recreating hp.1
  · intro hdurable hc hw
    rw [hseen] at hw
    rcases hplace with hp | hp
    · obtain ⟨hd, hdrop⟩ := h.creating hdurable (hp ▸ hc) hw
      exact ⟨by simp [Watch.note, hd], by simp [Watch.note, hdrop]⟩
    · rw [hc] at hp
      exact nomatch hp.2

/-- **Every step of a handle that goes on keeps it wary.** -/
theorem Wary.step (h : s.runAt = .done ∨ Wary o s w) (he : enabled o s e = true) :
    (Cdc.step o s e).runAt = .done ∨ Wary o (Cdc.step o s e) (w.next o s e) := by
  rcases h with hdone | h
  · exact .inl (done_step hdone he).1.place
  · have hnext : (Cdc.step o s e).sessions = s.sessions → w.next o s e = w.note o s e :=
      fun hn => if_pos hn
    cases step_course he with
    | goes g =>
      obtain ⟨saw, system, hobs⟩ := observe_eq o s e
      have hsessions : (s.observe o e).sessions = s.sessions := by rw [hobs]
      have hsame : (Cdc.step o s e).sessions = s.sessions := by
        cases g with
        | ends keeps stopping place => exact keeps.sessions.trans hsessions
        | fires x live fires => exact fires.sessions.trans hsessions
        | on keeps recreate place => exact keeps.sessions.trans hsessions
        | creates may keeps recreate place => exact keeps.sessions.trans hsessions
        | decides why keeps recreate place => exact keeps.sessions.trans hsessions
      rw [hnext hsame]
      exact h.goes he g
    | rests silent keeps recreate place =>
      rw [hnext keeps.sessions]
      exact .inr (h.silent silent keeps.sawSlot keeps.lastSystem recreate (.inl place))
    | stops silent hstop =>
      obtain ⟨hsessions, hsaw, hsystem, hrec, hplace⟩ := callStop_same s
      rw [hnext (hstop ▸ hsessions), hstop]
      exact .inr (h.silent silent hsaw hsystem hrec (.inl hplace))
    | connects silent live hconnect =>
      have hreset : w.next o s e = { w with decided := false, dropped := false } := by
        apply if_neg
        rw [hconnect]
        exact Nat.succ_ne_self _
      rw [hreset, hconnect]
      refine .inr ⟨h.system, h.same, h.seen, ?_, ?_, ?_⟩
      · intro hr
        cases hr
      · intro hr
        cases hr
      · intro _ hc
        cases hc
    | givesUp why x hgives =>
      rw [hgives]
      exact .inl rfl
    | drops silent was keeps recreate place =>
      rw [hnext keeps.sessions]
      exact .inr (h.silent silent keeps.sawSlot keeps.lastSystem recreate (.inr ⟨was, place⟩))

/-- **A slot that was seen is created again only after the session's decision and its drop, and a
changed system ends the handle.** -/
theorem recreates_by_decision
    (h : (watched o).Reach Machine.Free (· = ({}, {})) (s, w)) :
    (o.durableName.isSome = true → s.runAt = .creating → w.seen = true →
      w.decided = true ∧ w.dropped = true) ∧ (w.changed = true → s.runAt = .done) := by
  have hinv : ∀ p, (watched o).Reach Machine.Free (· = ({}, {})) p →
      p.1.runAt = .done ∨ Wary o p.1 p.2 := by
    intro p hp
    refine Machine.Reach.invariant (I := fun p => p.1.runAt = .done ∨ Wary o p.1 p.2) ?_ ?_ hp
    · rintro p rfl
      refine .inr ⟨rfl, rfl, ?_, ?_, ?_, ?_⟩
      · intro hs
        cases hs
      · intro hs
        cases hs
      · intro hs
        cases hs
      · intro _ hc
        cases hc
    · intro p e hi he _
      exact Wary.step hi he
  rcases hinv (s, w) h with hdone | hw
  · refine ⟨fun _ hc => ?_, fun _ => hdone⟩
    exact nomatch hdone.symm.trans hc
  · refine ⟨hw.creating, fun hc => ?_⟩
    rw [hw.same] at hc
    cases hc

/-- A consumer that wants an invalidated slot made anew. -/
def recreating : ReplicateOptions := { durableName := some "app", recreatesInvalidated := true }

/-- The slot is found lost, dropped, and is about to be created. -/
def lostSlot : List CdcEvent :=
  [.slotMade, .start, .connected, .probed none, .identified ("7", 1), .health (some { isLost := true }),
    .retryDelay (.ok (some 5)), .slept, .dropped]

theorem reachable_lostSlot : (watched recreating).Reach Machine.Free (· = ({}, {}))
    ((watched recreating).exec ({}, {}) lostSlot) := by
  have hstart : (watched recreating).Reach Machine.Free (· = ({}, {})) ({}, {}) := .start rfl
  exact hstart.exec (by decide)

theorem recreates_by_decision_lost :
    (recreating.durableName.isSome = true →
      ((watched recreating).exec ({}, {}) lostSlot).1.runAt = .creating →
      ((watched recreating).exec ({}, {}) lostSlot).2.seen = true →
      ((watched recreating).exec ({}, {}) lostSlot).2.decided = true ∧
        ((watched recreating).exec ({}, {}) lostSlot).2.dropped = true) ∧
      (((watched recreating).exec ({}, {}) lostSlot).2.changed = true →
        ((watched recreating).exec ({}, {}) lostSlot).1.runAt = .done) :=
  recreates_by_decision (reachable_lostSlot)

/-- It is created, for it was seen, decided on and dropped. -/
example : ((watched recreating).exec ({}, {}) lostSlot).1.runAt = .creating ∧
    ((watched recreating).exec ({}, {}) lostSlot).2.seen = true := by decide

end Cdc

end Minipg
