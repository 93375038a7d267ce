import Minipg.Cdc.Courses

/-!
# The last callback

`onFatalError` is called once at most, and nothing starts after it, for a fired handle has no
event left that could start anything (`done_step`).  It keeps silent after `stop()` exactly when no
`retryDelayMs` gives up on a handle that was stopped meanwhile, which only `retryDelayMs` itself
can do: the code does not look at `stopping` between its return and `fireFatal`.
-/

namespace Minipg

namespace Cdc

variable {o : ReplicateOptions} {s s' : Cdc} {e : CdcEvent}

/-- A call of the consumer begins. -/
def callsConsumer : CdcEvent → Bool
  | .called | .threw _ => true
  | _ => false

/-- What a handle that is done still does. -/
structure Rested (s s' : Cdc) : Prop where
  place : s'.runAt = .done
  fatalFired : s'.fatalFired = s.fatalFired
  fatals : s'.fatals = s.fatals
  sessions : s'.sessions = s.sessions
  calls : s'.calls = s.calls

theorem callStop_rested (h : s.runAt = .done) : Rested s s.callStop := by
  unfold callStop
  split
  · unfold doStop
    dsimp only
    split <;> exact ⟨h, rfl, rfl, rfl, rfl⟩
  · exact ⟨h, rfl, rfl, rfl, rfl⟩

theorem ackPending_rested (h : s.runAt = .done) : Rested s s.ackPending := by
  unfold ackPending ack
  split
  · split <;> exact ⟨h, rfl, rfl, rfl, rfl⟩
  · exact ⟨h, rfl, rfl, rfl, rfl⟩

/-- **A handle that is done starts nothing.** -/
theorem done_step (hr : s.runAt = .done) (h : enabled o s e = true) :
    Rested s (step o s e) ∧ callsConsumer e = false := by
  cases e with
  | stop => exact ⟨callStop_rested hr, rfl⟩
  | abort => exact ⟨callStop_rested hr, rfl⟩
  | stopContinues =>
    refine ⟨?_, rfl⟩
    rw [step]
    split
    · unfold stopContinues
      split
      · split
        · obtain ⟨hp, hf, hfs, hss, hc⟩ := ackPending_rested hr
          exact ⟨hp, hf, hfs, hss, hc⟩
        · exact ⟨hr, rfl, rfl, rfl, rfl⟩
      · exact ⟨hr, rfl, rfl, rfl, rfl⟩
    · exact ⟨hr, rfl, rfl, rfl, rfl⟩
  | slotDropped => exact ⟨⟨hr, rfl, rfl, rfl, rfl⟩, rfl⟩
  | slotMade => exact ⟨⟨hr, rfl, rfl, rfl, rfl⟩, rfl⟩
  | _ => simp [enabled, hr, windowOf] at h

/-! ### Who fires -/

theorem callStop_fatal (s : Cdc) :
    s.callStop.fatalFired = s.fatalFired ∧ s.callStop.fatals = s.fatals := by
  unfold callStop
  split
  · unfold doStop
    dsimp only
    split <;> exact ⟨rfl, rfl⟩
  · exact ⟨rfl, rfl⟩

/-- A step leaves the fatal callback alone, or fires it: on a live handle, or from `retryDelayMs`. -/
theorem Course.fate (h : Course o s e s') :
    (s'.fatalFired = s.fatalFired ∧ s'.fatals = s.fatals) ∨
      ((s.stopping = false ∨ s.givesUp e = true) ∧ ∃ x, Fires o x s s') := by
  cases h with
  | goes g =>
    obtain ⟨saw, system, hobs⟩ := observe_eq o s e
    rw [hobs] at g
    cases g with
    | ends keeps stopping place => exact .inl ⟨keeps.fatalFired, keeps.fatals⟩
    | fires x live fires =>
      exact .inr ⟨.inl live, x, ⟨fires.place, fires.fatalFired, fires.fatals, fires.sessions⟩⟩
    | on keeps recreate place => exact .inl ⟨keeps.fatalFired, keeps.fatals⟩
    | creates may keeps recreate place => exact .inl ⟨keeps.fatalFired, keeps.fatals⟩
    | decides why keeps recreate place => exact .inl ⟨keeps.fatalFired, keeps.fatals⟩
  | rests silent keeps recreate place => exact .inl ⟨keeps.fatalFired, keeps.fatals⟩
  | stops silent h =>
    rw [h]
    exact .inl (callStop_fatal s)
  | connects silent live h =>
    rw [h]
    exact .inl ⟨rfl, rfl⟩
  | givesUp why x h =>
    rw [h]
    exact .inr ⟨.inr why, x, giveUp_fires o s x⟩
  | drops silent was keeps recreate place => exact .inl ⟨keeps.fatalFired, keeps.fatals⟩

/-- A handle that has fired is done, and fired once. -/
structure Once (s : Cdc) : Prop where
  place : s.fatalFired = true → s.runAt = .done
  unfired : s.fatalFired = false → s.fatals = []
  atMostOne : s.fatals.length ≤ 1

theorem Once.init : Once {} where
  place := by
    intro h
    cases h
  unfired := fun _ => rfl
  atMostOne := by decide

theorem Once.step (h : Once s) (he : enabled o s e = true) : Once (step o s e) := by
  cases hf : s.fatalFired with
  | true =>
    obtain ⟨hrest, -⟩ := done_step (o := o) (h.place hf) he
    refine ⟨fun _ => hrest.place, fun hn => ?_, ?_⟩
    · rw [hrest.fatalFired, hf] at hn
      cases hn
    · rw [hrest.fatals]
      exact h.atMostOne
  | false =>
    have hnil := h.unfired hf
    rcases (step_course he).fate with ⟨hff, hfs⟩ | ⟨-, x, hfires⟩
    · refine ⟨fun hn => ?_, fun _ => hfs.trans hnil, ?_⟩
      · rw [hff, hf] at hn
        cases hn
      · rw [hfs]
        exact h.atMostOne
    · refine ⟨fun _ => hfires.place, fun hn => ?_, ?_⟩
      · rw [hfires.fatalFired] at hn
        cases hn
      · rw [hfires.fatals, hnil]
        split <;> simp

/-! ### After a stop -/

/-- Nothing starts once `onFatalError` was called. -/
def StartsNothing (o : ReplicateOptions) (s : Cdc) (e : CdcEvent) : Prop :=
  s.fatals ≠ [] → callsConsumer e = false ∧ (step o s e).sessions = s.sessions ∧
    (step o s e).calls = s.calls

/-- `onFatalError` is not called once the handle is stopped. -/
def KeepsSilent (o : ReplicateOptions) (s : Cdc) (e : CdcEvent) : Prop :=
  s.stopping = true → (step o s e).fatals = s.fatals

/-- `retryDelayMs` gives up, or throws where nothing catches it, on a handle that is stopped. -/
def givesUpStopped (o : ReplicateOptions) (s : Cdc) (e : CdcEvent) : Bool :=
  s.stopping && o.hasOnFatalError && s.givesUp e

theorem Once.startsNothing (h : Once s) (he : enabled o s e = true) : StartsNothing o s e := by
  intro hne
  cases hf : s.fatalFired with
  | true =>
    obtain ⟨hrest, hcalls⟩ := done_step (o := o) (h.place hf) he
    exact ⟨hcalls, hrest.sessions, hrest.calls⟩
  | false => exact absurd (h.unfired hf) hne

/-- A delay that gives up ends in `giveUp`. -/
theorem givesUp_step (he : enabled o s e = true) (hg : s.givesUp e = true) :
    ∃ x, step o s e = s.giveUp o x := by
  cases e with
  | retryDelay d =>
    show ∃ x, s.retryDelay o d = s.giveUp o x
    unfold retryDelay
    cases d with
    | error x =>
      cases hr : s.runAt with
      | sessionDelay y => exact ⟨x, rfl⟩
      | _ => simp [givesUp, hr] at hg
    | ok d =>
      have hd : d = none := Option.isNone_iff_eq_none.mp hg
      subst hd
      cases hr : s.runAt with
      | recreateDelay x => exact ⟨x, rfl⟩
      | backfillDelay n x => exact ⟨x, rfl⟩
      | handlerDelay b x => exact ⟨x, rfl⟩
      | sessionDelay x => exact ⟨x, rfl⟩
      | _ => simp [enabled, hr] at he
  | _ => cases hg

theorem Once.keepsSilent_iff (h : Once s) (he : enabled o s e = true) :
    KeepsSilent o s e ↔ givesUpStopped o s e = false := by
  constructor
  · intro hk
    by_contra hn
    have hg : s.stopping = true ∧ o.hasOnFatalError = true ∧ s.givesUp e = true := by
      simpa [givesUpStopped, and_assoc] using hn
    obtain ⟨x, hx⟩ := givesUp_step he hg.2.2
    have hlive : s.fatalFired = false := by
      by_contra hf
      have hdone : s.runAt = .done := h.place (by simpa using hf)
      cases e with
      | retryDelay d => simp [enabled, hdone] at he
      | _ => cases hg.2.2
    have hfatals := (giveUp_fires o s x).fatals
    rw [← hx, hk hg.1, hlive, hg.2.1] at hfatals
    simp at hfatals
  · intro hn hs
    rcases (step_course he).fate with ⟨-, hfs⟩ | ⟨hwhy, x, hfires⟩
    · exact hfs
    · have hg : s.givesUp e = true := hwhy.resolve_left (by simp [hs])
      have hno : o.hasOnFatalError = false := by simpa [givesUpStopped, hs, hg] using hn
      rw [hfires.fatals, hno]
      simp

/-- A session that fails, and a consumer that stops the handle instead of waiting. -/
def stopsInDelay (d : Option Nat) : List CdcEvent :=
  [.start, .connected, .failed {}, .stop, .retryDelay (.ok d)]

instance (o : ReplicateOptions) (s : Cdc) (e : CdcEvent) : Decidable (KeepsSilent o s e) :=
  inferInstanceAs (Decidable (_ → _))

end Cdc

end Minipg
