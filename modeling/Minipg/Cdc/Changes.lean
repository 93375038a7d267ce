import Minipg.Cdc.Control

/-!
# What a step of a CDC handle can do

`Change o s e s'` says once what the event `e` can make of `s`.  The bad steps have constructors
of their own: `lost` is a CREATE_REPLICATION_SLOT whose answer is lost, `escapes` a `retryDelayMs`
that throws while a backfill or a handler is to be retried, and `quits` are the ends of `run` that
leave a handler.
-/

namespace Minipg

namespace Cdc

/-- `run` is outside every window and handler, and its callback, if any, has settled. -/
structure Away (s : Cdc) : Prop where
  window : windowOf s.runAt = none
  batch : batchOf s.runAt = none
  live : s.runAt ≠ .done
  settled : ∀ k i, s.runAt = .pending k i → (s.results i).isSome = true

/-- The callback that `run` is at was rejected. -/
def isRejected (s : Cdc) : Bool :=
  match s.runAt with
  | .pending _ i => !(s.results i).any Settled.isResolved
  | _ => false

/-- A step after which `run` does not go back to the handler of its batch. -/
def quits (s : Cdc) : CdcEvent → Bool
  | .retryDelay (.ok d) => d.isNone
  | .retryDelay (.error _) => true
  | .slept | .threw _ => s.stopping
  | .goesOn => s.stopping && s.isRejected
  | _ => false

/-- `s'` is past the callback that `s` was at: at its end, or at a retry of it. -/
structure Retry (of : Await → Prop) (quits : Prop) (s s' : Cdc) : Prop where
  control : Control s s'
  settled : ∀ k i, s.runAt = .pending k i → (s.results i).isSome = true
  idle : ∀ k i, s'.runAt ≠ .pending k i
  next : s'.runAt = .done ∧ quits ∨ of s'.runAt

inductive Change (o : ReplicateOptions) (s : Cdc) : CdcEvent → Cdc → Prop
  | plain {e : CdcEvent} {s' : Cdc} (v : Option SlotOrigin) (r : Option ReplId) (away : Away s)
      (gone : v = s.slot ∨ v = none) (plain : Plain { s with slot := v, repl := r } s') :
      Change o s e s'
  | rests {e : CdcEvent} {s' : Cdc} (control : Control s s') (same : s'.runAt = s.runAt) :
      Change o s e s'
  | foreign {e : CdcEvent} (v : Option SlotOrigin) (other : ∀ n, v ≠ some (.own n)) :
      Change o s e { s with slot := v }
  | called (k : Callback) (place : s.runAt = .calling k) :
      Change o s .called
        { s with current := some s.nextCall, nextCall := s.nextCall + 1
                 runAt := .pending k s.nextCall }
  | settled (k : Callback) (i : CallId) (r : Settled) (place : s.runAt = .pending k i)
      (fresh : s.results i = none) : Change o s (.settled r) (s.settleCall k i r)
  | window {e : CdcEvent} {s' : Cdc} (n : CreationId) (place : windowOf s.runAt = some n)
      (retry : Retry (windowOf · = some n) True s s') : Change o s e s'
  | read (n : CreationId) (i : CallId) (place : s.runAt = .pending (.backfill n) i)
      (resolved : (s.results i).any Settled.isResolved = true) :
      Change o s .goesOn { s with runAt := .starting }
  | handler {e : CdcEvent} {s' : Cdc} (b : Batch) (place : batchOf s.runAt = some b)
      (rejected : ∀ k i, s.runAt = .pending k i → (s.results i).any Settled.isResolved = false)
      (retry : Retry (batchOf · = some b) (quits s e = true) s s') : Change o s e s'
  | handled (b : Batch) (i : CallId) (place : s.runAt = .pending (.onTransaction b) i)
      (resolved : (s.results i).any Settled.isResolved = true) : Change o s .goesOn s.handlerDone
  | escapes {s' : Cdc} (x : CdcError)
      (place : (windowOf s.runAt).isSome = true ∨ (batchOf s.runAt).isSome = true)
      (idle : ∀ k i, s.runAt ≠ .pending k i) (survives : survives o s x = true)
      (plain : Plain s s') :
      Change o s (.retryDelay (.error x)) s'
  | created (place : s.runAt = .creating) : Change o s .created (s.created o)
  | lost (e : CdcError) (place : s.runAt = .creating) :
      Change o s (.createLost e) ((s.createSlot o).catchSession o e)
  | issued (place : s.runAt = .starting) :
      Change o s .startIssued
        { s with starts := if o.durableName.isSome then s.starts ++ s.slot.toList else s.starts
                 runAt := .streaming }
  | batch (b : Batch) (place : s.runAt = .streaming) : Change o s (.batch b) (s.receiveBatch o b)
  | stop {e : CdcEvent} : Change o s e s.callStop
  | stopContinues (i : CallId) (isHandling : Bool) (place : s.stopAt = .waiting i isHandling)
      (settled : (s.results i).isSome = true) :
      Change o s .stopContinues
        (s.stopContinues isHandling ((s.results i).any Settled.isResolved))

variable {o : ReplicateOptions} {s s' : Cdc} {e : CdcEvent}

theorem Away.of_runAt {a : Await} (h : s.runAt = a) (hw : windowOf a = none) (hb : batchOf a = none)
    (hd : a ≠ .done) (hi : ∀ k i, a ≠ .pending k i) : Away s where
  window := h ▸ hw
  batch := h ▸ hb
  live := h ▸ hd
  settled := fun k i hp => absurd (h ▸ hp) (hi k i)

theorem Change.plainly (away : Away s) (h : Plain s s') : Change o s e s' :=
  .plain s.slot s.repl away (.inl rfl) h

/-! ### Retries -/

/-- A place that is no pending call. -/
theorem pending_of_runAt {a : Await} {P : CallId → Prop} (h : s.runAt = a)
    (hi : ∀ k i, a ≠ .pending k i) : ∀ k i, s.runAt = .pending k i → P i :=
  fun k i hp => absurd (h ▸ hp) (hi k i)

theorem settled_of_runAt {a : Await} (h : s.runAt = a) (hi : ∀ k i, a ≠ .pending k i) :
    ∀ k i, s.runAt = .pending k i → (s.results i).isSome = true :=
  pending_of_runAt h hi

theorem Retry.of_cases {of : Await → Prop} {quits : Prop} {next : Await} (hc : Control s s')
    (hset : ∀ k i, s.runAt = .pending k i → (s.results i).isSome = true)
    (hi : ∀ k i, next ≠ .pending k i) (hof : of next)
    (h : s'.runAt = .done ∧ quits ∨ s'.runAt = next) : Retry of quits s s' where
  control := hc
  settled := hset
  idle := by
    intro k i hp
    obtain hd | hn := h
    · exact nomatch hd.1.symm.trans hp
    · exact hi k i (hn ▸ hp)
  next := by
    obtain hd | hn := h
    · exact .inl hd
    · exact .inr (by rw [hn]; exact hof)

theorem unlessStopping_retry {of : Await → Prop} {quits : Prop} {next : Cdc} (hc : Control s next)
    (hset : ∀ k i, s.runAt = .pending k i → (s.results i).isSome = true)
    (hi : ∀ k i, next.runAt ≠ .pending k i) (hof : of next.runAt) (hq : s.stopping = true → quits) :
    Retry of quits s (s.unlessStopping o next) := by
  refine .of_cases (unlessStopping_control hc) hset hi hof ?_
  obtain ⟨hd, hs⟩ | hn := unlessStopping_runAt o s next
  · exact .inl ⟨hd, hq hs⟩
  · exact .inr (congrArg runAt hn)

theorem delayed_retry {of : Await → Prop} {quits : Prop} {next : Await} {d : Option Nat}
    (x : CdcError) (hset : ∀ k i, s.runAt = .pending k i → (s.results i).isSome = true)
    (hi : ∀ k i, next ≠ .pending k i) (hof : of next) (hq : d = none → quits) :
    Retry of quits s (s.delayed o d x next) := by
  obtain ⟨hc, hnext⟩ := delayed_cases o s d x next
  exact .of_cases hc hset hi hof (hnext.imp_left fun h => ⟨h.1, hq h.2⟩)

/-- A session that does not survive `x` retries nothing. -/
theorem catchSession_retry {of : Await → Prop} {quits : Prop} {x : CdcError}
    (hset : ∀ k i, s.runAt = .pending k i → (s.results i).isSome = true)
    (hx : survives o s x = false) (hq : quits) : Retry of quits s (s.catchSession o x) where
  control := (catchSession_plain o s x).control
  settled := hset
  idle := (catchSession_plain o s x).idle
  next := .inl ⟨catchSession_done x hx, hq⟩

/-- A failed backfill is retried in its window, or the run is over. -/
theorem backfillFailed_retry {n : CreationId} (x : CdcError)
    (hset : ∀ k i, s.runAt = .pending k i → (s.results i).isSome = true) :
    Retry (windowOf · = some n) True s (s.backfillFailed o n x) := by
  unfold backfillFailed
  split
  · have hkind : ∀ ms, sessionError o (backfillTimeoutError ms) = backfillTimeoutError ms := by
      intro ms
      unfold sessionError
      split
      · exact if_neg fun h => by cases h.1
      · rfl
    refine catchSession_retry hset ?_ trivial
    rw [survives, hkind]
    exact Bool.and_false _
  · exact unlessStopping_retry (by constructor <;> rfl) hset (fun _ _ h => by cases h) rfl
      fun _ => trivial

/-- A callback that fails is settled, if it was called. -/
theorem callbackFailed_change (k : Callback) (x : CdcError)
    (hk : s.runAt = .calling k ∨ ∃ i e', s.runAt = .pending k i ∧
      s.results i = some (.rejected e'))
    (hq : s.stopping = true → quits s e = true) : Change o s e (s.callbackFailed o x k) := by
  have hset : ∀ k' i, s.runAt = .pending k' i → (s.results i).isSome = true := by
    intro k' i hp
    obtain hc | ⟨j, e', hj, hr⟩ := hk
    · rw [hc] at hp
      cases hp
    · rw [hj] at hp
      cases hp
      rw [hr]
      rfl
  have hrej : ∀ k' i, s.runAt = .pending k' i →
      (s.results i).any Settled.isResolved = false := by
    intro k' i hp
    obtain hc | ⟨j, e', hj, hr⟩ := hk
    · rw [hc] at hp
      cases hp
    · rw [hj] at hp
      cases hp
      rw [hr]
      rfl
  have hof : windowOf s.runAt = windowOf (.calling k) ∧ batchOf s.runAt = batchOf (.calling k) ∧
      s.runAt ≠ .done := by
    obtain hc | ⟨j, e', hj, hr⟩ := hk
    · rw [hc]
      exact ⟨rfl, rfl, fun h => nomatch h⟩
    · rw [hj]
      refine ⟨?_, ?_, fun h => nomatch h⟩ <;> cases k <;> rfl
  cases k with
  | onResume r => exact .plainly ⟨hof.1, hof.2.1, hof.2.2, hset⟩ (catchSession_plain o s x)
  | backfill n => exact .window n hof.1 (backfillFailed_retry x hset)
  | onTransaction b =>
    refine .handler b hof.2.1 hrej (unlessStopping_retry ?_ hset (fun _ _ h => nomatch h) rfl hq)
    constructor <;> rfl

/-! ### The steps -/

theorem goesOn_change (h : enabled o s .goesOn = true) : Change o s .goesOn (s.goesOn o) := by
  unfold goesOn
  cases hr : s.runAt with
  | pending k i =>
    have hsome : (s.results i).isSome = true := by simpa [enabled, hr] using h
    obtain ⟨r, hi⟩ := Option.isSome_iff_exists.mp hsome
    have hset : ∀ k' j, s.runAt = .pending k' j → (s.results j).isSome = true := by
      intro k' j hp
      rw [hr] at hp
      cases hp
      exact hsome
    dsimp only
    rw [hi]
    cases r with
    | resolved isRecreate =>
      have hres : (s.results i).any Settled.isResolved = true := by rw [hi]; rfl
      cases k with
      | onResume r =>
        refine .plainly ⟨by rw [hr]; rfl, by rw [hr]; rfl, ?_, hset⟩ (resumeDone_plain o s _ r)
        rw [hr]
        exact fun h => nomatch h
      | backfill n =>
        show Change o s .goesOn (s.backfillDone o n)
        unfold backfillDone
        split
        · exact .window n (by rw [hr]; rfl) (backfillFailed_retry _ hset)
        · exact .read n i hr hres
      | onTransaction b => exact .handled b i hr hres
    | rejected x =>
      have hrej : s.isRejected = true := by
        rw [isRejected, hr]
        dsimp only
        rw [hi]
        rfl
      refine callbackFailed_change k x (.inr ⟨i, x, hr, hi⟩) fun hs => ?_
      rw [quits, hs, hrej]
      rfl
  | _ => simp [enabled, hr] at h

theorem slept_change (h : enabled o s .slept = true) : Change o s .slept (s.slept o) := by
  unfold slept
  cases hr : s.runAt with
  | backfillSleep n =>
    refine .window n (by rw [hr]; rfl) (unlessStopping_retry ?_ ?_ ?_ rfl fun _ => trivial)
    · constructor <;> rfl
    · exact settled_of_runAt hr fun _ _ h => nomatch h
    · exact fun _ _ h => nomatch h
  | handlerSleep b =>
    refine .handler b (by rw [hr]; rfl) (pending_of_runAt hr fun _ _ h => nomatch h)
      (unlessStopping_retry ?_ ?_ ?_ rfl fun hs => hs)
    · constructor <;> rfl
    · exact settled_of_runAt hr fun _ _ h => nomatch h
    · exact fun _ _ h => nomatch h
  | pollSleep evictions pid =>
    exact .plainly (.of_runAt hr rfl rfl (fun h => nomatch h) fun _ _ h => nomatch h)
      (moved_plain rfl fun _ _ h => nomatch h)
  | recreateSleep =>
    exact .plainly (.of_runAt hr rfl rfl (fun h => nomatch h) fun _ _ h => nomatch h)
      (unlessStopping_plain (moved_plain rfl fun _ _ h => nomatch h))
  | dropSleep =>
    exact .plainly (.of_runAt hr rfl rfl (fun h => nomatch h) fun _ _ h => nomatch h)
      (moved_plain rfl fun _ _ h => nomatch h)
  | sessionSleep =>
    refine .plainly (.of_runAt hr rfl rfl (fun h => nomatch h) fun _ _ h => nomatch h) ?_
    dsimp only
    split
    · exact moved_plain rfl fun _ _ h => nomatch h
    · exact connect_plain s
  | _ => simp [enabled, hr] at h

theorem retryDelay_change (d : Except CdcError (Option Nat))
    (h : enabled o s (.retryDelay d) = true) :
    Change o s (.retryDelay d) (s.retryDelay o d) := by
  unfold retryDelay
  cases hr : s.runAt with
  | recreateDelay x =>
    refine .plainly (.of_runAt hr rfl rfl (fun h => nomatch h) fun _ _ h => nomatch h) ?_
    cases d with
    | error y => exact catchSession_plain o s y
    | ok d =>
      refine delayed_plain rfl ?_ d x
      exact fun _ _ h => nomatch h
  | sessionDelay x =>
    refine .plainly (.of_runAt hr rfl rfl (fun h => nomatch h) fun _ _ h => nomatch h) ?_
    cases d with
    | error y => exact giveUp_plain o s y
    | ok d =>
      refine delayed_plain rfl ?_ d x
      exact fun _ _ h => nomatch h
  | backfillDelay n x =>
    have hset := settled_of_runAt hr (by intro _ _ h; cases h)
    cases d with
    | error y =>
      cases hy : survives o s y with
      | true =>
        refine .escapes y (.inl (by rw [hr]; rfl)) ?_ hy (catchSession_plain o s y)
        rw [hr]
        exact fun _ _ h => nomatch h
      | false => exact .window n (by rw [hr]; rfl) (catchSession_retry hset hy trivial)
    | ok d =>
      refine .window n (by rw [hr]; rfl) (delayed_retry x hset ?_ rfl fun _ => trivial)
      exact fun _ _ h => nomatch h
  | handlerDelay b x =>
    have hset := settled_of_runAt hr (by intro _ _ h; cases h)
    have hrej : ∀ k i, s.runAt = .pending k i →
        (s.results i).any Settled.isResolved = false := pending_of_runAt hr (by intro _ _ h; cases h)
    cases d with
    | error y =>
      cases hy : survives o s y with
      | true =>
        refine .escapes y (.inr (by rw [hr]; rfl)) ?_ hy (catchSession_plain o s y)
        rw [hr]
        exact fun _ _ h => nomatch h
      | false => exact .handler b (by rw [hr]; rfl) hrej (catchSession_retry hset hy rfl)
    | ok d =>
      refine .handler b (by rw [hr]; rfl) hrej (delayed_retry x hset ?_ rfl fun hd => hd ▸ rfl)
      exact fun _ _ h => nomatch h
  | _ => simp [enabled, hr] at h

/-- **What a step can do.** -/
theorem step_change (h : enabled o s e = true) : Change o s e (step o s e) := by
  cases e with
  | start =>
    have hr : s.runAt = .microtask := by simpa [enabled] using h
    refine .plainly (.of_runAt hr rfl rfl (fun h => by cases h) fun _ _ h => by cases h) ?_
    show Plain s (if _ then _ else _)
    split
    · exact moved_plain rfl fun _ _ h => by cases h
    · exact connect_plain s
  | stop => exact .stop
  | abort => exact .stop
  | stopContinues =>
    cases hs : s.stopAt with
    | waiting i isHandling =>
      have hsome : (s.results i).isSome = true := by simpa [enabled, hs] using h
      have hstep : step o s .stopContinues =
          s.stopContinues isHandling ((s.results i).any Settled.isResolved) := by
        rw [step, hs]
      rw [hstep]
      exact .stopContinues i isHandling hs hsome
    | _ => simp [enabled, hs] at h
  | connected =>
    have hr : s.runAt = .connecting ∨ s.runAt = .reconnecting := by simpa [enabled] using h
    have haway : Away s := by
      obtain hr | hr := hr
      · exact .of_runAt hr rfl rfl (fun h => by cases h) fun _ _ h => by cases h
      · exact .of_runAt hr rfl rfl (fun h => by cases h) fun _ _ h => by cases h
    have hopen : Control { s with slot := s.slot, repl := some s.nextRepl } s.openRepl := by
      constructor <;> rfl
    exact .plain s.slot (some s.nextRepl) haway (.inl rfl) ((connected_plain o s).after hopen)
  | probed ms =>
    have hr : s.runAt = .probing := by simpa [enabled] using h
    exact .plainly (.of_runAt hr rfl rfl (fun h => by cases h) fun _ _ h => by cases h)
      (probed_plain o s ms)
  | identified system =>
    have hr : s.runAt = .identifying := by simpa [enabled] using h
    exact .plainly (.of_runAt hr rfl rfl (fun h => by cases h) fun _ _ h => by cases h)
      (identified_plain o _ s system)
  | health row =>
    cases hr : s.runAt with
    | readingHealth evictions =>
      have hstep : step o s (.health row) = s.readHealth o (o.durableName.getD "") evictions row := by
        rw [step, hr]
      rw [hstep]
      exact .plainly (.of_runAt hr rfl rfl (fun h => by cases h) fun _ _ h => by cases h)
        (readHealth_plain o _ s evictions row)
    | _ => simp [enabled, hr] at h
  | terminated =>
    cases hr : s.runAt with
    | terminating evictions pid =>
      have hstep : step o s .terminated = { s with runAt := .polling evictions pid } := by
        rw [step, hr]
      rw [hstep]
      exact .plainly (.of_runAt hr rfl rfl (fun h => by cases h) fun _ _ h => by cases h)
        (moved_plain rfl fun _ _ h => by cases h)
    | _ => simp [enabled, hr] at h
  | polled isActive isPastDeadline =>
    cases hr : s.runAt with
    | polling evictions pid =>
      have hstep : step o s (.polled isActive isPastDeadline) =
          s.polled o (o.durableName.getD "") evictions pid isActive isPastDeadline := by
        rw [step, hr]
      rw [hstep]
      exact .plainly (.of_runAt hr rfl rfl (fun h => by cases h) fun _ _ h => by cases h)
        (polled_plain o _ s evictions pid isActive isPastDeadline)
    | _ => simp [enabled, hr] at h
  | failed x =>
    refine .plainly ?_ (failed_plain o s x)
    cases hr : s.runAt with
    | calling k => simp [enabled, hr] at h
    | pending k i => simp [enabled, hr] at h
    | backfillDelay n x => simp [enabled, hr] at h
    | backfillSleep n => simp [enabled, hr] at h
    | handlerDelay b x => simp [enabled, hr] at h
    | handlerSleep b => simp [enabled, hr] at h
    | done => simp [enabled, hr] at h
    | _ => exact .of_runAt hr rfl rfl (fun h => by cases h) fun _ _ h => by cases h
  | slept => exact slept_change h
  | called =>
    cases hr : s.runAt with
    | calling k =>
      have hstep : step o s .called =
          { s with current := some s.nextCall, nextCall := s.nextCall + 1
                   runAt := .pending k s.nextCall } := by
        rw [step, hr]
      rw [hstep]
      exact .called k hr
    | _ => simp [enabled, hr] at h
  | threw x =>
    cases hr : s.runAt with
    | calling k =>
      have hstep : step o s (.threw x) = s.callbackFailed o x k := by
        rw [step, hr]
      rw [hstep]
      exact callbackFailed_change k x (.inl hr) fun hs => hs
    | _ => simp [enabled, hr] at h
  | settled r =>
    cases hr : s.runAt with
    | pending k i =>
      have hnone : s.results i = none := by simpa [enabled, hr] using h
      have hstep : step o s (.settled r) = s.settleCall k i r := by
        rw [step, hr]
      rw [hstep]
      exact .settled k i r hr hnone
    | _ => simp [enabled, hr] at h
  | goesOn => exact goesOn_change h
  | deadline => exact .rests (by constructor <;> rfl) rfl
  | retryDelay d => exact retryDelay_change d h
  | dropped =>
    have hr : s.runAt = .dropping := by simp_all [enabled]
    refine .plain none s.repl ?_ (.inr rfl) (dropped_plain o { s with slot := none })
    exact .of_runAt hr rfl rfl (fun h => by cases h) fun _ _ h => by cases h
  | dropLost x isPastDeadline =>
    have hr : s.runAt = .dropping := by simp_all [enabled]
    refine .plain none s.repl ?_ (.inr rfl) (dropFailed_plain o { s with slot := none } x _)
    exact .of_runAt hr rfl rfl (fun h => by cases h) fun _ _ h => by cases h
  | dropFailed x isPastDeadline =>
    have hr : s.runAt = .dropping := by simpa [enabled] using h
    exact .plainly (.of_runAt hr rfl rfl (fun h => by cases h) fun _ _ h => by cases h)
      (dropFailed_plain o s x isPastDeadline)
  | created =>
    have hr : s.runAt = .creating := by simp_all [enabled]
    exact .created hr
  | createLost x =>
    have hr : s.runAt = .creating := by simp_all [enabled]
    exact .lost x hr
  | startIssued =>
    have hr : s.runAt = .starting := by simp_all [enabled]
    exact .issued hr
  | startAccepted => exact .rests (settleReady_control s none) rfl
  | batch b =>
    have hr : s.runAt = .streaming := by simpa [enabled] using h
    exact .batch b hr
  | streamEnded =>
    have hr : s.runAt = .starting ∨ s.runAt = .streaming := by simp_all [enabled]
    refine .plainly ?_ (moved_plain rfl fun _ _ h => by cases h)
    obtain hr | hr := hr
    · exact .of_runAt hr rfl rfl (fun h => by cases h) fun _ _ h => by cases h
    · exact .of_runAt hr rfl rfl (fun h => by cases h) fun _ _ h => by cases h
  | slotDropped => exact .foreign none fun n h => by cases h
  | slotMade => exact .foreign (some .foreign) fun n h => by cases h

end Cdc

end Minipg
