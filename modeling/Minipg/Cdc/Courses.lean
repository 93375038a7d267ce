import Minipg.Cdc.Control

/-!
# Where a session goes

`Course o s e s'` says once what the event `e` makes of the fate of the handle and of the recreation
of its slot: the session ends, gives up or goes on, it may create its slot or decide to recreate
it.  What the event decides is read off the event and the state before it (`decides`, `creates`).
-/

namespace Minipg

namespace Cdc

/-- The fate of the handle, and what it remembers of its slot, are the same. -/
structure Keeps (s s' : Cdc) : Prop where
  stopping : s'.stopping = s.stopping
  fatalFired : s'.fatalFired = s.fatalFired
  fatals : s'.fatals = s.fatals
  sessions : s'.sessions = s.sessions
  sawSlot : s'.sawSlot = s.sawSlot
  lastSystem : s'.lastSystem = s.lastSystem

theorem Keeps.refl (s : Cdc) : Keeps s s := by
  constructor <;> rfl

theorem Keeps.trans {s s' s'' : Cdc} (h : Keeps s s') (g : Keeps s' s'') : Keeps s s'' :=
  ⟨g.stopping.trans h.stopping, g.fatalFired.trans h.fatalFired, g.fatals.trans h.fatals,
    g.sessions.trans h.sessions, g.sawSlot.trans h.sawSlot, g.lastSystem.trans h.lastSystem⟩

/-- `onFatalError` is called with `x`, if it was not called before. -/
structure Fires (o : ReplicateOptions) (x : CdcError) (s s' : Cdc) : Prop where
  place : s'.runAt = .done
  fatalFired : s'.fatalFired = true
  fatals : s'.fatals = if s.fatalFired || !o.hasOnFatalError then s.fatals else s.fatals ++ [x]
  sessions : s'.sessions = s.sessions

/-- `run` waits between a decision to recreate the slot and its drop. -/
def isRecreating : Await → Bool
  | .recreateDelay _ | .recreateSleep | .dropping | .dropSleep => true
  | _ => false

/-- `run` goes on, and neither creates the slot nor recreates it. -/
def isOrdinary : Await → Bool
  | .recreateDelay _ | .recreateSleep | .dropping | .dropSleep | .creating | .done => false
  | _ => true

/-- What becomes of a session; `creates` and `decides` are what allows it to go to its slot. -/
inductive Goes (o : ReplicateOptions) (creates decides : Prop) (s s' : Cdc) : Prop
  | ends (keeps : Keeps s s') (stopping : s.stopping = true) (place : s'.runAt = .done)
  | fires (x : CdcError) (live : s.stopping = false) (fires : Fires o x s s')
  | on (keeps : Keeps s s') (recreate : s'.recreate = s.recreate)
      (place : isOrdinary s'.runAt = true)
  | creates (may : creates) (keeps : Keeps s s') (recreate : s'.recreate = s.recreate)
      (place : s'.runAt = .creating)
  | decides (why : decides ∨ s.recreate.isSome = true) (keeps : Keeps s s')
      (recreate : s'.recreate.isSome = true) (place : isRecreating s'.runAt = true)

variable {o : ReplicateOptions} {s s' t : Cdc} {C D C' D' : Prop}

theorem Goes.imp (h : Goes o C D s s') (hC : C → C') (hD : D → D') : Goes o C' D' s s' := by
  cases h with
  | ends keeps stopping place => exact .ends keeps stopping place
  | fires x live fires => exact .fires x live fires
  | on keeps recreate place => exact .on keeps recreate place
  | creates may keeps recreate place => exact .creates (hC may) keeps recreate place
  | decides why keeps recreate place => exact .decides (why.imp_left hD) keeps recreate place

theorem Fires.after {x : CdcError} (h : Fires o x t s') (k : Keeps s t) : Fires o x s s' where
  place := h.place
  fatalFired := h.fatalFired
  fatals := by rw [h.fatals, k.fatalFired, k.fatals]
  sessions := h.sessions.trans k.sessions

theorem Goes.after (h : Goes o C D t s') (k : Keeps s t) (hr : t.recreate = s.recreate) :
    Goes o C D s s' := by
  cases h with
  | ends keeps stopping place => exact .ends (k.trans keeps) (k.stopping.symm.trans stopping) place
  | fires x live fires => exact .fires x (k.stopping.symm.trans live) (fires.after k)
  | on keeps recreate place => exact .on (k.trans keeps) (recreate.trans hr) place
  | creates may keeps recreate place =>
    exact .creates may (k.trans keeps) (recreate.trans hr) place
  | decides why keeps recreate place => exact .decides (hr ▸ why) (k.trans keeps) recreate place

/-! ### The ways out -/

theorem giveUp_fires (o : ReplicateOptions) (s : Cdc) (x : CdcError) :
    Fires o x s (s.giveUp o x) := by
  unfold giveUp fireFatal
  cases hf : s.fatalFired with
  | true => exact ⟨rfl, hf, by simp [hf], rfl⟩
  | false =>
    refine ⟨rfl, rfl, ?_, rfl⟩
    cases o.hasOnFatalError <;> simp [settleReady, hf]

theorem settleReady_keeps (s : Cdc) (r : Option CdcError) : Keeps s (s.settleReady r) := by
  constructor <;> rfl

theorem catchSession_goes (s : Cdc) (x : CdcError) : Goes o C D s (s.catchSession o x) := by
  unfold catchSession
  by_cases hs : s.stopping = true
  · rw [if_pos hs]
    exact .ends (by constructor <;> rfl) hs rfl
  · rw [if_neg hs]
    dsimp only
    split
    · exact .fires _ (by simpa using hs) ((giveUp_fires o _ _).after (settleReady_keeps s _))
    · exact .on (by constructor <;> rfl) rfl rfl

theorem unlessStopping_goes (h : Goes o C D s s') : Goes o C D s (s.unlessStopping o s') := by
  unfold unlessStopping
  split
  · exact catchSession_goes s stopError
  · exact h

/-- `run` waits somewhere else in its session. -/
theorem moved_goes {a : Await} (h : isOrdinary a = true) : Goes o C D s { s with runAt := a } :=
  .on (by constructor <;> rfl) rfl h

/-! ### The slot -/

theorem beginSlot_goes (h : C) (s : Cdc) : Goes o C D s s.beginSlot := by
  unfold beginSlot
  split
  · rename_i x hx
    exact .decides (.inr (by rw [hx]; rfl)) (by constructor <;> rfl) (by rw [hx]; rfl) rfl
  · exact .creates h (by constructor <;> rfl) rfl rfl

theorem recreate_goes (h : D) (s : Cdc) (x : CdcError) :
    Goes o C D s { s with recreate := some x }.beginSlot :=
  .decides (.inl h) (by constructor <;> rfl) rfl rfl

theorem durableFailed_goes {x : CdcError} (h : o.isRecreatable x = true → D) :
    Goes o C D s (s.durableFailed o x) := by
  unfold durableFailed
  split
  · exact unlessStopping_goes (recreate_goes (h ‹_›) s x)
  · exact catchSession_goes s x

theorem beginSession_goes (h : o.durableName = none → C) (s : Cdc) :
    Goes o C D s (s.beginSession o) := by
  unfold beginSession
  split
  · exact moved_goes rfl
  · exact unlessStopping_goes (beginSlot_goes (h ‹_›) s)

theorem not_recreatable {x : CdcError} (h : ∀ c, x.kind ≠ .slotInvalidated c) :
    o.isRecreatable x ≠ true := by
  unfold ReplicateOptions.isRecreatable
  split
  · exact absurd ‹_› (h _)
  · exact Bool.false_ne_true

/-- What a recreatable error says of the options. -/
theorem recreates_of_recreatable {x : CdcError} (h : o.isRecreatable x = true) :
    o.recreatesInvalidated = true := by
  unfold ReplicateOptions.isRecreatable at h
  split at h
  · exact (Bool.and_eq_true_iff.mp h).2
  · cases h

/-- The memory after an answer of IDENTIFY_SYSTEM. -/
def remembers (s : Cdc) (system : String × Nat) : Cdc :=
  if s.lastSystem.any (· ≠ system) then s else { s with lastSystem := some system }

/-- The memory after a look at the slot. -/
def lookedAt (s : Cdc) (row : Option SlotHealthRow) : Cdc :=
  if row.isSome ∧ s.stopping = false then { s with sawSlot := true } else s

theorem identified_goes (o : ReplicateOptions) (name : String) (s : Cdc) (system : String × Nat) :
    Goes o False False (s.remembers system) (s.identified o name system) := by
  unfold identified remembers
  split
  · refine durableFailed_goes fun h => ?_
    simp [ReplicateOptions.isRecreatable, slotInvalidatedError] at h
  · dsimp only
    split
    · exact durableFailed_goes fun h => absurd h (not_recreatable (by simp [stopError]))
    · exact moved_goes rfl

/-- **A changed system ends the handle.** -/
theorem identified_changed {name : String} {system : String × Nat}
    (h : s.lastSystem.any (· ≠ system) = true) : (s.identified o name system).runAt = .done := by
  have hx : o.isRecreatable (slotInvalidatedError name .systemChanged) = false := by
    simp [ReplicateOptions.isRecreatable, slotInvalidatedError]
  have hsame : sessionError o (slotInvalidatedError name .systemChanged) =
      slotInvalidatedError name .systemChanged := by
    unfold sessionError
    split
    · exact if_neg (by simp [slotInvalidatedError])
    · rfl
  unfold identified durableFailed
  rw [if_pos h, if_neg (by simp [hx])]
  apply catchSession_done
  rw [survives, hsame, hx]
  exact Bool.and_false _

theorem resume_goes (o : ReplicateOptions) (s : Cdc) (r : Resumed) :
    Goes o C D s (s.resume o r) := by
  unfold resume
  apply unlessStopping_goes
  split
  · exact moved_goes rfl
  · exact moved_goes rfl

/-- What a look at the slot shows: it is gone, or unusable. -/
def showsInvalid (s : Cdc) : Option SlotHealthRow → Prop
  | none => s.sawSlot = true
  | some r => r.isLost = true ∨ r.confirmedFlush = none

theorem readHealth_goes (o : ReplicateOptions) (name : String) (s : Cdc) (evictions : Nat)
    (row : Option SlotHealthRow) :
    Goes o (row = none ∧ s.sawSlot = false) (o.recreatesInvalidated = true ∧ s.showsInvalid row)
      (s.lookedAt row) (s.readHealth o name evictions row) := by
  have hbusy : ∀ pid, o.isRecreatable (slotBusyError name pid) ≠ true := fun pid =>
    not_recreatable (by simp [slotBusyError])
  unfold readHealth lookedAt
  by_cases hs : s.stopping = true
  · rw [if_pos hs, if_neg (by simp [hs])]
    exact durableFailed_goes fun h => absurd h (not_recreatable (by simp [stopError]))
  · rw [if_neg hs]
    cases row with
    | none =>
      rw [if_neg (by simp)]
      dsimp only
      split
      · exact durableFailed_goes fun h => ⟨recreates_of_recreatable h, ‹_›⟩
      · rename_i hsaw
        exact unlessStopping_goes (beginSlot_goes ⟨rfl, by simpa using hsaw⟩ s)
    | some r =>
      rw [if_pos ⟨rfl, by simpa using hs⟩]
      dsimp only
      split
      · exact durableFailed_goes fun h => ⟨recreates_of_recreatable h, .inl ‹_›⟩
      · split
        · exact durableFailed_goes fun h => ⟨recreates_of_recreatable h, .inr ‹_›⟩
        · split
          · split
            · exact durableFailed_goes fun h => absurd h (hbusy _)
            · split
              · exact durableFailed_goes fun h => absurd h (hbusy _)
              · exact moved_goes rfl
          · exact resume_goes o _ _

theorem polled_goes (o : ReplicateOptions) (name : String) (s : Cdc) (evictions : Nat) (pid : Pid)
    (isActive : Option Bool) (isPastDeadline : Bool) :
    Goes o False (o.recreatesInvalidated = true ∧ isActive = none) s
      (s.polled o name evictions pid isActive isPastDeadline) := by
  unfold polled
  split
  · exact durableFailed_goes fun h => ⟨recreates_of_recreatable h, rfl⟩
  · split
    · exact durableFailed_goes fun h => absurd h (not_recreatable (by simp [stopError]))
    · exact moved_goes rfl
  · split
    · exact durableFailed_goes fun h => absurd h (not_recreatable (by simp [slotBusyError]))
    · exact moved_goes rfl

theorem dropped_goes (o : ReplicateOptions) (s : Cdc) : Goes o True D s (s.dropped o) :=
  unlessStopping_goes (.creates trivial (by constructor <;> rfl) rfl rfl)

/-- The slot to be dropped was missing. -/
def isMissing (x : CdcError) : Bool := x.kind = .pg ∧ x.code = some "42704"

/-- A slot that cannot be dropped yet is tried again. -/
theorem dropFailed_goes (o : ReplicateOptions) (s : Cdc) (x : CdcError) (isPastDeadline : Bool) :
    Goes o (isMissing x = true) D s (s.dropFailed o x isPastDeadline) ∨
      s.dropFailed o x isPastDeadline = { s with runAt := .dropSleep } := by
  unfold dropFailed
  split
  · rename_i hx
    exact .inl ((dropped_goes o s).imp (fun _ => decide_eq_true hx) id)
  · split
    · exact .inr rfl
    · exact .inl (catchSession_goes s x)

theorem connected_goes (o : ReplicateOptions) (s : Cdc) :
    Goes o (o.durableName = none) D s (s.connected o) := by
  have hopen : Keeps s s.openRepl := by constructor <;> rfl
  unfold connected
  refine Goes.after (unlessStopping_goes ?_) hopen rfl
  split
  · have hset : Keeps s.openRepl { s.openRepl with derivedKeepAlive := true } := by
      constructor <;> rfl
    exact (beginSession_goes id _).after hset rfl
  · exact moved_goes rfl

theorem probed_goes (o : ReplicateOptions) (s : Cdc) (ms : Option Nat) :
    Goes o (o.durableName = none) D s (s.probed o ms) := by
  unfold probed
  apply unlessStopping_goes
  split
  · exact moved_goes rfl
  · have hset : Keeps s { s with derivedKeepAlive := ms == some 0 && !o.setsKeepAlive } := by
      constructor <;> rfl
    exact (beginSession_goes id _).after hset rfl

theorem healthError_recreatable {x : CdcError} (h : o.isRecreatable (healthError x) = true) :
    o.isRecreatable x = true := by
  unfold healthError at h
  split at h
  · exact absurd h (not_recreatable (by simp [unsupportedServerVersionError]))
  · exact h

theorem failed_goes (o : ReplicateOptions) (s : Cdc) (x : CdcError) :
    Goes o False (o.isRecreatable x = true) s (s.failed o x) := by
  unfold failed
  split
  · exact durableFailed_goes id
  · exact durableFailed_goes id
  · exact durableFailed_goes id
  · exact durableFailed_goes healthError_recreatable
  · exact catchSession_goes s x

/-! ### Callbacks -/

theorem created_goes (o : ReplicateOptions) (s : Cdc) :
    Goes o False False { s with sawSlot := s.sawSlot || o.durableName.isSome } (s.created o) := by
  have hset : Keeps { s with sawSlot := s.sawSlot || o.durableName.isSome }
      { s.createSlot o with sawSlot := s.sawSlot || o.durableName.isSome } := by
    constructor <;> rfl
  unfold created
  refine Goes.after (unlessStopping_goes ?_) hset rfl
  exact .on (by constructor <;> rfl) rfl rfl

theorem backfillFailed_goes (n : CreationId) (x : CdcError) :
    Goes o C D s (s.backfillFailed o n x) := by
  unfold backfillFailed
  split
  · exact catchSession_goes s _
  · exact unlessStopping_goes (.on (by constructor <;> rfl) rfl rfl)

theorem callbackFailed_goes (k : Callback) (x : CdcError) :
    Goes o C D s (s.callbackFailed o x k) := by
  cases k with
  | onResume => exact catchSession_goes s x
  | backfill n => exact backfillFailed_goes n x
  | onTransaction b => exact unlessStopping_goes (.on (by constructor <;> rfl) rfl rfl)

theorem ackPending_keeps (s : Cdc) : Keeps s s.ackPending ∧ s.ackPending.recreate = s.recreate := by
  unfold ackPending ack
  split
  · split <;> exact ⟨by constructor <;> rfl, rfl⟩
  · exact ⟨.refl s, rfl⟩

theorem handlerDone_goes (s : Cdc) : Goes o C D s s.handlerDone := by
  unfold handlerDone
  dsimp only
  split
  · obtain ⟨hk, hr⟩ := ackPending_keeps s
    exact .on (hk.trans (by constructor <;> rfl)) hr rfl
  · exact .on (by constructor <;> rfl) rfl rfl

theorem callbackDone_goes (isRecreate : Bool) (k : Callback) :
    Goes o C (isRecreate = true ∧ ∃ r, k = .onResume r) s (s.callbackDone o isRecreate k) := by
  cases k with
  | onResume r =>
    show Goes o C _ s (if _ then _ else _)
    split
    · exact recreate_goes ⟨‹_›, r, rfl⟩ s recreateVerdict
    · exact moved_goes rfl
  | backfill n =>
    show Goes o C _ s (s.backfillDone o n)
    unfold backfillDone
    split
    · exact backfillFailed_goes n _
    · exact moved_goes rfl
  | onTransaction b => exact handlerDone_goes s

theorem receiveBatch_goes (b : Batch) : Goes o C D s (s.receiveBatch o b) :=
  unlessStopping_goes (.on (by constructor <;> rfl) rfl rfl)

/-! ### The steps -/

/-- What an answer leaves in the memory of the handle. -/
def observe (o : ReplicateOptions) (s : Cdc) : CdcEvent → Cdc
  | .identified system => s.remembers system
  | .health row => s.lookedAt row
  | .created => { s with sawSlot := s.sawSlot || o.durableName.isSome }
  | _ => s

theorem observe_eq (o : ReplicateOptions) (s : Cdc) (e : CdcEvent) :
    ∃ saw system, s.observe o e = { s with sawSlot := saw, lastSystem := system } := by
  cases e with
  | identified system =>
    show ∃ saw system', s.remembers system = _
    unfold remembers
    split
    · exact ⟨s.sawSlot, s.lastSystem, rfl⟩
    · exact ⟨s.sawSlot, some system, rfl⟩
  | health row =>
    show ∃ saw system', s.lookedAt row = _
    unfold lookedAt
    split
    · exact ⟨true, s.lastSystem, rfl⟩
    · exact ⟨s.sawSlot, s.lastSystem, rfl⟩
  | created => exact ⟨_, s.lastSystem, rfl⟩
  | _ => exact ⟨s.sawSlot, s.lastSystem, rfl⟩

/-- An event after which the slot may be created. -/
def createsAt (o : ReplicateOptions) (s : Cdc) : CdcEvent → Bool
  | .connected | .probed _ => o.durableName.isNone
  | .health row => row.isNone && !s.sawSlot
  | .dropped => true
  | .dropLost x _ | .dropFailed x _ => isMissing x
  | _ => false

/-- The promise of `onResume` has resolved to a verdict of `'recreate'`. -/
def hasVerdict (s : Cdc) : Bool :=
  match s.runAt with
  | .pending (.onResume _) i => s.results i == some (.resolved true)
  | _ => false

/-- An event that decides to recreate the slot. -/
def decidesAt (o : ReplicateOptions) (s : Cdc) : CdcEvent → Bool
  | .health none => o.recreatesInvalidated && s.sawSlot
  | .health (some r) => o.recreatesInvalidated && (r.isLost || r.confirmedFlush.isNone)
  | .polled isActive _ => o.recreatesInvalidated && isActive.isNone
  | .failed x => o.isRecreatable x
  | .goesOn => s.hasVerdict
  | _ => false

/-- `retryDelayMs` gives up, or throws where nothing catches it. -/
def givesUp (s : Cdc) : CdcEvent → Bool
  | .retryDelay (.ok d) => d.isNone
  | .retryDelay (.error _) =>
    match s.runAt with
    | .sessionDelay _ => true
    | _ => false
  | _ => false

/-- An answer that the handle remembers. -/
def isAnswer : CdcEvent → Bool
  | .identified _ | .health _ | .created => true
  | _ => false

inductive Course (o : ReplicateOptions) (s : Cdc) (e : CdcEvent) (s' : Cdc) : Prop
  | goes (g : Goes o (createsAt o s e = true) (decidesAt o s e = true) (s.observe o e) s')
  | rests (silent : isAnswer e = false) (keeps : Keeps s s') (recreate : s'.recreate = s.recreate)
      (place : s'.runAt = s.runAt)
  | stops (silent : isAnswer e = false) (h : s' = s.callStop)
  | connects (silent : isAnswer e = false) (live : s.stopping = false) (h : s' = s.connect)
  | givesUp (why : s.givesUp e = true) (x : CdcError) (h : s' = s.giveUp o x)
  | drops (silent : isAnswer e = false) (was : isRecreating s.runAt = true) (keeps : Keeps s s')
      (recreate : s'.recreate = s.recreate) (place : isRecreating s'.runAt = true)

variable {e : CdcEvent}

/-- An event that observes, creates and decides nothing. -/
theorem Course.quiet (g : Goes o False False s s') (h : s.observe o e = s) : Course o s e s' :=
  .goes (h.symm ▸ g.imp False.elim False.elim)

theorem goesOn_course (h : enabled o s .goesOn = true) : Course o s .goesOn (s.goesOn o) := by
  unfold goesOn
  cases hr : s.runAt with
  | pending k i =>
    obtain ⟨r, hi⟩ : ∃ r, s.results i = some r := by
      simpa [enabled, hr, Option.isSome_iff_exists] using h
    dsimp only
    rw [hi]
    cases r with
    | resolved isRecreate =>
      refine .goes ((callbackDone_goes isRecreate k).imp False.elim fun hd => ?_)
      obtain ⟨rfl, r, rfl⟩ := hd
      simp [decidesAt, hasVerdict, hr, hi]
    | rejected x => exact .quiet (callbackFailed_goes k x) rfl
  | _ => simp [enabled, hr] at h

theorem slept_course (h : enabled o s .slept = true) : Course o s .slept (s.slept o) := by
  unfold slept
  cases hr : s.runAt with
  | pollSleep evictions pid => exact .quiet (moved_goes rfl) rfl
  | recreateSleep =>
    dsimp only
    unfold unlessStopping
    split
    · exact .quiet (catchSession_goes s stopError) rfl
    · exact .drops rfl (by rw [hr]; rfl) (by constructor <;> rfl) rfl rfl
  | dropSleep => exact .drops rfl (by rw [hr]; rfl) (by constructor <;> rfl) rfl rfl
  | backfillSleep n => exact .quiet (unlessStopping_goes (moved_goes rfl)) rfl
  | handlerSleep b => exact .quiet (unlessStopping_goes (moved_goes rfl)) rfl
  | sessionSleep =>
    dsimp only
    split
    · exact .quiet (.ends (by constructor <;> rfl) ‹_› rfl) rfl
    · exact .connects rfl (Bool.eq_false_iff.mpr ‹_›) rfl
  | _ => simp [enabled, hr] at h

theorem retryDelay_course (d : Except CdcError (Option Nat))
    (h : enabled o s (.retryDelay d) = true) :
    Course o s (.retryDelay d) (s.retryDelay o d) := by
  unfold retryDelay delayed
  cases d with
  | error x =>
    cases hr : s.runAt with
    | recreateDelay e => exact .quiet (catchSession_goes s x) rfl
    | backfillDelay n e => exact .quiet (catchSession_goes s x) rfl
    | handlerDelay b e => exact .quiet (catchSession_goes s x) rfl
    | sessionDelay e => exact .givesUp (by simp [givesUp, hr]) x rfl
    | _ => simp [enabled, hr] at h
  | ok d =>
    cases d with
    | none =>
      cases hr : s.runAt with
      | recreateDelay e => exact .givesUp rfl e rfl
      | backfillDelay n e => exact .givesUp rfl e rfl
      | handlerDelay b e => exact .givesUp rfl e rfl
      | sessionDelay e => exact .givesUp rfl e rfl
      | _ => simp [enabled, hr] at h
    | some ms =>
      cases hr : s.runAt with
      | recreateDelay e => exact .drops rfl (by rw [hr]; rfl) (by constructor <;> rfl) rfl rfl
      | backfillDelay n e => exact .quiet (moved_goes rfl) rfl
      | handlerDelay b e => exact .quiet (moved_goes rfl) rfl
      | sessionDelay e => exact .quiet (moved_goes rfl) rfl
      | _ => simp [enabled, hr] at h

/-- A drop that the server executed, or not. -/
theorem dropFailed_course {v : Option SlotOrigin} {x : CdcError} (isPastDeadline : Bool)
    (hr : s.runAt = .dropping) (hc : createsAt o s e = isMissing x) (ho : s.observe o e = s) (hs : isAnswer e = false) :
    Course o s e ({ s with slot := v }.dropFailed o x isPastDeadline) := by
  have hset : Keeps s { s with slot := v } := by constructor <;> rfl
  rcases dropFailed_goes o { s with slot := v } x isPastDeadline with hg | hg
  · exact .goes (ho.symm ▸ (hg.after hset rfl).imp (fun hm => hc.trans hm) False.elim)
  · rw [hg]
    exact .drops hs (by rw [hr]; rfl) (by constructor <;> rfl) rfl rfl

/-- **What a step makes of the fate of the handle and of its slot.** -/
theorem step_course (h : enabled o s e = true) : Course o s e (step o s e) := by
  cases e with
  | start =>
    show Course o s .start (if _ then _ else _)
    split
    · exact .quiet (.ends (by constructor <;> rfl) ‹_› rfl) rfl
    · exact .connects rfl (Bool.eq_false_iff.mpr ‹_›) rfl
  | stop => exact .stops rfl rfl
  | abort => exact .stops rfl rfl
  | stopContinues =>
    cases hs : s.stopAt with
    | waiting i isHandling =>
      have hstep : step o s .stopContinues =
          s.stopContinues isHandling ((s.results i).any Settled.isResolved) := by
        rw [step, hs]
      obtain ⟨hk, hr⟩ := ackPending_keeps s
      rw [hstep]
      unfold stopContinues
      split
      · split
        · have hplace : s.ackPending.runAt = s.runAt := by
            unfold ackPending ack
            split
            · split <;> rfl
            · rfl
          exact .rests rfl (hk.trans (by constructor <;> rfl)) hr hplace
        · exact .rests rfl (by constructor <;> rfl) rfl rfl
      · exact .rests rfl (by constructor <;> rfl) rfl rfl
    | _ => simp [enabled, hs] at h
  | connected => exact .goes ((connected_goes o s).imp (fun hn => by simp [createsAt, hn]) id)
  | probed ms => exact .goes ((probed_goes o s ms).imp (fun hn => by simp [createsAt, hn]) id)
  | identified system =>
    exact .goes ((identified_goes o _ s system).imp False.elim False.elim)
  | health row =>
    cases hr : s.runAt with
    | readingHealth evictions =>
      have hstep : step o s (.health row) =
          s.readHealth o (o.durableName.getD "") evictions row := by
        rw [step, hr]
      rw [hstep]
      refine .goes ((readHealth_goes o _ s evictions row).imp (fun hc => ?_) fun hd => ?_)
      · simp [createsAt, hc.1, hc.2]
      · cases row with
        | none =>
          have hsaw : s.sawSlot = true := hd.2
          simp [decidesAt, hd.1, hsaw]
        | some r =>
          have hinvalid : r.isLost = true ∨ r.confirmedFlush = none := hd.2
          rcases hinvalid with hl | hl
          · simp [decidesAt, hd.1, hl]
          · simp [decidesAt, hd.1, hl]
    | _ => simp [enabled, hr] at h
  | terminated =>
    cases hr : s.runAt with
    | terminating evictions pid =>
      have hstep : step o s .terminated = { s with runAt := .polling evictions pid } := by
        rw [step, hr]
      rw [hstep]
      exact .quiet (moved_goes rfl) rfl
    | _ => simp [enabled, hr] at h
  | polled isActive isPastDeadline =>
    cases hr : s.runAt with
    | polling evictions pid =>
      have hstep : step o s (.polled isActive isPastDeadline) =
          s.polled o (o.durableName.getD "") evictions pid isActive isPastDeadline := by
        rw [step, hr]
      rw [hstep]
      refine .goes ((polled_goes o _ s evictions pid isActive isPastDeadline).imp False.elim
        fun hd => ?_)
      simp [decidesAt, hd.1, hd.2]
    | _ => simp [enabled, hr] at h
  | failed x => exact .goes ((failed_goes o s x).imp False.elim id)
  | slept => exact slept_course h
  | called =>
    cases hr : s.runAt with
    | calling k =>
      have hstep : step o s .called = { s with
          current := some s.nextCall, nextCall := s.nextCall + 1
          runAt := .pending k s.nextCall } := by
        rw [step, hr]
      rw [hstep]
      exact .quiet (.on (by constructor <;> rfl) rfl rfl) rfl
    | _ => simp [enabled, hr] at h
  | threw x =>
    cases hr : s.runAt with
    | calling k =>
      have hstep : step o s (.threw x) = s.callbackFailed o x k := by
        rw [step, hr]
      rw [hstep]
      exact .quiet (callbackFailed_goes k x) rfl
    | _ => simp [enabled, hr] at h
  | settled r =>
    cases hr : s.runAt with
    | pending k i =>
      have hstep : step o s (.settled r) = s.settleCall k i r := by
        rw [step, hr]
      rw [hstep]
      unfold settleCall
      dsimp only
      split
      · cases k <;> exact .rests rfl (by constructor <;> rfl) rfl rfl
      · exact .rests rfl (by constructor <;> rfl) rfl rfl
    | _ => simp [enabled, hr] at h
  | goesOn => exact goesOn_course h
  | deadline => exact .rests rfl (by constructor <;> rfl) rfl rfl
  | retryDelay d => exact retryDelay_course d h
  | dropped =>
    have hset : Keeps s { s with slot := none } := by constructor <;> rfl
    exact .goes (((dropped_goes o { s with slot := none }).after hset rfl).imp (fun _ => rfl) id)
  | dropLost x isPastDeadline =>
    have hr : s.runAt = .dropping := by simpa [enabled] using (Bool.and_eq_true_iff.mp h).1
    exact dropFailed_course isPastDeadline hr rfl rfl rfl
  | dropFailed x isPastDeadline =>
    have hr : s.runAt = .dropping := by simpa [enabled] using h
    exact dropFailed_course isPastDeadline hr rfl rfl rfl
  | created => exact .goes ((created_goes o s).imp False.elim False.elim)
  | createLost x =>
    have hset : Keeps s (s.createSlot o) := by constructor <;> rfl
    exact .quiet ((catchSession_goes (s.createSlot o) x).after hset rfl) rfl
  | startIssued => exact .quiet (.on (by constructor <;> rfl) rfl rfl) rfl
  | startAccepted => exact .rests rfl (by constructor <;> rfl) rfl rfl
  | batch b => exact .quiet (receiveBatch_goes b) rfl
  | streamEnded =>
    have hs : s.stopping = true := (Bool.and_eq_true_iff.mp h).2
    exact .quiet (.ends (by constructor <;> rfl) hs rfl) rfl
  | slotDropped => exact .rests rfl (by constructor <;> rfl) rfl rfl
  | slotMade => exact .rests rfl (by constructor <;> rfl) rfl rfl

end Cdc

end Minipg
