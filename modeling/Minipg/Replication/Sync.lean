import Minipg.Replication.Owed

/-!
# A replication connection stays in sync

Every end of a stream leaves a connection that is tidy, or one whose copy is open and owes the rest
of its answer.  The next call of either kind drains what is owed before it asks, so that each wait
reads the answer to its own request (`Synced.step`, `stays_in_sync`).
-/

namespace Minipg.Walsender

namespace Driver

def inFlight (s : Driver) : List Message := s.queue ++ s.wire

def Owing (s : Driver) (n : Request) (g : Stage) : Prop := Owed n g s.server s.inbox s.inFlight

def Settled (s : Driver) : Prop := Tidy s.server s.inbox s.inFlight

/-- The server has left the copy of `n`, or the CopyDone that ends it is on its way. -/
def Ends (s : Driver) (n : Request) : Prop := s.server = .copying n → .copyDone ∈ s.inbox

/-- Between two requests. -/
def Between (s : Driver) : Prop :=
  if s.copyOpen then s.Owing s.stream .opened else s.Settled

/-- What is owed in each phase. -/
def Fits (s : Driver) : Prop :=
  match s.phase with
  | .idle => s.Between
  | .exiting n _ | .handshake n | .spent n => s.copyOpen = false ∧ s.Owing n .opened ∧ s.Ends n
  | .running _ n _ => s.copyOpen = false ∧ s.Owing n .plain
  | .setup n _ => s.copyOpen = false ∧ s.Owing n .start
  | .copying n | .yielded n => s.copyOpen = true ∧ s.stream = n ∧ s.Owing n .opened

end Driver

def Job.isStream : Job → Bool
  | .command => false
  | .start _ => true

/-- The phases between the first `next()` of a stream and its end. -/
def Phase.isStream : Phase → Bool
  | .idle => false
  | .exiting _ job | .running job _ _ => job.isStream
  | .setup _ _ | .copying _ | .yielded _ | .handshake _ | .spent _ => true

/-- Every message was read for the request that it answers. -/
def Own (read : List (Message × Request)) : Prop :=
  ∀ r ∈ read, r.1.kind = .other ∨ r.1.owner = r.2

structure Synced (s : Driver) : Prop where
  fits : s.Fits
  streaming : s.streaming = s.phase.isStream
  own : Own s.read

namespace Driver

variable {s : Driver} {n : Request} {g : Stage} {m : Message} {rest : List Message} {job : Job}
  {choice : Choice} {r : Message × Request}

/-! ### Between two requests -/

theorem between_of_settled (hc : s.copyOpen = false) (h : s.Settled) : s.Between := by
  unfold Between
  rw [hc, if_neg Bool.false_ne_true]
  exact h

theorem between_of_open (hc : s.copyOpen = true) (hs : s.stream = n) (h : s.Owing n .opened) :
    s.Between := by
  unfold Between
  rw [if_pos hc, hs]
  exact h

theorem query_fits (hc : s.copyOpen = false) (h : s.Settled) :
    (s.query false fun n => .running job n false).Fits :=
  ⟨hc, h.query s.nextRequest false⟩

theorem query_start_fits (hc : s.copyOpen = false) (h : s.Settled) :
    (s.query true fun n => .setup n false).Fits :=
  ⟨hc, h.query s.nextRequest true⟩

/-- **Whatever a stream has left, `run` drains it or has nothing to drain.** -/
theorem run_fits (h : s.Between) : (s.run job).Fits := by
  unfold run
  by_cases hc : s.copyOpen = true
  · rw [if_pos hc]
    unfold Between at h
    rw [if_pos hc] at h
    exact ⟨rfl, h.frame rfl, fun _ => List.mem_append_right _ (List.mem_singleton.mpr rfl)⟩
  · rw [if_neg hc]
    unfold Between at h
    rw [if_neg hc] at h
    exact query_fits (eq_false_of_ne_true hc) h

theorem ran_fits (hc : s.copyOpen = false) (h : s.Settled) (failed : Bool) :
    (s.ran job failed choice).Fits := by
  have hb := between_of_settled hc h
  cases job with
  | command => exact hb
  | start probes =>
    show (if failed ∨ choice = .ends then s.finish else _).Fits
    split
    · exact hb
    · cases probes with
      | zero => exact query_start_fits hc h
      | succ k => exact run_fits hb

/-! ### A message -/

theorem Owing.head (h : s.Owing n g) (hq : s.queue = m :: rest) :
    (Part n g m ∧ Owing { s with queue := rest, read := s.read ++ [r] } n g) ∨
      m = ⟨.readyForQuery, n⟩ ∧ Settled { s with queue := rest, read := s.read ++ [r] } := by
  unfold Owing inFlight at h
  rw [hq, List.cons_append] at h
  exact Owed.head h

/-- A wait that only looks for the end of the answer. -/
theorem handle_drains
    (hp : (∃ job, s.phase = .exiting n job) ∨ s.phase = .handshake n ∨ s.phase = .spent n)
    (hc : s.copyOpen = false) (he : s.Ends n)
    (h : (Part n .opened m ∧ s.Owing n .opened) ∨ m = ⟨.readyForQuery, n⟩ ∧ s.Settled) :
    (s.handle m.kind choice).Fits := by
  rcases h with ⟨hpart, ho⟩ | ⟨rfl, hs⟩
  · have hkeeps : s.handle m.kind choice = s := by
      have hk := hpart.not_ready
      unfold handle
      rcases hp with ⟨job, hp⟩ | hp | hp <;> rw [hp] <;> cases hm : m.kind <;>
        first | rfl | exact absurd hm hk
    rw [hkeeps]
    unfold Fits
    rcases hp with ⟨job, hp⟩ | hp | hp <;> rw [hp] <;> exact ⟨hc, ho, he⟩
  · have hb := between_of_settled hc hs
    unfold handle
    rcases hp with ⟨job, hp⟩ | hp | hp <;> rw [hp]
    · exact query_fits hc hs
    · exact hb
    · exact hb

theorem handle_running {failed : Bool} (hp : s.phase = .running job n failed)
    (hc : s.copyOpen = false) (hk : m.kind ≠ .copyBoth)
    (h : (Part n .plain m ∧ s.Owing n .plain) ∨ m = ⟨.readyForQuery, n⟩ ∧ s.Settled) :
    (s.handle m.kind choice).Fits := by
  unfold handle
  rw [hp]
  rcases h with ⟨hpart, ho⟩ | ⟨rfl, hs⟩
  · have hkeeps : s.Fits := by
      unfold Fits
      rw [hp]
      exact ⟨hc, ho⟩
    cases hm : m.kind with
    | readyForQuery => exact absurd hm hpart.not_ready
    | errorResponse => exact ⟨hc, ho⟩
    | _ => exact hkeeps
  · exact ran_fits hc hs failed

theorem handle_setup {failed : Bool} (hp : s.phase = .setup n failed) (hc : s.copyOpen = false)
    (hopen : m.kind = .copyBoth → s.Owing n .opened)
    (h : (Part n .start m ∧ s.Owing n .start) ∨ m = ⟨.readyForQuery, n⟩ ∧ s.Settled) :
    (s.handle m.kind choice).Fits := by
  unfold handle
  rw [hp]
  rcases h with ⟨hpart, ho⟩ | ⟨rfl, hs⟩
  · have hkeeps : s.Fits := by
      unfold Fits
      rw [hp]
      exact ⟨hc, ho⟩
    cases hm : m.kind with
    | readyForQuery => exact absurd hm hpart.not_ready
    | errorResponse => exact ⟨hc, ho⟩
    | copyBoth =>
      have ho := hopen hm
      show Fits (if choice = .ends then _ else _)
      split
      · exact between_of_open rfl rfl ho
      · exact ⟨rfl, rfl, ho⟩
    | _ => exact hkeeps
  · exact between_of_settled hc hs

theorem handle_copying (hp : s.phase = .copying n) (hc : s.copyOpen = true) (hs : s.stream = n)
    (hpast : m.kind = .commandComplete → s.server ≠ .copying n)
    (h : (Part n .opened m ∧ s.Owing n .opened) ∨ m = ⟨.readyForQuery, n⟩ ∧ s.Settled) :
    (s.handle m.kind choice).Fits := by
  unfold handle
  rw [hp]
  rcases h with ⟨hpart, ho⟩ | ⟨rfl, hs⟩
  · have hkeeps : s.Fits := by
      unfold Fits
      rw [hp]
      exact ⟨hc, hs, ho⟩
    cases hm : m.kind with
    | readyForQuery => exact absurd hm hpart.not_ready
    | errorResponse => exact between_of_open hc hs ho
    | copyDone =>
      exact ⟨rfl, ho.frame rfl, fun _ => List.mem_append_right _ (List.mem_singleton.mpr rfl)⟩
    | commandComplete => exact ⟨rfl, ho, fun h => absurd h (hpast hm)⟩
    | copyData =>
      cases choice with
      | goesOn => exact hkeeps
      | yields => exact ⟨hc, hs, ho⟩
      | ends => exact between_of_open hc hs ho
    | _ => exact hkeeps
  · exact between_of_settled rfl hs

/-- What is owed by the phase that a wait is in. -/
theorem Fits.owing (h : s.Fits) (hr : reader s.phase = some n) :
    ∃ g, s.Owing n g ∧ ∀ job n failed, s.phase = .running job n failed → g = .plain := by
  unfold Fits at h
  cases hp : s.phase with
  | idle => rw [hp] at hr; cases hr
  | yielded => rw [hp] at hr; cases hr
  | running =>
    rw [hp] at hr h
    cases hr
    exact ⟨.plain, h.2, fun _ _ _ _ => rfl⟩
  | setup =>
    rw [hp] at hr h
    cases hr
    exact ⟨.start, h.2, nofun⟩
  | copying =>
    rw [hp] at hr h
    cases hr
    exact ⟨.opened, h.2.2, nofun⟩
  | _ =>
    rw [hp] at hr h
    cases hr
    exact ⟨.opened, h.2.1, nofun⟩

theorem mem_inFlight (hq : s.queue = m :: rest) : m ∈ s.inFlight :=
  List.mem_append_left _ (hq ▸ List.mem_cons_self)

/-- No CopyBothResponse comes while a plain query waits. -/
theorem Fits.receive_eq (h : s.Fits) (hr : reader s.phase = some n) (hq : s.queue = m :: rest) :
    s.receive choice =
      { s with queue := rest, read := s.read ++ [(m, n)] }.handle m.kind choice := by
  obtain ⟨g, ho, hg⟩ := h.owing hr
  unfold receive
  rw [hq, hr]
  dsimp only
  split
  · next hp hk =>
    rw [hg _ _ _ hp] at ho
    rcases ho.head (r := (m, n)) hq with ⟨hpart, -⟩ | ⟨rfl, -⟩
    · exact absurd hk hpart.not_copyBoth
    · cases hk
  · rfl

theorem Fits.receive (h : s.Fits) (hr : reader s.phase = some n) (hq : s.queue = m :: rest) :
    (s.receive choice).Fits := by
  have hm : m ∈ s.inFlight := mem_inFlight hq
  rw [h.receive_eq hr hq]
  unfold Fits at h
  cases hp : s.phase with
  | idle => rw [hp] at hr; cases hr
  | yielded => rw [hp] at hr; cases hr
  | exiting =>
    rw [hp] at hr h
    cases hr
    exact handle_drains (.inl ⟨_, rfl⟩) h.1 h.2.2 (h.2.1.head (r := (m, n)) hq)
  | running =>
    rw [hp] at hr h
    cases hr
    have hk : m.kind ≠ .copyBoth := by
      rcases h.2.head (r := (m, n)) hq with ⟨hpart, -⟩ | ⟨rfl, -⟩
      · exact hpart.not_copyBoth
      · nofun
    exact handle_running rfl h.1 hk (h.2.head (r := (m, n)) hq)
  | setup =>
    rw [hp] at hr h
    cases hr
    refine handle_setup rfl h.1 (fun hk => ?_) (h.2.head (r := (m, n)) hq)
    rcases Owing.head (r := (m, n)) (Owed.opened h.2 ⟨m, hm, hk⟩) hq with ⟨-, ho⟩ | ⟨rfl, -⟩
    · exact ho
    · cases hk
  | copying =>
    rw [hp] at hr h
    cases hr
    exact handle_copying rfl h.1 h.2.1 (fun hk => h.2.2.past_copy hm hk n) (h.2.2.head (r := (m, n)) hq)
  | handshake =>
    rw [hp] at hr h
    cases hr
    exact handle_drains (.inr (.inl rfl)) h.1 h.2.2 (h.2.1.head (r := (m, n)) hq)
  | spent =>
    rw [hp] at hr h
    cases hr
    exact handle_drains (.inr (.inr rfl)) h.1 h.2.2 (h.2.1.head (r := (m, n)) hq)

/-! ### The channels -/

/-- What both sides keep while the driver waits. -/
structure Passes (s s' : Driver) : Prop where
  phase : s'.phase = s.phase
  copyOpen : s'.copyOpen = s.copyOpen
  stream : s'.stream = s.stream
  owing : ∀ {n g}, s.Owing n g → s'.Owing n g
  settled : s.Settled → s'.Settled
  ends : ∀ {n}, s.Owing n .opened → s.Ends n → s'.Ends n

theorem Fits.passes {s' : Driver} (h : s.Fits) (hs : Passes s s') : s'.Fits := by
  unfold Fits at h ⊢
  rw [hs.phase, hs.copyOpen, hs.stream]
  cases hp : s.phase with
  | idle =>
    rw [hp] at h
    by_cases hc : s.copyOpen = true
    · unfold Between at h
      rw [if_pos hc] at h
      exact between_of_open (hs.copyOpen.trans hc) hs.stream (hs.owing h)
    · unfold Between at h
      rw [if_neg hc] at h
      exact between_of_settled (hs.copyOpen.trans (eq_false_of_ne_true hc)) (hs.settled h)
  | running => rw [hp] at h; exact ⟨h.1, hs.owing h.2⟩
  | setup => rw [hp] at h; exact ⟨h.1, hs.owing h.2⟩
  | copying => rw [hp] at h; exact ⟨h.1, h.2.1, hs.owing h.2.2⟩
  | yielded => rw [hp] at h; exact ⟨h.1, h.2.1, hs.owing h.2.2⟩
  | _ => rw [hp] at h; exact ⟨h.1, hs.owing h.2.1, hs.ends h.2.1 h.2.2⟩

theorem passes_arrives (s : Driver) (k : Nat) :
    Passes s { s with queue := s.queue ++ s.wire.take k, wire := s.wire.drop k } := by
  have hw : (s.queue ++ s.wire.take k) ++ s.wire.drop k = s.inFlight := by
    rw [List.append_assoc, List.take_append_drop]
    rfl
  refine ⟨rfl, rfl, rfl, fun h => ?_, fun h => ?_, fun _ h => h⟩
  · unfold Owing inFlight
    rw [hw]
    exact h
  · unfold Settled inFlight
    rw [hw]
    exact h

theorem passes_status (s : Driver) : Passes s (s.frame .copyData) :=
  ⟨rfl, rfl, rfl, fun h => Owed.frame h rfl, fun h => Tidy.frame h rfl,
    fun _ h hc => List.mem_append_left _ (h hc)⟩

theorem passes_serverReads {f : Frame} {frames : List Frame} (hin : s.inbox = f :: frames)
    (hr : s.server.reads = true) :
    Passes s { s with server := s.server.take f, inbox := frames } := by
  refine ⟨rfl, rfl, rfl, fun h => ?_, fun h => ?_, fun _ h hc => ?_⟩
  · unfold Owing at h
    rw [hin] at h
    exact h.reads hr
  · unfold Settled at h
    rw [hin] at h
    exact h.reads
  · obtain ⟨hcopy, hf⟩ := take_copying hc
    have hd := h hcopy
    rw [hin] at hd
    exact List.mem_of_ne_of_mem (Ne.symm hf) hd

theorem passes_serverSends {kind : Kind} {server : Server}
    (hs : s.server.send kind = some server) :
    Passes s { s with server := server, wire := s.wire ++ [⟨kind, s.server.request⟩] } := by
  refine ⟨rfl, rfl, rfl, fun h => ?_, fun h => ?_, fun ho h hc => ?_⟩
  · have := Owed.sends h hs
    unfold inFlight at this
    rw [List.append_assoc] at this
    exact this
  · have := Tidy.sends h hs
    unfold inFlight at this
    rw [List.append_assoc] at this
    exact this
  · subst hc
    rcases send_copying hs with hcopy | hstart
    · exact h hcopy
    · exact absurd hstart (ho.not_starting _)

/-! ### The reservation and what was read -/

def Reserved (s : Driver) : Prop := s.streaming = s.phase.isStream

theorem run_reserved (h : s.streaming = job.isStream) : (s.run job).Reserved := by
  unfold run
  split <;> exact h

theorem ran_reserved (h : s.streaming = job.isStream) (failed : Bool) :
    (s.ran job failed choice).Reserved := by
  cases job with
  | command => exact h
  | start probes =>
    show (if failed ∨ choice = .ends then s.finish else _).Reserved
    split
    · rfl
    · cases probes with
      | zero => exact h
      | succ k => exact run_reserved h

theorem handle_reserved {kind : Kind} (h : s.Reserved) : (s.handle kind choice).Reserved := by
  unfold Reserved at h
  unfold handle
  split
  · next hp => rw [hp] at h; exact h
  · next hp => rw [hp] at h; exact h
  · next hp => rw [hp] at h; exact ran_reserved h _
  · next hp => rw [hp] at h; exact h
  · rfl
  · next hp =>
    rw [hp] at h
    dsimp only
    split
    · rfl
    · exact h
  · rfl
  · next hp => rw [hp] at h; exact h
  · next hp => rw [hp] at h; exact h
  · rfl
  · next hp =>
    rw [hp] at h
    cases choice with
    | goesOn => exact h.trans (congrArg Phase.isStream hp).symm
    | yields => exact h
    | ends => rfl
  · rfl
  · rfl
  · exact h

theorem run_read : (s.run job).read = s.read := by
  unfold run
  split <;> rfl

theorem ran_read (failed : Bool) : (s.ran job failed choice).read = s.read := by
  cases job with
  | command => rfl
  | start probes =>
    show (if failed ∨ choice = .ends then s.finish else _).read = s.read
    split
    · rfl
    · cases probes with
      | zero => rfl
      | succ k => exact run_read

theorem handle_read {kind : Kind} : (s.handle kind choice).read = s.read := by
  unfold handle
  split
  · rfl
  · rfl
  · exact ran_read _
  · rfl
  · rfl
  · dsimp only
    split <;> rfl
  · rfl
  · rfl
  · rfl
  · rfl
  · cases choice <;> rfl
  · rfl
  · rfl
  · rfl

theorem Fits.own (h : s.Fits) (hr : reader s.phase = some n) (hq : s.queue = m :: rest) :
    m.kind = .other ∨ m.owner = n := by
  obtain ⟨g, ho, -⟩ := h.owing hr
  rcases ho.head (r := (m, n)) hq with ⟨hpart, -⟩ | ⟨rfl, -⟩
  · exact hpart.imp_right And.left
  · exact .inr rfl

end Driver

/-! ### The run -/

variable {s : Driver} {n : Request} {job : Job}

theorem synced_run (hb : s.Between) (hs : s.streaming = job.isStream) (ho : Own s.read) :
    Synced (s.run job) := by
  refine ⟨Driver.run_fits hb, Driver.run_reserved hs, ?_⟩
  rw [Driver.run_read]
  exact ho

theorem synced_finish (hb : s.Between) (ho : Own s.read) : Synced s.finish := ⟨hb, rfl, ho⟩

theorem Synced.between (h : Synced s) (hp : s.phase = .idle) : s.Between := by
  have hf := h.fits
  unfold Driver.Fits at hf
  rw [hp] at hf
  exact hf

/-- A call that the reservation lets through finds an idle driver. -/
theorem idle_of_free (he : (s.phase == .idle || s.streaming) = true)
    (hs : ¬s.streaming = true) : s.phase = .idle := by
  rw [eq_false_of_ne_true hs, Bool.or_false] at he
  exact eq_of_beq he

theorem Synced.passes {s' : Driver} (h : Synced s) (hp : Driver.Passes s s')
    (hs : s'.streaming = s.streaming) (hr : s'.read = s.read) : Synced s' := by
  refine ⟨h.fits.passes hp, ?_, ?_⟩
  · rw [hs, hp.phase]
    exact h.streaming
  · rw [hr]
    exact h.own

theorem Synced.receive {choice : Choice} {m : Message} {rest : List Message} (h : Synced s)
    (hr : Driver.reader s.phase = some n) (hq : s.queue = m :: rest) :
    Synced (s.receive choice) := by
  refine ⟨h.fits.receive hr hq, ?_, ?_⟩
  · rw [h.fits.receive_eq hr hq]
    exact Driver.handle_reserved h.streaming
  · rw [h.fits.receive_eq hr hq, Driver.handle_read]
    intro r hmem
    rcases List.mem_append.mp hmem with hmem | hmem
    · exact h.own r hmem
    · rw [List.mem_singleton.mp hmem]
      exact h.fits.own hr hq

/-- **Every step keeps the connection in sync.** -/
theorem Synced.step (h : Synced s) {e : Event} (he : s.enabled e = true) : Synced (s.step e) := by
  cases e with
  | command =>
    show Synced (if s.streaming then s else s.run .command)
    split
    · exact h
    · next hs =>
      exact synced_run (h.between (idle_of_free he hs)) (eq_false_of_ne_true hs) h.own
  | start probes choice =>
    show Synced (if s.streaming then s else _)
    split
    · exact h
    · next hs =>
      have hb : Driver.Between { s with streaming := true } := h.between (idle_of_free he hs)
      split
      · exact synced_finish hb h.own
      · exact synced_run hb rfl h.own
  | arrives k => exact h.passes (Driver.passes_arrives s k) rfl rfl
  | receive choice =>
    obtain ⟨hr, hq⟩ := Bool.and_eq_true_iff.mp he
    obtain ⟨n, hr⟩ := Option.isSome_iff_exists.mp hr
    cases hqs : s.queue with
    | nil =>
      rw [hqs] at hq
      cases hq
    | cons m rest => exact h.receive hr hqs
  | next =>
    rw [Driver.step]
    split
    · next n hp =>
      have hf := h.fits
      unfold Driver.Fits at hf
      rw [hp] at hf
      refine ⟨hf, ?_, h.own⟩
      rw [h.streaming, hp]
      rfl
    · exact h
  | «break» =>
    obtain ⟨n, hp⟩ : ∃ n, s.phase = .yielded n := by
      cases hp : s.phase with
      | yielded n => exact ⟨n, rfl⟩
      | _ => simp [Driver.enabled, hp] at he
    have hf := h.fits
    unfold Driver.Fits at hf
    rw [hp] at hf
    exact synced_finish (Driver.between_of_open hf.1 hf.2.1 hf.2.2) h.own
  | status => exact h.passes (Driver.passes_status s) rfl rfl
  | serverReads =>
    obtain ⟨hr, hin⟩ := Bool.and_eq_true_iff.mp he
    cases hi : s.inbox with
    | nil =>
      rw [hi] at hin
      cases hin
    | cons f frames =>
      rw [Driver.step, hi]
      exact h.passes (Driver.passes_serverReads hi hr) rfl rfl
  | serverSends kind =>
    obtain ⟨server, hsend⟩ := Option.isSome_iff_exists.mp he
    rw [Driver.step, hsend]
    exact h.passes (Driver.passes_serverSends hsend) rfl rfl

theorem synced_start : Synced {} :=
  ⟨Driver.between_of_settled rfl ⟨rfl, nofun, nofun⟩, rfl, nofun⟩

theorem Reachable.synced (h : Reachable s) : Synced s := by
  refine Machine.Reach.invariant ?_ (fun _ _ hI he _ => hI.step he) h
  rintro s rfl
  exact synced_start

/-- The waits that only read up to the end of the answer to a stream. -/
def Phase.drains (n : Request) : Phase → Prop
  | .exiting n' _ | .handshake n' | .spent n' => n' = n
  | _ => False

/-- A connection in sync. -/
structure InSync (s : Driver) : Prop where
  /-- Every message was read for the request that it answers. -/
  own : ∀ r ∈ s.read, r.1.kind = .other ∨ r.1.owner = r.2
  /-- No leftover of another request stands in the way of a wait. -/
  clear : ∀ n, Driver.reader s.phase = some n → ∀ m ∈ s.inFlight, m.kind = .other ∨ m.owner = n
  /-- After a command, and after a stream whose copy was left, nothing is outstanding. -/
  tidy : s.phase = .idle → s.copyOpen = false →
    s.server = .ready ∧ (∀ f ∈ s.inbox, f.isQuery = false) ∧ ∀ m ∈ s.inFlight, m.kind = .other
  /-- The walsender is never asked in the middle of a copy. -/
  unconfused : s.server ≠ .confused
  /-- A command's answer can be read to its end. -/
  answered : ∀ job n failed, s.phase = .running job n failed →
    ⟨.readyForQuery, n⟩ ∈ s.inFlight ∨ s.server = .replying n ∨
      s.server = .ready ∧ .query n false ∈ s.inbox
  /-- What a stream has left can be read to its end. -/
  drained : ∀ n, s.phase.drains n →
    ⟨.readyForQuery, n⟩ ∈ s.inFlight ∨ s.server = .replying n ∨
      s.server = .copying n ∧ .copyDone ∈ s.inbox
  /-- The reservation is held by a stream that has begun and not ended. -/
  reserved : s.streaming = s.phase.isStream

namespace Driver

theorem Between.unconfused (h : s.Between) : s.server ≠ .confused := by
  unfold Between at h
  by_cases hc : s.copyOpen = true
  · rw [if_pos hc] at h
    exact h.not_confused
  · rw [if_neg hc] at h
    rw [h.ready]
    decide

theorem Fits.unconfused (h : s.Fits) : s.server ≠ .confused := by
  unfold Fits at h
  cases hp : s.phase with
  | idle => rw [hp] at h; exact h.unconfused
  | running => rw [hp] at h; exact h.2.not_confused
  | setup => rw [hp] at h; exact h.2.not_confused
  | copying => rw [hp] at h; exact h.2.2.not_confused
  | yielded => rw [hp] at h; exact h.2.2.not_confused
  | _ => rw [hp] at h; exact h.2.1.not_confused

theorem Fits.tidy (h : s.Fits) (hp : s.phase = .idle) (hc : s.copyOpen = false) : s.Settled := by
  unfold Fits Between at h
  rw [hp] at h
  dsimp only at h
  rw [hc, if_neg Bool.false_ne_true] at h
  exact h

theorem Fits.drained (h : s.Fits) (hp : s.phase.drains n) :
    ⟨.readyForQuery, n⟩ ∈ s.inFlight ∨ s.server = .replying n ∨
      s.server = .copying n ∧ .copyDone ∈ s.inbox := by
  have hends : s.Owing n .opened ∧ s.Ends n := by
    unfold Fits at h
    cases hq : s.phase with
    | exiting | handshake | spent =>
      rw [hq] at h hp
      cases hp
      exact h.2
    | _ =>
      rw [hq] at hp
      cases hp
  rcases hends.1.opened_ends with hz | hr | hc
  · exact .inl hz
  · exact .inr (.inl hr)
  · exact .inr (.inr ⟨hc, hends.2 hc⟩)

end Driver

theorem Synced.inSync (h : Synced s) : InSync s where
  own := h.own
  clear := fun n hr => by
    obtain ⟨g, ho, -⟩ := h.fits.owing hr
    exact ho.parts
  tidy := fun hp hc => by
    have ht := h.fits.tidy hp hc
    exact ⟨ht.ready, ht.inbox, ht.wire⟩
  unconfused := h.fits.unconfused
  answered := fun job n failed hp => by
    have hf := h.fits
    unfold Driver.Fits at hf
    rw [hp] at hf
    exact hf.2.plain_ends
  drained := fun n hp => h.fits.drained hp
  reserved := h.streaming

/-- **The connection stays in sync.**  However the streams before have ended, and however the
replies were chunked, each call reads the answer to its own request. -/
theorem stays_in_sync (h : Reachable s) : InSync s := h.synced.inSync

/-- A stream is broken off at its second message, and a command follows. -/
def brokenOff : List Event :=
  [.start 0 .goesOn, .serverReads, .serverSends .readyForQuery, .arrives 1, .receive .goesOn,
    .serverReads, .serverSends .copyBoth, .serverSends .copyData, .serverSends .copyData,
    .arrives 2, .receive .goesOn, .receive .yields, .break, .command, .serverReads,
    .serverSends .copyDone, .serverSends .commandComplete, .serverSends .readyForQuery, .arrives 3,
    .receive .goesOn, .receive .goesOn, .arrives 1, .receive .goesOn, .receive .goesOn,
    .serverReads, .serverSends .dataRow]

theorem brokenOff_reachable : Reachable (machine.exec {} brokenOff) := by
  have hstart : Reachable {} := .start rfl
  have hruns : machine.Runs Machine.Free {} brokenOff := by decide
  exact hstart.exec hruns

theorem stays_in_sync_after_break :
    InSync (machine.exec {} brokenOff) ∧
      (machine.exec {} brokenOff).phase = .running .command 2 false ∧
      (machine.exec {} brokenOff).inFlight = [⟨.dataRow, 2⟩] :=
  ⟨stays_in_sync brokenOff_reachable, by decide, by decide⟩

end Minipg.Walsender
