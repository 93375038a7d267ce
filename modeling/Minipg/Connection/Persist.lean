import Minipg.Connection.Shapes
import Mathlib.Data.List.Perm.Subperm

/-!
# What a task keeps

A task is never resubmitted and never forgets how it was settled: along any moves its
request stays what it was, a settled mark stays set, and further settlements come after
the first (`Moves.persists`).  `Basic` collects what holds at every point of every
callback whatever the backend does: the numbers in use have been given out, a task is in
one place at a time, and a settled mark is only set together with a settlement.
-/

namespace Minipg

/-- The part of a request that serialization never assigns. -/
def Request.core (r : Request) : Request := { r with resultFormat := none, mapper := none }

namespace Task

structure Persists (k k' : Task) : Prop where
  core : k'.toRequest.core = k.toRequest.core
  settled : k.settled = true → k'.settled = true
  settlements : k.settlements <+: k'.settlements
  called : k'.settled = true → k.settled = true ∨ k'.settlements ≠ []
  retries : k.retries ≤ k'.retries

namespace Persists

variable {k k' k'' : Task}

/-- The mark of the task stays as it is. -/
theorem of_le (hc : k'.toRequest.core = k.toRequest.core) (hs : k'.settled = k.settled)
    (hse : k.settlements <+: k'.settlements) (hr : k.retries ≤ k'.retries) : Persists k k' :=
  ⟨hc, fun h => hs.trans h, hse, fun h => .inl (hs.symm.trans h), hr⟩

theorem of_eq (hc : k'.toRequest.core = k.toRequest.core) (hs : k'.settled = k.settled)
    (hse : k.settlements <+: k'.settlements) (hr : k'.retries = k.retries) : Persists k k' :=
  of_le hc hs hse (Nat.le_of_eq hr.symm)

theorem refl (k : Task) : Persists k k := of_eq rfl rfl List.prefix_rfl rfl

/-- A settlement is never taken back. -/
theorem settlements_ne (h : Persists k k') (hk : k.settlements ≠ []) : k'.settlements ≠ [] := by
  intro he
  have hp := h.settlements
  rw [he, List.prefix_nil] at hp
  exact hk hp

theorem trans (h : Persists k k') (g : Persists k' k'') : Persists k k'' where
  core := g.core.trans h.core
  settled := g.settled ∘ h.settled
  settlements := h.settlements.trans g.settlements
  called hs := by
    rcases g.called hs with hs | hs
    · rcases h.called hs with hs | hs
      · exact .inl hs
      · exact .inr (g.settlements_ne hs)
    · exact .inr hs
  retries := Nat.le_trans h.retries g.retries

theorem sql (h : Persists k k') : k'.sql = k.sql :=
  (congrArg Request.sql h.core :)

theorem name (h : Persists k k') : k'.name = k.name :=
  (congrArg Request.name h.core :)

theorem paramTypes (h : Persists k k') : k'.paramTypes = k.paramTypes :=
  (congrArg Request.paramTypes h.core :)

theorem copySource (h : Persists k k') : k'.copySource = k.copySource :=
  (congrArg Request.copySource h.core :)

theorem copyOut (h : Persists k k') : k'.copyOut = k.copyOut :=
  (congrArg Request.copyOut h.core :)

/-- The first settlement is the outcome for good. -/
theorem outcome (h : Persists k k') {o : Outcome} (ho : k.outcome = some o) :
    k'.outcome = some o := by
  obtain ⟨os, hos⟩ := h.settlements
  unfold Task.outcome at ho ⊢
  rw [← hos, List.head?_append, ho]
  rfl

end Persists

theorem Calls.persists {k k' : Task} (h : k.Calls k') : Persists k k' := by
  obtain ⟨_, _, _, es, rfl⟩ := h
  exact .of_eq rfl rfl (List.prefix_append ..) rfl

theorem rowDescription_persists (cfg : Config) (k : Task) (fs : List Field) :
    Persists k (k.rowDescription cfg fs) := by
  have hd : ∀ k' cols, Persists k k' → Persists k (k'.describeWith cfg cols) := by
    intro k' cols h
    unfold describeWith
    split
    · exact h.trans (.of_eq rfl rfl List.prefix_rfl rfl)
    · exact h.trans (.of_eq rfl rfl List.prefix_rfl rfl)
  have hf : Persists k { k with fields := some fs } := .of_eq rfl rfl List.prefix_rfl rfl
  unfold rowDescription
  dsimp only
  split
  · exact hf
  · split
    · split
      · exact hd _ _ hf
      · exact hf
    · exact hd _ _ hf

theorem dataRow_persists (cfg : Config) (k : Task) (body : Bytes) :
    Persists k (k.dataRow cfg body) := by
  unfold dataRow
  dsimp only
  split
  · exact .refl k
  · split
    · exact .of_eq rfl rfl List.prefix_rfl rfl
    · split
      · exact .of_eq rfl rfl List.prefix_rfl rfl
      · exact .of_eq rfl rfl List.prefix_rfl rfl

theorem hear_persists (cfg : Config) (k : Task) (m : BackendMsg) : Persists k (k.hear cfg m) := by
  unfold hear
  split
  · exact rowDescription_persists cfg k _
  · exact .of_eq rfl rfl List.prefix_rfl rfl
  · exact .of_eq rfl rfl List.prefix_rfl rfl
  · split
    · exact .refl k
    · exact dataRow_persists cfg k _
  · split
    · exact .refl k
    · exact .of_eq rfl rfl List.prefix_rfl rfl
  · exact .of_eq rfl rfl List.prefix_rfl rfl
  · split
    · exact .of_eq rfl rfl List.prefix_rfl rfl
    · exact .refl k
  · split
    · exact .of_eq rfl rfl List.prefix_rfl rfl
    · exact .refl k
  · exact .refl k

theorem received_persists (k : Task) (m : BackendMsg) :
    Persists k { k.keepFrame m with heard := k.heard ++ [m] } := by
  unfold keepFrame
  split
  · exact .of_eq rfl rfl List.prefix_rfl rfl
  · exact .of_eq rfl rfl List.prefix_rfl rfl

end Task

namespace Conn

variable {cfg : Config}

theorem listened_persists (k : Task) (m : BackendMsg) :
    Task.Persists k (listened cfg k m) := by
  unfold listened
  exact (Task.received_persists k m).trans (Task.hear_persists cfg _ m)

/-- All tasks that exist persist, and a new one is not marked as settled unless it is. -/
def Persists (c c' : Conn) : Prop :=
  c.nextTask ≤ c'.nextTask ∧ ∀ t, (c.tasks t).Persists (c'.tasks t) ∨
    c.nextTask ≤ t ∧ ((c'.tasks t).settled = true → (c'.tasks t).settlements ≠ [])

namespace Persists

variable {c c' c'' : Conn}

theorem refl (c : Conn) : Persists c c := ⟨Nat.le_refl _, fun _ => .inl (.refl _)⟩

theorem task (h : Persists c c') {t : TaskId} (ht : t < c.nextTask) :
    (c.tasks t).Persists (c'.tasks t) := by
  rcases h.2 t with h | h
  · exact h
  · exact absurd h.1 (Nat.not_le_of_lt ht)

theorem trans (h : Persists c c') (g : Persists c' c'') : Persists c c'' := by
  refine ⟨Nat.le_trans h.1 g.1, fun t => ?_⟩
  rcases g.2 t with hg | ⟨hg, hs⟩
  · rcases h.2 t with hh | ⟨hh, hs⟩
    · exact .inl (hh.trans hg)
    · refine .inr ⟨hh, fun hs' => ?_⟩
      rcases hg.called hs' with h' | h'
      · exact hg.settlements_ne (hs h')
      · exact h'
  · exact .inr ⟨Nat.le_trans h.1 hg, hs⟩

/-- **A settled mark is only set together with a settlement.** -/
theorem settledCalled (h : Persists c c') (hc : c.SettledCalled) : c'.SettledCalled := by
  intro t hs
  rcases h.2 t with ht | ⟨-, ht⟩
  · rcases ht.called hs with h' | h'
    · exact ht.settlements_ne (hc t h')
    · exact h'
  · exact ht hs

/-- Everything but the tasks may change. -/
theorem of_tasks (hn : c'.nextTask = c.nextTask) (ht : ∀ t, (c.tasks t).Persists (c'.tasks t)) :
    Persists c c' :=
  ⟨Nat.le_of_eq hn.symm, fun t => .inl (ht t)⟩

theorem of_eq (hn : c'.nextTask = c.nextTask) (ht : c'.tasks = c.tasks) : Persists c c' :=
  of_tasks hn fun t => by rw [ht]; exact .refl _

theorem modTask {t : TaskId} {f : Task → Task} (hf : (c.tasks t).Persists (f (c.tasks t))) :
    Persists c (c.modTask t f) := by
  refine of_tasks rfl fun u => ?_
  change (c.tasks u).Persists (Function.update c.tasks t (f (c.tasks t)) u)
  by_cases hu : u = t
  · subst hu
    rwa [Function.update_self]
  · rw [Function.update_of_ne hu]
    exact .refl _

end Persists

theorem Relinks.persists {c c' : Conn} (h : Relinks c c') : Persists c c' :=
  .of_tasks h.nextTask fun t => (h.tasks t).persists

theorem Settles.persists {c c' : Conn} (h : Settles c c') : Persists c c' := h.relinks.persists

theorem startTask_persists (c : Conn) (t : TaskId) : Persists c (c.startTask cfg t) := by
  cases hs : (c.serialize cfg t).2 with
  | none =>
    obtain ⟨_, _, _, _, _, _, _, _, -, h⟩ := startTask_ok_shape hs
    rw [h]
    exact Persists.modTask (c := c) (t := t) (f := fun _ => _) (.of_eq rfl rfl List.prefix_rfl rfl)
  | some e =>
    obtain ⟨ts, _, _, _, _, h, hu, ⟨_, _, _, _, ht⟩, -, -⟩ := startTask_throw_shape hs
    rw [h]
    refine .of_tasks rfl fun u => ?_
    by_cases hut : u = t
    · subst hut
      refine Task.Persists.trans ?_ ht.persists
      exact .of_eq rfl rfl List.prefix_rfl rfl
    · exact (hu u hut).persists

theorem quit_persists (c : Conn) (t : TaskId) (e : JsError) : Persists c (c.quit t e) := by
  have ht := quit_task c t e
  refine .of_tasks ?_ fun u => ?_
  · obtain ⟨_, _, h, -⟩ := rejectTask_settles
      (c.modTask t fun k => { k with settled := true, timer := false }) t e
    unfold quit
    rw [h]
    rfl
  · by_cases hu : u = t
    · subst hu
      refine ⟨?_, fun _ => ht.1, ht.2 ▸ List.prefix_append .., fun _ => .inr ?_, ?_⟩
      · simp [quit, rejectTask, settle, Conn.modTask, Request.core]
      · rw [ht.2]
        simp
      · simp [quit, rejectTask, settle, Conn.modTask]
    · simp only [quit, rejectTask, settle, Conn.modTask, stopCopy_tasks, Function.update_of_ne hu]
      exact .refl _

theorem openPump_persists (c : Conn) (t : TaskId) : Persists c (c.openPump t) := by
  have h : ∀ ps n, Persists c { c with pumps := ps, nextPump := n } := fun _ _ => .of_eq rfl rfl
  exact (h _ _).trans (.modTask (.of_eq rfl rfl List.prefix_rfl rfl))

theorem modHead_persists (c : Conn) {f : Task → Task} (hf : ∀ k, Task.Persists k (f k)) :
    Persists c (c.modHead f) := by
  obtain ⟨ts, h, hu, ht⟩ := modHead_shape c f
  rw [h]
  refine .of_tasks rfl fun u => ?_
  dsimp only
  by_cases hc : c.current = some u
  · rw [ht u hc]
    exact hf _
  · rw [hu u hc]
    exact .refl _

theorem receive_persists (c : Conn) (m : BackendMsg) : Persists c (c.receive m) :=
  (modHead_persists c fun k => Task.received_persists k m).trans (.of_eq rfl rfl)

theorem listen_persists (c : Conn) (m : BackendMsg) : Persists c (c.listen cfg m) := by
  obtain ⟨ts, h, hu, ht⟩ := @listen_shape cfg c m
  rw [h]
  refine .of_tasks rfl fun u => ?_
  dsimp only
  by_cases hc : c.current = some u
  · rw [ht u hc]
    exact listened_persists _ m
  · rw [hu u hc]
    exact .refl _

theorem noteCopyIn_persists (c : Conn) (t : TaskId) : Persists c (c.noteCopyIn cfg t) :=
  (listen_persists c _).trans (.of_eq rfl rfl)

theorem settleFinished_persists (c : Conn) (t : TaskId) : Persists c (c.settleFinished t) := by
  obtain ⟨ts, ps, h, hu, -, ht⟩ := settleFinished_shape c t
  rw [h]
  refine .of_tasks rfl fun u => ?_
  by_cases hut : u = t
  · subst hut
    rcases ht with ⟨-, ht⟩ | ⟨-, o, ht, -⟩
    · dsimp only
      rw [ht]
      exact .refl _
    · dsimp only
      rw [ht]
      exact .of_eq rfl rfl (List.prefix_append ..) rfl
  · dsimp only
    rw [hu u hut]
    exact .refl _

theorem writeSocket_persists (c : Conn) (ps : List Packet) : Persists c (c.writeSocket ps) := by
  obtain ⟨sent, h, -⟩ := writeSocket_shape c ps
  rw [h]
  exact .of_eq rfl rfl

theorem dialed_persists (c : Conn) (d : DialId) : Persists c (c.dialed d) := by
  obtain ⟨_, _, _, _, _, h, -⟩ := dialed_shape c d
  rw [h]
  exact .of_eq rfl rfl

theorem create_persists (c : Conn) (r : Request) : Persists c (c.create cfg r) := by
  refine ⟨Nat.le_succ _, fun t => ?_⟩
  unfold create
  dsimp only
  by_cases ht : t = c.nextTask
  · subst ht
    rw [Function.update_self]
    exact .inr ⟨Nat.le_refl _, fun h => absurd h (by simp)⟩
  · rw [Function.update_of_ne ht]
    exact .inl (.refl _)

theorem settle_persists (c : Conn) (t : TaskId) (o : Outcome) : Persists c (c.settle t o) :=
  .modTask (.of_eq rfl rfl (List.prefix_append ..) rfl)

theorem CancelMove.persists {c c' : Conn} {h : Option (TaskId × ConnState)}
    (hm : CancelMove cfg c h c') : Persists c c' := by
  obtain ⟨ts, _, _, _, _, _, h, ht⟩ := hm.shape
  rw [h]
  refine .of_tasks rfl fun u => ?_
  dsimp only
  rcases ht u with ht | ht
  · rw [ht]
    exact .refl _
  · rw [ht]
    exact .of_eq rfl rfl List.prefix_rfl rfl

/-- **Tasks persist.** -/
theorem Move.persists {l : Option BackendMsg} {c c' : Conn} {h h' : Option (TaskId × ConnState)}
    (hm : Move cfg PumpMove l (c, h) (c', h')) : Persists c c' := by
  cases hm with
  | gate hm =>
    obtain ⟨_, _, _, _, _, _, _, h⟩ := hm.shape
    rw [h]
    exact .of_eq rfl rfl
  | cancel hm => exact hm.persists
  | pump hm =>
    obtain ⟨_, _, _, h, -⟩ := hm.shape
    rw [h]
    exact .of_eq rfl rfl
  | link hm => exact hm.relinks.persists
  | emit s f =>
    obtain ⟨_, h, -⟩ := writeTo_shape c s [⟨.link, f⟩]
    rw [h]
    exact .of_eq rfl rfl
  | settles hs => exact hs.persists
  | refuse r hc => exact (create_persists c r).trans (settle_persists _ _ _)
  | create r hc => exact create_persists c r
  | quit t e => exact quit_persists c t e
  | discard t => exact .modTask (.of_eq rfl rfl List.prefix_rfl rfl)
  | release | dequeue | enqueue => exact .of_eq rfl rfl
  | @requeue _ t _ =>
    have hm : Persists c (c.modTask t Task.forRetry) :=
      .modTask (.of_le rfl rfl List.prefix_rfl (Nat.le_succ _))
    exact hm.trans (.of_eq rfl rfl)
  | finish hr => exact (clearTimers_settles _ _).persists.trans (settleFinished_persists _ _)
  | start t rest =>
    have hq : Persists c { c with queue := rest } := .of_eq rfl rfl
    exact hq.trans (startTask_persists _ t)
  | flush =>
    obtain ⟨_, _, _, _, h, -⟩ := flushWrites_shape c
    rw [h]
    exact .of_eq rfl rfl
  | listen m => exact listen_persists c m
  | miss m => exact receive_persists c m
  | idle | pop => exact (receive_persists c _).trans (.of_eq rfl rfl)
  | cache =>
    rcases cacheCurrent_shape c with h | ⟨_, _, _, _, -, -, -, -, h⟩
    · rw [h]
      exact .refl c
    · rw [h]
      exact .of_eq rfl rfl
  | attemptDone status =>
    obtain ⟨_, _, h, -⟩ := attemptDone_shape (c.receive (.readyForQuery status)) (status.getD 'I')
    rw [h]
    exact (receive_persists c (.readyForQuery status)).trans (.of_eq rfl rfl)
  | copyNone => exact (receive_persists c _).trans (writeSocket_persists _ _)
  | copyPlain t => exact (noteCopyIn_persists c t).trans (writeSocket_persists _ _)
  | copyPump t => exact (noteCopyIn_persists c t).trans (openPump_persists _ t)
  | copyBoth => exact (listen_persists c _).trans (writeSocket_persists _ _)
  | parseFailed =>
    obtain ⟨_, _, h⟩ := noteParseFailure_shape c _
    rw [h]
    exact .of_eq rfl rfl
  | invalidated =>
    obtain ⟨_, _, h⟩ := dropInvalidated_shape c _
    rw [h]
    exact .of_eq rfl rfl

theorem Moves.persists {ms : List BackendMsg} {p q : Point} (h : Moves cfg PumpMove ms p q) :
    Persists p.1 q.1 := by
  induction h with
  | refl => exact .refl _
  | tail _ hm ih => exact ih.trans hm.persists

/-! ### What always holds -/

/-- Where the tasks are that are not settled for sure: with the callback, in the pipeline and
in the queue. -/
def places (p : Point) : List TaskId :=
  (p.2.map Prod.fst).toList ++ p.1.inflight ++ p.1.queue

/-- What holds at every point, whatever the backend sends. -/
structure Basic (p : Point) : Prop where
  nodup : (places p).Nodup
  fresh : ∀ t ∈ places p, t < p.1.nextTask
  called : p.1.SettledCalled
  heads : ∀ q t, p.1.pendingCancel = some q → (p.1.cancels q).head = some t →
    t < p.1.nextTask ∧ (p.1.tasks t).settled = true
  pending : ∀ q, p.1.pendingCancel = some q → q < p.1.nextCancel

theorem basic_new : Basic ({}, none) where
  nodup := List.nodup_nil
  fresh := by simp [places]
  called := by simp [SettledCalled]
  heads := by simp
  pending := by simp

/-- The frame rule of `Basic`: tasks persist, may leave their places, and a settled mark comes
with a settlement. -/
theorem Basic.frame {c c' : Conn} {h h' : Option (TaskId × ConnState)} (hb : Basic (c, h))
    (hpl : (places (c', h')).Subperm (places (c, h)))
    (hpe : Persists c c')
    (hp : c'.pendingCancel = c.pendingCancel ∨ c'.pendingCancel = none)
    (hh : ∀ q, (c'.cancels q).head = (c.cancels q).head ∨ (c'.cancels q).head = none)
    (hn : c'.nextCancel = c.nextCancel) : Basic (c', h') where
  nodup := by
    obtain ⟨l, hp, hs⟩ := hpl
    exact hp.nodup_iff.mp (hs.nodup hb.nodup)
  fresh t ht := Nat.lt_of_lt_of_le (hb.fresh t (hpl.subset ht)) hpe.1
  called := hpe.settledCalled hb.called
  heads q t hq ht := by
    rcases hp with hp | hp
    · rcases hh q with hh | hh
      · obtain ⟨hlt, hs⟩ := hb.heads q t (hp.symm.trans hq) (hh.symm.trans ht)
        exact ⟨Nat.lt_of_lt_of_le hlt hpe.1, (hpe.task hlt).settled hs⟩
      · rw [hh] at ht
        cases ht
    · rw [hp] at hq
      cases hq
  pending q hq := by
    rcases hp with hp | hp
    · exact Nat.lt_of_lt_of_le (hb.pending q (hp.symm.trans hq)) (Nat.le_of_eq hn.symm)
    · rw [hp] at hq
      cases hq

/-- The frame rule where only fields change that `Basic` does not mention. -/
theorem Basic.same {c c' : Conn} {h : Option (TaskId × ConnState)} (hb : Basic (c, h))
    (hpe : Persists c c') (hi : c'.inflight = c.inflight) (hq : c'.queue = c.queue)
    (hp : c'.pendingCancel = c.pendingCancel) (hh : c'.cancels = c.cancels)
    (hn : c'.nextCancel = c.nextCancel) : Basic (c', h) := by
  refine hb.frame ?_ hpe (.inl hp) (fun _ => .inl (by rw [hh])) hn
  unfold places
  dsimp only
  rw [hi, hq]

theorem Basic.relinks {c c' : Conn} {h : Option (TaskId × ConnState)} (hb : Basic (c, h))
    (hr : Relinks c c') : Basic (c', h) := by
  refine hb.frame ?_ hr.persists hr.pendingCancel (fun q => ?_) hr.nextCancel
  · have hi : c'.inflight.Sublist c.inflight := by
      rcases hr.inflight with ⟨h, -⟩ | ⟨h, -⟩
      · rw [h]
      · rw [h]
        exact List.nil_sublist _
    have hq : c'.queue.Sublist c.queue := by
      rcases hr.queue with h | h
      · rw [h]
      · rw [h]
        exact List.nil_sublist _
    exact ((List.Sublist.append (.refl _) hi).append hq).subperm
  · obtain ⟨b, hb⟩ := hr.cancels q
    rw [hb]
    exact .inl rfl

theorem CancelMove.basic {c c' : Conn} {h : Option (TaskId × ConnState)}
    (hm : CancelMove cfg c h c') (hb : Basic (c, h)) : Basic (c', h) := by
  have hpe := hm.persists
  cases hm with
  | sendCancel t hi hs =>
    rcases @sendCancelRequest_shape cfg c t with h | h
    · rw [h] at hpe ⊢
      exact hb
    · rw [h] at hpe ⊢
      have hlt : t < c.nextTask := by
        have ht : t ∈ c.inflight := List.mem_of_mem_head? hi
        exact hb.fresh t (by simp [places, ht])
      exact { hb with
        called := hpe.settledCalled hb.called
        heads := fun q u hq hu => by
          obtain rfl := Option.some.inj hq
          dsimp only at hu
          rw [Function.update_self] at hu
          obtain rfl := Option.some.inj hu
          exact ⟨hlt, hs⟩
        pending := fun q hq => by
          obtain rfl := Option.some.inj hq
          exact Nat.lt_succ_self _ }
  | answered p b =>
    refine hb.frame (.refl _) hpe (.inl rfl) (fun q => .inl ?_) rfl
    by_cases hq : q = p
    · subst hq
      simp only [setCancel, Function.update_self, PendingCancel.answer]
      split <;> rfl
    · simp only [setCancel, Function.update_of_ne hq]
  | cancelTimer p b =>
    refine hb.frame (.refl _) hpe (.inl rfl) (fun q => .inl ?_) rfl
    by_cases hq : q = p
    · subst hq
      simp only [setCancel, Function.update_self]
    · simp only [setCancel, Function.update_of_ne hq]
  | noteSuspects p =>
    obtain ⟨_, h, -⟩ := noteSuspects_shape c _ p
    rw [h] at hpe ⊢
    refine hb.frame (.refl _) hpe (.inl rfl) (fun q => ?_) rfl
    by_cases hq : q = p
    · subst hq
      exact .inr (by simp only [Function.update_self])
    · exact .inl (by simp only [Function.update_of_ne hq])
  | checkLate late =>
    rcases checkLateCancel_shape c _ late with ⟨-, -, _, pending, _, h, hc, hp⟩ | ⟨-, h⟩
    · rw [h] at hpe ⊢
      refine hb.frame (.refl _) hpe ?_ (fun q => .inl ?_) rfl
      · rcases hp with ⟨hp, -⟩ | ⟨-, -, hp, -⟩
        · exact .inl hp
        · exact .inr hp
      · obtain ⟨_, hq⟩ := hc q
        dsimp only
        rw [hq]
    · rw [h] at hpe ⊢
      exact hb.same hpe rfl rfl rfl rfl rfl
  | clearStopped | clearConfirmed => exact hb.relinks (clearPendingCancel_relinks c)
  | retiring => exact hb.same hpe rfl rfl rfl rfl rfl

/-- The task in the callback's hands joins the queue. -/
theorem places_enqueue (c : Conn) (t : TaskId) (st : ConnState) :
    (places ({ c with queue := c.queue ++ [t] }, none)).Perm (places (c, some (t, st))) := by
  simp only [places, Option.map_some, Option.map_none, Option.toList_some, Option.toList_none]
  rw [List.nil_append, ← List.append_assoc, List.append_assoc [_]]
  exact List.perm_append_comm

/-- **`Basic` holds at every point of every callback.** -/
theorem Move.basic {l : Option BackendMsg} {c c' : Conn} {h h' : Option (TaskId × ConnState)}
    (hm : Move cfg PumpMove l (c, h) (c', h')) (hb : Basic (c, h)) : Basic (c', h') := by
  have hpe := hm.persists
  cases hm with
  | gate hm =>
    obtain ⟨_, _, _, _, _, _, _, h⟩ := hm.shape
    rw [h] at hpe ⊢
    exact hb.same hpe rfl rfl rfl rfl rfl
  | cancel hm => exact hm.basic hb
  | pump hm =>
    obtain ⟨_, _, _, h, -⟩ := hm.shape
    rw [h] at hpe ⊢
    exact hb.same hpe rfl rfl rfl rfl rfl
  | link hm => exact hb.relinks hm.relinks
  | emit s f =>
    obtain ⟨_, h, -⟩ := writeTo_shape c s [⟨.link, f⟩]
    rw [h] at hpe ⊢
    exact hb.same hpe rfl rfl rfl rfl rfl
  | settles hs => exact hb.relinks hs.relinks
  | refuse r hc =>
    exact hb.same hpe rfl rfl rfl rfl rfl
  | create r hc =>
    have hlt : ∀ t ∈ places (c, none), t ≠ c.nextTask := fun t ht =>
      Nat.ne_of_lt (hb.fresh t ht)
    have hmem : c.nextTask ∉ places (c, none) := fun hmem => hlt _ hmem rfl
    exact {
      nodup := List.nodup_cons.mpr ⟨hmem, hb.nodup⟩
      fresh := fun t ht => by
        rcases List.mem_cons.mp ht with rfl | ht
        · exact Nat.lt_succ_self _
        · exact Nat.lt_succ_of_lt (hb.fresh t ht)
      called := hpe.settledCalled hb.called
      heads := fun q t hq ht => by
        obtain ⟨hlt, hs⟩ := hb.heads q t hq ht
        exact ⟨Nat.lt_succ_of_lt hlt, (hpe.task hlt).settled hs⟩
      pending := hb.pending }
  | quit t e =>
    have hq : Settles (c.modTask t fun k => { k with settled := true, timer := false })
        (c.quit t e) := rejectTask_settles _ t e
    obtain ⟨_, _, h, -, -⟩ := hq
    rw [h] at hpe ⊢
    exact hb.same hpe rfl rfl rfl rfl rfl
  | discard t => exact hb.same hpe rfl rfl rfl rfl rfl
  | release hs =>
    exact hb.frame (List.sublist_cons_self _ _).subperm hpe (.inl rfl) (fun _ => .inl rfl) rfl
  | dequeue t hs =>
    refine hb.frame ?_ hpe (.inl rfl) (fun _ => .inl rfl) rfl
    exact (List.Sublist.append (.refl _) List.erase_sublist).subperm
  | @enqueue _ t =>
    exact hb.frame (places_enqueue c t _).subperm hpe (.inl rfl) (fun _ => .inl rfl) rfl
  | @requeue _ t =>
    exact hb.frame (places_enqueue c t _).subperm hpe (.inl rfl) (fun _ => .inl rfl) rfl
  | finish hr =>
    obtain ⟨_, _, h, -⟩ := settleFinished_shape (c.clearTimers _) _
    rw [h] at hpe ⊢
    exact hb.frame (List.sublist_cons_self _ _).subperm hpe (.inl rfl) (fun _ => .inl rfl) rfl
  | start t rest hq =>
    cases hs : ({ c with queue := rest }.serialize cfg t).2 with
    | none =>
      obtain ⟨_, _, _, _, _, _, _, _, -, h⟩ := startTask_ok_shape hs
      rw [h] at hpe ⊢
      refine hb.frame (List.Perm.subperm (.of_eq ?_)) hpe (.inl rfl) (fun _ => .inl rfl) rfl
      simp [places, hq]
    | some e =>
      obtain ⟨_, _, _, _, _, h, -⟩ := startTask_throw_shape hs
      rw [h] at hpe ⊢
      refine hb.frame (List.Sublist.subperm ?_) hpe (.inl rfl) (fun _ => .inl rfl) rfl
      simp only [places, hq]
      exact List.Sublist.append (.refl _) (List.sublist_cons_self t rest)
  | flush =>
    obtain ⟨_, _, _, _, h, -⟩ := flushWrites_shape c
    rw [h] at hpe ⊢
    exact hb.same hpe rfl rfl rfl rfl rfl
  | listen m =>
    obtain ⟨_, h, -⟩ := @listen_shape cfg c m
    rw [h] at hpe ⊢
    exact hb.same hpe rfl rfl rfl rfl rfl
  | miss m =>
    obtain ⟨_, h, -⟩ := receive_shape c m
    rw [h] at hpe ⊢
    exact hb.same hpe rfl rfl rfl rfl rfl
  | cache =>
    rcases cacheCurrent_shape c with h | ⟨_, _, _, _, -, -, -, -, h⟩
    · rw [h] at hpe ⊢
      exact hb
    · rw [h] at hpe ⊢
      exact hb.same hpe rfl rfl rfl rfl rfl
  | attemptDone status =>
    obtain ⟨_, h', -⟩ := receive_shape c (.readyForQuery status)
    obtain ⟨_, _, h, -⟩ := attemptDone_shape (c.receive (.readyForQuery status)) (status.getD 'I')
    rw [h, h'] at hpe ⊢
    exact hb.same hpe rfl rfl rfl rfl rfl
  | idle status =>
    obtain ⟨_, h, -⟩ := receive_shape c (.readyForQuery status)
    rw [h] at hpe ⊢
    exact hb.same hpe rfl rfl rfl rfl rfl
  | pop status t rest hc hi =>
    obtain ⟨_, h, -⟩ := receive_shape c (.readyForQuery status)
    rw [h] at hpe ⊢
    refine hb.frame (List.Perm.subperm (.of_eq ?_)) hpe (.inl rfl) (fun _ => .inl rfl) rfl
    simp [places, hi, popHead, note]
  | copyNone =>
    obtain ⟨_, h', -⟩ := receive_shape c .copyInResponse
    obtain ⟨_, h, -⟩ := writeSocket_shape (c.receive .copyInResponse) _
    rw [h, h'] at hpe ⊢
    exact hb.same hpe rfl rfl rfl rfl rfl
  | copyPlain t =>
    obtain ⟨_, _, h, -⟩ := @noteCopyIn_shape cfg c t
    obtain ⟨_, h', -⟩ := writeSocket_shape (c.noteCopyIn cfg t) _
    rw [h', h] at hpe ⊢
    exact hb.same hpe rfl rfl rfl rfl rfl
  | copyPump t =>
    obtain ⟨_, _, h, -⟩ := @noteCopyIn_shape cfg c t
    rw [h] at hpe ⊢
    exact hb.same hpe rfl rfl rfl rfl rfl
  | copyBoth =>
    obtain ⟨_, h, -⟩ := @listen_shape cfg c .copyBothResponse
    obtain ⟨_, h', -⟩ := writeSocket_shape (c.listen cfg .copyBothResponse) _
    rw [h', h] at hpe ⊢
    exact hb.same hpe rfl rfl rfl rfl rfl
  | parseFailed =>
    obtain ⟨_, _, h⟩ := noteParseFailure_shape c _
    rw [h] at hpe ⊢
    exact hb.same hpe rfl rfl rfl rfl rfl
  | invalidated =>
    obtain ⟨_, _, h⟩ := dropInvalidated_shape c _
    rw [h] at hpe ⊢
    exact hb.same hpe rfl rfl rfl rfl rfl

theorem Moves.basic {ms : List BackendMsg} {p q : Point} (h : Moves cfg PumpMove ms p q) (hb : Basic p) :
    Basic q :=
  h.keep (fun _ _ _ hm => hm.basic) hb

end Conn

end Minipg
