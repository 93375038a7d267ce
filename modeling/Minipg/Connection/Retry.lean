import Minipg.Connection.Contract
import Minipg.Connection.Roster

/-!
# The second run of a statement

`finishTask` sends a statement that the server has invalidated (0A000, 26000) to the back of
the queue and runs it again, unless the session is in a transaction block.  `RosterMove` says
what each move of the connection does to the roster, so that the connection refines it
(`Move.turns`), and `keepsContext` carries the promise of the roster over to all runs: where
no block is opened between the two runs of a statement, and no statement ends its block by
failing so, a second run happens outside every block.

Without the first condition it fails: the second run of `behindBegin` comes after a BEGIN that
was in flight behind the first.
-/

namespace Minipg

/-- `finishTask` may run the statement again. -/
def Request.mayRerun (r : Request) : Bool := r.name.isSome && !r.stream && !r.typed && !r.wire

namespace Conn

variable {cfg : Config}

/-- The roster of a connection in the middle of a callback. -/
def roster (p : Point) : Roster where
  trace := trace p.1.ledger
  queue := p.1.queue
  held := p.2.map Prod.fst
  next := p.1.nextTask

/-! ### What a move does to the roster -/

inductive RosterMove : Point → Point → Prop
  | leave {c c' h} (hl : c'.ledger = c.ledger) (hs : c'.txStatus = c.txStatus)
      (hq : c'.queue.Sublist c.queue) (hn : c'.nextTask = c.nextTask) :
      RosterMove (c, h) (c', h)
  | release {c c' h} (hl : c'.ledger = c.ledger) (hs : c'.txStatus = c.txStatus)
      (hq : c'.queue = c.queue) (hn : c'.nextTask = c.nextTask) : RosterMove (c, h) (c', none)
  | refuse {c c' h} (hl : c'.ledger = c.ledger) (hs : c'.txStatus = c.txStatus)
      (hq : c'.queue = c.queue) (hn : c'.nextTask = c.nextTask + 1) :
      RosterMove (c, h) (c', h)
  | create {c c' st} (hl : c'.ledger = c.ledger) (hs : c'.txStatus = c.txStatus)
      (hq : c'.queue = c.queue) (hn : c'.nextTask = c.nextTask + 1) :
      RosterMove (c, none) (c', some (c.nextTask, st))
  | enqueue {c t st} (hh : (c.tasks t).heard = []) :
      RosterMove (c, some (t, st)) ({ c with queue := c.queue ++ [t] }, none)
  | requeue {c t st} (hr : c.retries (c.tasks t) = true) :
      RosterMove (c, some (t, st)) (c.requeue t, none)
  | start {c c' h t rest} (hl : c'.ledger = c.ledger ++ [.start t]) (hs : c'.txStatus = c.txStatus)
      (hq : c.queue = t :: rest) (hq' : c'.queue = rest) (hn : c'.nextTask = c.nextTask) :
      RosterMove (c, h) (c', h)
  | drop {c c' h n} (hl : c'.ledger = c.ledger ++ List.replicate (n + 1) .drop)
      (hs : c'.txStatus = c.txStatus) (hq : c'.queue.Sublist c.queue)
      (hn : c'.nextTask = c.nextTask) : RosterMove (c, h) (c', h)
  | hear {c c' h m} (hm : m.isReady = false) (hl : c'.ledger = c.ledger ++ [.reply m])
      (hs : c'.txStatus = c.txStatus) (hq : c'.queue = c.queue) (hn : c'.nextTask = c.nextTask) :
      RosterMove (c, h) (c', h)
  | ready {c c' h'} (status : Option Char) (hh : h'.map Prod.fst = c.inflight.head?)
      (hl : c'.ledger = c.ledger ++ [.reply (.readyForQuery status)])
      (hs : c'.txStatus = status.getD 'I') (hq : c'.queue = c.queue)
      (hn : c'.nextTask = c.nextTask) : RosterMove (c, none) (c', h')

/-- The frame rule: everything the roster reads stays as it is. -/
theorem RosterMove.same {c c' : Conn} {h : Option (TaskId × ConnState)}
    (hl : c'.ledger = c.ledger) (hs : c'.txStatus = c.txStatus) (hq : c'.queue = c.queue)
    (hn : c'.nextTask = c.nextTask) : RosterMove (c, h) (c', h) :=
  .leave hl hs (hq ▸ .refl _) hn

theorem Relinks.rosterMove {c c' : Conn} {h : Option (TaskId × ConnState)}
    (hr : Relinks c c') : RosterMove (c, h) (c', h) := by
  have hq : c'.queue.Sublist c.queue := by
    rcases hr.queue with hq | hq
    · rw [hq]
    · rw [hq]
      exact List.nil_sublist _
  rcases hr.inflight with ⟨-, hl⟩ | ⟨-, n, hl⟩
  · exact .leave hl hr.txStatus hq hr.nextTask
  · exact .drop hl hr.txStatus hq hr.nextTask

theorem listen_rosterMove (c : Conn) {m : BackendMsg} (hm : m.isReady = false)
    (h : Option (TaskId × ConnState)) : RosterMove (c, h) (c.listen cfg m, h) := by
  obtain ⟨_, hc, -⟩ := @listen_shape cfg c m
  rw [hc]
  exact .hear hm rfl rfl rfl rfl

theorem startTask_rosterMove (c : Conn) {t : TaskId} {rest : List TaskId}
    (hq : c.queue = t :: rest) (h : Option (TaskId × ConnState)) :
    RosterMove (c, h) ({ c with queue := rest }.startTask cfg t, h) := by
  cases hs : ({ c with queue := rest }.serialize cfg t).2 with
  | none =>
    obtain ⟨_, _, _, _, _, _, _, _, -, hc⟩ := startTask_ok_shape hs
    rw [hc]
    exact .start rfl rfl hq rfl rfl
  | some e =>
    obtain ⟨_, _, _, _, _, hc, -⟩ := startTask_throw_shape hs
    rw [hc]
    refine .leave rfl rfl ?_ rfl
    rw [hq]
    exact List.sublist_cons_self t rest

/-- **What a move does to the roster.** -/
theorem Move.roster {l : Option BackendMsg} {c c' : Conn} {h h' : Option (TaskId × ConnState)}
    (hm : Move cfg PumpMove l (c, h) (c', h')) (hi : c.connecting = true → c.inflight = []) :
    RosterMove (c, h) (c', h') := by
  have hnot : ∀ m : BackendMsg, (∀ s, m ≠ .readyForQuery s) → m.isReady = false := by
    intro m hz
    cases m with
    | readyForQuery s => exact absurd rfl (hz s)
    | _ => rfl
  cases hm with
  | gate hm =>
    obtain ⟨_, _, _, _, _, _, _, hc⟩ := hm.shape
    rw [hc]
    exact .same rfl rfl rfl rfl
  | cancel hm =>
    obtain ⟨_, _, _, _, _, _, hc, -⟩ := hm.shape
    rw [hc]
    exact .same rfl rfl rfl rfl
  | pump hm =>
    obtain ⟨_, _, _, hc, -⟩ := hm.shape
    rw [hc]
    exact .same rfl rfl rfl rfl
  | link hm => exact hm.relinks.rosterMove
  | emit s f =>
    obtain ⟨_, hc, -⟩ := writeTo_shape c s [⟨.link, f⟩]
    rw [hc]
    exact .same rfl rfl rfl rfl
  | settles hs => exact hs.relinks.rosterMove
  | refuse r => exact .refuse rfl rfl rfl rfl
  | create r => exact .create rfl rfl rfl rfl
  | quit t e =>
    obtain ⟨_, _, hc, -⟩ := rejectTask_settles
      (c.modTask t fun k => { k with settled := true, timer := false }) t e
    show RosterMove (c, h) ((c.modTask t fun k =>
      { k with settled := true, timer := false }).rejectTask t e, h)
    rw [hc]
    exact .same rfl rfl rfl rfl
  | discard t => exact .same rfl rfl rfl rfl
  | release => exact .release rfl rfl rfl rfl
  | dequeue t => exact .leave rfl rfl List.erase_sublist rfl
  | enqueue hs hh => exact .enqueue hh
  | requeue hs hr => exact .requeue hr
  | @finish _ t =>
    obtain ⟨_, _, hc, -⟩ := settleFinished_shape (c.clearTimers t) t
    rw [hc]
    exact .release rfl rfl rfl rfl
  | start t rest hq => exact startTask_rosterMove c hq h
  | flush =>
    obtain ⟨_, _, _, _, hc, -⟩ := flushWrites_shape c
    rw [hc]
    exact .same rfl rfl rfl rfl
  | listen m hz => exact listen_rosterMove c (hnot m hz) h
  | miss m hz =>
    obtain ⟨_, hc, -⟩ := receive_shape c m
    rw [hc]
    exact .hear (hnot m hz) rfl rfl rfl rfl
  | cache =>
    rcases cacheCurrent_shape c with hc | ⟨_, _, _, _, -, -, -, -, hc⟩
    · rw [hc]
      exact .same rfl rfl rfl rfl
    · rw [hc]
      exact .same rfl rfl rfl rfl
  | attemptDone status hc =>
    obtain ⟨_, hr, -⟩ := receive_shape c (.readyForQuery status)
    obtain ⟨_, _, ha, -⟩ := attemptDone_shape (c.receive (.readyForQuery status)) (status.getD 'I')
    rw [ha, hr]
    refine .ready status ?_ rfl rfl rfl rfl
    rw [hi hc]
    rfl
  | idle status hc hi =>
    obtain ⟨_, hr, -⟩ := receive_shape c (.readyForQuery status)
    rw [hr]
    refine .ready status ?_ rfl rfl rfl rfl
    rw [hi]
    rfl
  | pop status t rest hc hi =>
    obtain ⟨_, hr, -⟩ := receive_shape c (.readyForQuery status)
    rw [hr]
    refine .ready status ?_ rfl rfl rfl rfl
    rw [hi]
    rfl
  | copyNone =>
    obtain ⟨_, hr, -⟩ := receive_shape c .copyInResponse
    obtain ⟨_, hw, -⟩ := writeSocket_shape (c.receive .copyInResponse) _
    rw [hw, hr]
    exact .hear rfl rfl rfl rfl rfl
  | copyPlain t =>
    obtain ⟨_, _, hn, -⟩ := @noteCopyIn_shape cfg c t
    obtain ⟨_, hw, -⟩ := writeSocket_shape (c.noteCopyIn cfg t) _
    rw [hw, hn]
    exact .hear rfl rfl rfl rfl rfl
  | copyPump t =>
    obtain ⟨_, _, hn, -⟩ := @noteCopyIn_shape cfg c t
    rw [hn]
    exact .hear rfl rfl rfl rfl rfl
  | copyBoth =>
    obtain ⟨_, hl, -⟩ := @listen_shape cfg c .copyBothResponse
    obtain ⟨_, hw, -⟩ := writeSocket_shape (c.listen cfg .copyBothResponse) _
    rw [hw, hl]
    exact .hear rfl rfl rfl rfl rfl
  | parseFailed =>
    obtain ⟨_, _, hc⟩ := noteParseFailure_shape c _
    rw [hc]
    exact .same rfl rfl rfl rfl
  | invalidated =>
    obtain ⟨_, _, hc⟩ := dropInvalidated_shape c _
    rw [hc]
    exact .same rfl rfl rfl rfl

/-! ### What a task counts -/

/-- The status is what the last ReadyForQuery said, and a task has been started at most once more
than it has been sent back. -/
structure Tallied (p : Point) : Prop where
  status : p.1.txStatus = (trace p.1.ledger).status
  runs : ∀ t, (trace p.1.ledger).runs t ≤ (p.1.tasks t).retries + 1
  queued : ∀ t ∈ p.1.queue, (trace p.1.ledger).runs t ≤ (p.1.tasks t).retries
  held : ∀ t st, p.2 = some (t, st) →
    (trace p.1.ledger).runs t = 0 ∨ (trace p.1.ledger).pipe.heard t ≠ []
  fresh : ∀ t, p.1.nextTask ≤ t → (trace p.1.ledger).runs t = 0

theorem tallied_new : Tallied ({}, none) where
  status := rfl
  runs _ := Nat.zero_le _
  queued := by simp
  held := by simp
  fresh _ _ := rfl

/-- The frame rule for a further entry of the ledger that starts nothing. -/
theorem Tallied.entry {c c' : Conn} {h h' : Option (TaskId × ConnState)} (ht : Tallied (c, h))
    (hp : Persists c c') (r : Trace) (hl : trace c'.ledger = r)
    (hr : r.started = (trace c.ledger).started) (hs : c'.txStatus = r.status)
    (hq : ∀ t ∈ c'.queue, t ∈ c.queue)
    (hh : ∀ t st, h' = some (t, st) → r.pipe.heard t ≠ [] ∨ r.runs t = 0) :
    Tallied (c', h') := by
  have he : ∀ t, r.runs t = (trace c.ledger).runs t := fun t => by
    unfold Trace.runs
    rw [hr]
  have hruns : ∀ t, (trace c.ledger).runs t = 0 ∨
      (c.tasks t).retries ≤ (c'.tasks t).retries := fun t => by
    rcases hp.2 t with hk | ⟨hlt, -⟩
    · exact .inr hk.retries
    · exact .inl (ht.fresh t hlt)
  refine ⟨hs.trans (by rw [hl]), fun t => ?_, fun t hm => ?_, fun t st hm => ?_, fun t hlt => ?_⟩
  · show (trace c'.ledger).runs t ≤ (c'.tasks t).retries + 1
    rw [hl, he]
    have h1 : (trace c.ledger).runs t ≤ (c.tasks t).retries + 1 := ht.runs t
    have h2 := hruns t
    omega
  · show (trace c'.ledger).runs t ≤ (c'.tasks t).retries
    rw [hl, he]
    have h1 : (trace c.ledger).runs t ≤ (c.tasks t).retries := ht.queued t (hq t hm)
    have h2 := hruns t
    omega
  · show (trace c'.ledger).runs t = 0 ∨ (trace c'.ledger).pipe.heard t ≠ []
    rw [hl]
    exact (hh t st hm).symm
  · show (trace c'.ledger).runs t = 0
    rw [hl, he]
    exact ht.fresh t (Nat.le_trans hp.1 hlt)

/-- The frame rule: the ledger stays as it is. -/
theorem Tallied.frame {c c' : Conn} {h h' : Option (TaskId × ConnState)} (ht : Tallied (c, h))
    (hp : Persists c c') (hl : c'.ledger = c.ledger) (hs : c'.txStatus = c.txStatus)
    (hq : ∀ t ∈ c'.queue, t ∈ c.queue) (hh : ∀ t st, h' = some (t, st) → h = some (t, st) ∨
      (trace c.ledger).runs t = 0) : Tallied (c', h') := by
  refine ht.entry hp (trace c.ledger) (by rw [hl]) rfl (hs.trans ht.status) hq ?_
  intro t st hm
  rcases hh t st hm with hm | hz
  · exact (ht.held t st hm).symm
  · exact .inr hz

theorem trace_drops (log : List Entry) (n : Nat) :
    trace (log ++ List.replicate (n + 1) .drop) = (trace log).step .drop := by
  induction n with
  | zero => exact Trace.trace_append_singleton log .drop
  | succ n ih =>
    rw [List.replicate_succ', ← List.append_assoc, Trace.trace_append_singleton, ih]
    rfl

/-- Who has heard something has heard it for good. -/
theorem step_heard_ne {r : Trace} {t : TaskId} (h : r.pipe.heard t ≠ []) (m : BackendMsg) :
    (r.step (.reply m)).pipe.heard t ≠ [] := by
  rw [Trace.step_pipe]
  by_cases hc : r.pipe.waiting.head? = some t
  · rw [Fifo.step_reply_heard _ hc]
    simp
  · rw [Fifo.step_reply_heard_of_ne _ hc]
    exact h

theorem Tallied.requeue {c : Conn} {t : TaskId} {st : ConnState} (ht : Tallied (c, some (t, st))) :
    Tallied (c.requeue t, none) := by
  have hup : ∀ u, ((c.requeue t).tasks u).retries =
      if u = t then (c.tasks t).retries + 1 else (c.tasks u).retries := fun u => by
    show (Function.update c.tasks t (c.tasks t).forRetry u).retries = _
    rw [Function.update_apply]
    split
    · rfl
    · rfl
  refine ⟨ht.status, fun u => ?_, fun u hu => ?_, fun _ _ h => (by cases h), ht.fresh⟩
  · have h1 : (trace c.ledger).runs u ≤ (c.tasks u).retries + 1 := ht.runs u
    show (trace c.ledger).runs u ≤ ((c.requeue t).tasks u).retries + 1
    rw [hup]
    split
    · rename_i hut
      subst hut
      omega
    · exact h1
  · show (trace c.ledger).runs u ≤ ((c.requeue t).tasks u).retries
    rw [hup]
    split
    · rename_i hut
      subst hut
      exact ht.runs u
    · rename_i hut
      rcases List.mem_append.mp hu with hu | hu
      · exact ht.queued u hu
      · exact absurd (List.mem_singleton.mp hu) hut

/-- A queued task is started: it was sent back as often as it was started before. -/
theorem Tallied.start {c c' : Conn} {h : Option (TaskId × ConnState)} {t : TaskId}
    {rest : List TaskId} (ht : Tallied (c, h)) (hb : Basic (c, h)) (hp : Persists c c')
    (hl : c'.ledger = c.ledger ++ [.start t]) (hs : c'.txStatus = c.txStatus)
    (hq : c.queue = t :: rest) (hq' : c'.queue = rest) : Tallied (c', h) := by
  have htr : trace c'.ledger = (trace c.ledger).step (.start t) := by
    rw [hl, Trace.trace_append_singleton]
  have htq : t ∈ c.queue := by
    rw [hq]
    exact List.mem_cons_self
  have hlt : ∀ u ∈ places (c, h), u < c.nextTask := hb.fresh
  have htn : t < c.nextTask := hlt t (by simp [places, htq])
  have hn := hb.nodup
  simp only [places, hq] at hn
  have hne : ∀ u, u ∈ (h.map Prod.fst).toList ++ c.inflight ++ rest → t ≠ u := by
    rintro u hu rfl
    exact (List.nodup_cons.mp (List.perm_middle.nodup_iff.mp hn)).1 hu
  have hkeep : ∀ u, u < c.nextTask → (c.tasks u).retries ≤ (c'.tasks u).retries := fun u hu =>
    (hp.task hu).retries
  refine ⟨?_, fun u => ?_, fun u hu => ?_, fun u st hu => ?_, fun u hu => ?_⟩
  · show c'.txStatus = (trace c'.ledger).status
    rw [htr, hs]
    exact ht.status
  · show (trace c'.ledger).runs u ≤ (c'.tasks u).retries + 1
    rw [htr, Trace.runs_start]
    have h1 : (trace c.ledger).runs u ≤ (c.tasks u).retries + 1 := ht.runs u
    by_cases hu : t = u
    · subst hu
      have h2 : (trace c.ledger).runs t ≤ (c.tasks t).retries := ht.queued t htq
      have h3 := hkeep t htn
      rw [if_pos rfl]
      omega
    · rw [if_neg hu]
      rcases hp.2 u with hk | ⟨hge, -⟩
      · have h3 := hk.retries
        omega
      · have h3 : (trace c.ledger).runs u = 0 := ht.fresh u hge
        omega
  · have hu' : u ∈ rest := hq' ▸ hu
    have huq : u ∈ c.queue := by
      rw [hq]
      exact List.mem_cons_of_mem _ hu'
    show (trace c'.ledger).runs u ≤ (c'.tasks u).retries
    rw [htr, Trace.runs_start, if_neg (hne u (List.mem_append_right _ hu'))]
    have h2 : (trace c.ledger).runs u ≤ (c.tasks u).retries := ht.queued u huq
    have h3 := hkeep u (hlt u (by simp [places, huq]))
    omega
  · subst hu
    show (trace c'.ledger).runs u = 0 ∨ (trace c'.ledger).pipe.heard u ≠ []
    rw [htr, Trace.runs_start, if_neg (hne u (by simp))]
    exact ht.held u st rfl
  · show (trace c'.ledger).runs u = 0
    have hge : c.nextTask ≤ u := Nat.le_trans hp.1 hu
    have hut : t ≠ u := by
      rintro rfl
      exact absurd htn (Nat.not_lt_of_le hge)
    rw [htr, Trace.runs_start, if_neg hut]
    exact ht.fresh u hge

/-- **The tally is kept.** -/
theorem RosterMove.tallied {c c' : Conn} {h h' : Option (TaskId × ConnState)}
    (hm : RosterMove (c, h) (c', h')) (hb : Basic (c, h)) (hp : Persists c c')
    (ha : Attributed cfg c) (ht : Tallied (c, h)) : Tallied (c', h') := by
  cases hm with
  | leave hl hs hq => exact ht.frame hp hl hs (fun t hm => hq.subset hm) fun _ _ h => .inl h
  | release hl hs hq =>
    exact ht.frame hp hl hs (fun t hm => hq ▸ hm) fun _ _ h => by cases h
  | refuse hl hs hq => exact ht.frame hp hl hs (fun t hm => hq ▸ hm) fun _ _ h => .inl h
  | create hl hs hq =>
    refine ht.frame hp hl hs (fun t hm => hq ▸ hm) fun t st h => .inr ?_
    cases h
    exact ht.fresh _ (Nat.le_refl _)
  | @enqueue _ t st hh =>
    refine ⟨ht.status, ht.runs, fun u hu => ?_, fun _ _ h => (by cases h), ht.fresh⟩
    rcases List.mem_append.mp hu with hu | hu
    · exact ht.queued u hu
    · obtain rfl := List.mem_singleton.mp hu
      have hheard : (trace c.ledger).pipe.heard u = [] := by
        rw [Trace.trace_pipe, ha.heard, hh]
      rcases ht.held u st rfl with hz | hne
      · exact Nat.le_trans (Nat.le_of_eq hz) (Nat.zero_le _)
      · exact absurd hheard hne
  | requeue => exact ht.requeue
  | start hl hs hq hq' => exact ht.start hb hp hl hs hq hq'
  | @drop _ _ _ n hl hs hq =>
    have htr : trace c'.ledger = (trace c.ledger).step .drop := by
      rw [hl, trace_drops]
    refine ht.entry hp _ htr rfl (hs.trans ht.status) (fun t hm => hq.subset hm) ?_
    exact fun t st h => (ht.held t st h).symm
  | @hear _ _ _ m hm hl hs hq =>
    have htr : trace c'.ledger = (trace c.ledger).step (.reply m) := by
      rw [hl, Trace.trace_append_singleton]
    have hst := Trace.step_hear (trace c.ledger) hm
    refine ht.entry hp _ htr (by rw [hst]) (by rw [hst]; exact hs.trans ht.status)
      (fun t hm => hq ▸ hm) fun t st h => ?_
    rcases ht.held t st h with hz | hne
    · rw [hst]
      exact .inr hz
    · exact .inl (step_heard_ne hne m)
  | ready status hh hl hs hq =>
    have htr : trace c'.ledger = (trace c.ledger).step (.reply (.readyForQuery status)) := by
      rw [hl, Trace.trace_append_singleton]
    refine ht.entry hp _ htr rfl hs (fun t hm => hq ▸ hm) fun t st h => .inl ?_
    subst h
    have hw : (trace c.ledger).pipe.waiting.head? = some t := by
      rw [Trace.trace_pipe, ha.waiting]
      exact hh.symm
    rw [Trace.step_pipe, Fifo.step_reply_heard _ hw]
    simp

/-! ### The connection refines its roster -/

/-- A task that is sent back has an error that invalidates its statement, and may be run again. -/
theorem retries_spec {c : Conn} {t : TaskId} (ha : Attributed cfg c)
    (hr : c.retries (c.tasks t) = true) :
    (c.tasks t).mayRerun = true ∧ (c.tasks t).retries = 0 ∧ isInBlock c.txStatus = false ∧
      Invalidated cfg (c.tasks t).heard := by
  unfold retries at hr
  simp only [Bool.and_eq_true, Bool.not_eq_true', decide_eq_true_eq] at hr
  obtain ⟨⟨⟨⟨⟨⟨⟨hname, hinv⟩, -⟩, hstream⟩, htyped⟩, hwire⟩, htx⟩, hn⟩ := hr
  refine ⟨by simp [Request.mayRerun, hname, hstream, htyped, hwire], by omega, htx, ?_⟩
  have hcode : ∃ e, (c.tasks t).error = some e ∧ (e.code = some "0A000" ∨ e.code = some "26000") := by
    unfold isInvalidated Task.errorCode at hinv
    cases he : (c.tasks t).error with
    | none => simp [he] at hinv
    | some e => exact ⟨e, rfl, by simpa [he] using hinv⟩
  obtain ⟨e, he, hc⟩ := hcode
  obtain ⟨e', hee, hsrc⟩ := (ha.own t).error e he
  refine ⟨e', hsrc, ?_⟩
  rcases hee with rfl | rfl
  · exact hc
  · exact hc

/-- **A move of the connection is turns of its roster.** -/
theorem RosterMove.turns {c c' : Conn} {h h' : Option (TaskId × ConnState)}
    {mayRerun : TaskId → Prop} (hm : RosterMove (c, h) (c', h')) (hb : Basic (c, h))
    (ha : Attributed cfg c) (ht : Tallied (c, h))
    (hr : ∀ t, t < c.nextTask → (c.tasks t).mayRerun = true → mayRerun t) :
    Turns cfg mayRerun (roster (c, h)) (roster (c', h')) := by
  cases hm with
  | leave hl hs hq hn =>
    have he : roster (c', h) = { roster (c, h) with queue := c'.queue } := by
      simp [roster, hl, hn]
    rw [he]
    exact .single (.leave c'.queue hq)
  | release hl hs hq hn =>
    have he : roster (c', none) = { roster (c, h) with held := none } := by
      simp [roster, hl, hq, hn]
    rw [he]
    exact .single .release
  | refuse hl hs hq hn =>
    have he : roster (c', h) = { roster (c, h) with next := (roster (c, h)).next + 1 } := by
      simp [roster, hl, hq, hn]
    rw [he]
    exact .single .refuse
  | @create _ _ st hl hs hq hn =>
    have he : roster (c', some (c.nextTask, st)) = { roster (c, none) with
        held := some (roster (c, none)).next, next := (roster (c, none)).next + 1 } := by
      simp [roster, hl, hq, hn]
    rw [he]
    exact .single (.create rfl)
  | @enqueue _ t st hh =>
    refine .single (.enqueue t rfl ?_)
    show (trace c.ledger).pipe.heard t = []
    rw [Trace.trace_pipe, ha.heard, hh]
  | @requeue _ t st hre =>
    obtain ⟨hmay, hzero, hidle, hinv⟩ := retries_spec ha hre
    have hlt : t < c.nextTask := hb.fresh t (by simp [places])
    have hruns : (trace c.ledger).runs t ≤ (c.tasks t).retries + 1 := ht.runs t
    refine .single (.requeue t rfl (hr t hlt hmay) ?_ ?_ ?_)
    · show (trace c.ledger).runs t ≤ 1
      omega
    · show isInBlock (trace c.ledger).status = false
      have hst : c.txStatus = (trace c.ledger).status := ht.status
      rw [← hst]
      exact hidle
    · show Invalidated cfg ((trace c.ledger).pipe.heard t)
      rw [Trace.trace_pipe, ha.heard]
      exact hinv
  | @start _ _ _ t rest hl hs hq hq' hn =>
    have he : roster (c', h) = { roster (c, h) with
        trace := (roster (c, h)).trace.step (.start t), queue := rest } := by
      simp [roster, hl, hq', hn, Trace.trace_append_singleton]
    rw [he]
    exact .single (.start t rest hq)
  | @drop _ _ _ n hl hs hq hn =>
    have he : roster (c', h) = { roster (c, h) with
        trace := (roster (c, h)).trace.step .drop, queue := c'.queue } := by
      simp [roster, hl, hn, trace_drops]
    rw [he]
    exact .tail (.single .drop) (.leave c'.queue hq)
  | @hear _ _ _ m hm hl hs hq hn =>
    have he : roster (c', h) = { roster (c, h) with
        trace := (roster (c, h)).trace.step (.reply m) } := by
      simp [roster, hl, hq, hn, Trace.trace_append_singleton]
    rw [he]
    exact .single (.hear m hm)
  | ready status hh hl hs hq hn =>
    have hw : (trace c.ledger).pipe.waiting.head? = h'.map Prod.fst := by
      rw [Trace.trace_pipe, ha.waiting, hh]
    have he : roster (c', h') = { roster (c, none) with
        trace := (roster (c, none)).trace.step (.reply (.readyForQuery status))
        held := (roster (c, none)).trace.pipe.waiting.head? } := by
      simp [roster, hl, hq, hn, Trace.trace_append_singleton, hw]
    rw [he]
    exact .single (.ready status rfl)

theorem dialing_roster {c : Conn} {e : Event} (hd : e.isDialing = true) :
    RosterMove (c, none) (c.step cfg e, none) := by
  cases e with
  | connect => exact (connect_relinks c).rosterMove
  | loopWake l => exact (loopWake_relinks c l).rosterMove
  | dialed d =>
    show RosterMove (c, none) (c.dialed d, none)
    obtain ⟨_, _, _, _, _, hc, -⟩ := dialed_shape c d
    rw [hc]
    exact .same rfl rfl rfl rfl
  | _ => cases hd

/-- The roster is in order, if the transactions of the ledger let it. -/
def Promised (cfg : Config) (p : Point) : Prop :=
  ∀ mayRerun : TaskId → Prop,
    (∀ t, t < p.1.nextTask → (p.1.tasks t).mayRerun = true → mayRerun t) →
      (trace p.1.ledger).Apart → (trace p.1.ledger).Closing cfg mayRerun → Orderly (roster p)

theorem RosterMove.promised {c c' : Conn} {h h' : Option (TaskId × ConnState)}
    (hm : RosterMove (c, h) (c', h')) (hb : Basic (c, h)) (hp : Persists c c')
    (ha : Attributed cfg c) (ht : Tallied (c, h)) (hpr : Promised cfg (c, h)) :
    Promised cfg (c', h') := by
  intro mayRerun hr hap hcl
  have hr' : ∀ t, t < c.nextTask → (c.tasks t).mayRerun = true → mayRerun t := by
    intro t hlt hmay
    refine hr t (Nat.lt_of_lt_of_le hlt hp.1) ?_
    rw [← hmay]
    exact (congrArg Request.mayRerun (hp.task hlt).core :)
  have hturns := hm.turns hb ha ht hr'
  have ho : Orderly (roster (c, h)) :=
    hpr mayRerun hr' (hap.earlier hturns.grows) (hcl.earlier hturns.grows)
  exact hturns.orderly ho hap hcl

/-- What holds in every run without throws after the death of the socket. -/
theorem reachable_promised {c : Conn} (h : Reachable cfg c)
    (hh : ∀ m ∈ c.history, m.isClaimed = true) : Promised cfg (c, none) := by
  have hI := reachable_invariant
    (I := fun p => (∀ m ∈ p.1.history, m.isClaimed = true) → Linked p.1.link ∧ Live p ∧
      Attributed cfg p.1 ∧ Tallied p ∧ Promised cfg p) ?_ ?_ ?_ h
  · exact (hI hh).2.2.2.2
  · exact fun _ => ⟨.fresh (.inl rfl), live_new, attributed_new, tallied_new,
      fun _ _ _ _ => Orderly.start_new⟩
  · intro c e hd hb ih hh
    obtain ⟨hl, hv, ha, ht, hpr⟩ := ih fun m hmem => hh m ((dialing_history hd).subset hmem)
    have hp := @dialing_persists cfg c e hd
    have hm := @dialing_roster cfg c e hd
    exact ⟨dialing_linked hd hl, dialing_live hd hl hb hv, dialing_attributed hd ha,
      hm.tallied hb hp ha ht, hm.promised hb hp ha ht hpr⟩
  · rintro l ⟨c, h⟩ ⟨c', h'⟩ hb hm ih hh
    obtain ⟨hl, hv, ha, ht, hpr⟩ := ih fun m hmem => hh m (hm.history.subset hmem)
    have hp := hm.persists
    have hi : c.connecting = true → c.inflight = [] := fun hc =>
      (hv.quiet fun hr => hl.not_connecting hr hc).1
    have hr := hm.roster hi
    exact ⟨hm.linked hl hh, hm.live hl hb hv, hm.attributed hl hb hv ha,
      hr.tallied hb hp ha ht, hr.promised hb hp ha ht hpr⟩

/-! ### The claim -/

/-- No statement that was started between the two runs of another opens a block, and no
statement that may be run again ends its block by failing as an invalidated one does. -/
structure Untangled (cfg : Config) (c : Conn) : Prop where
  apart : (trace c.ledger).Apart
  closing : (trace c.ledger).Closing cfg fun t => (c.tasks t).mayRerun = true

/-- **A second run keeps to its context** in every run whose transactions do not come between the
runs of a statement. -/
theorem keepsContext {c : Conn} (h : Reachable cfg c) (hh : ∀ m ∈ c.history, m.isClaimed = true)
    (hu : Untangled cfg c) : (trace c.ledger).KeepsContext := by
  have hp := reachable_promised h hh
  exact (hp _ (fun _ _ hm => hm) hu.apart hu.closing).context

/-- A named statement that the server has forgotten, and the reply to it. -/
def named : Request := { sql := "SELECT 1", name := some "q" }

def invalidated : List BackendMsg := [.errorResponse (pgError "26000"), .readyForQuery (some 'I')]

/-- The second run is over when a transaction begins. -/
def beforeBegin : List Event :=
  [.connect, .dialed 0, .sockRoom 100, .data 0 [.readyForQuery (some 'I')], .submit named none,
    .flush, .data 0 invalidated, .flush,
    .data 0 [.commandComplete "SELECT 1", .readyForQuery (some 'I')],
    .submit { sql := "BEGIN" } none, .flush,
    .data 0 [.commandComplete "BEGIN", .readyForQuery (some 'T')]]

theorem keepsContext_beforeBegin : (trace (run {} beforeBegin).ledger).KeepsContext := by
  refine @keepsContext {} _ (reachable_run (by decide)) (by decide) ⟨?_, ?_⟩
  · intro y hy ho
    have hone : ∀ y ∈ (trace (run {} beforeBegin).ledger).readies,
        y.opens = true → y.task = some 1 := by decide
    exact ⟨1, hone y hy ho, by decide⟩
  · intro y hy hc
    have hnone : ∀ y ∈ (trace (run {} beforeBegin).ledger).readies, y.closes = false := by decide
    rw [hnone y hy] at hc
    cases hc

/-- A BEGIN is in flight behind the statement when it fails. -/
def behindBegin : List Event :=
  [.connect, .dialed 0, .sockRoom 100, .data 0 [.readyForQuery (some 'I')], .submit named none,
    .submit { sql := "BEGIN" } none, .flush, .data 0 invalidated, .flush,
    .data 0 [.commandComplete "BEGIN", .readyForQuery (some 'T')],
    .data 0 [.commandComplete "SELECT 1", .readyForQuery (some 'T')]]

theorem keepsContext_fails :
    ¬ ∀ (cfg : Config) (c : Conn), Reachable cfg c → (trace c.ledger).KeepsContext := by
  intro h
  have hc := h {} (run {} behindBegin) (reachable_run (by decide))
  have hnot : ¬ ∀ y ∈ (trace (run {} behindBegin).ledger).readies,
      1 < y.run → isInBlock y.before = false := by decide
  exact hnot hc.again

/-- A COMMIT whose deferred trigger fails so has ended its block, and is run again. -/
def commitFails : List Event :=
  [.connect, .dialed 0, .sockRoom 100, .data 0 [.readyForQuery (some 'I')],
    .submit { sql := "BEGIN" } none, .flush,
    .data 0 [.commandComplete "BEGIN", .readyForQuery (some 'T')],
    .submit { sql := "COMMIT", name := some "c" } none, .flush,
    .data 0 [.errorResponse (pgError "0A000"), .readyForQuery (some 'I')], .flush]

example : ∃ y ∈ (trace (run {} commitFails).ledger).readies, isInBlock y.before = true ∧
    ∃ t, y.task = some t ∧ y.run < (trace (run {} commitFails).ledger).runs t :=
  ⟨_, List.getLast_mem (by decide), by decide, 1, by decide, by decide⟩

end Conn

end Minipg
