import Minipg.Connection.Linking

/-!
# Nothing is forgotten

A task leaves the queue and the pipeline only into the hands of a callback, and the
callback settles it, puts it back or starts it.  `Live` says so at every point, together
with what the death of the connection leaves behind: nothing is in flight unless the
connection is ready, and nothing is queued once it is closed.
-/

namespace Minipg

namespace Conn

variable {cfg : Config}

structure Live (p : Point) : Prop where
  quiet : p.1.state ≠ .ready → p.1.inflight = [] ∧ p.1.outbuf = []
  closed : p.1.state = .closed → p.1.queue = []
  held : ∀ t st, p.2 = some (t, st) → st ≠ .closed
  settled : ∀ t, t < p.1.nextTask → t ∉ places p → (p.1.tasks t).settlements ≠ []

theorem live_new : Live ({}, none) where
  quiet _ := ⟨rfl, rfl⟩
  closed _ := rfl
  held := by simp
  settled := by simp

/-- The frame rule of `Live`: the state, the queue and the pipeline stay as they are. -/
theorem Live.same {c c' : Conn} {h : Option (TaskId × ConnState)} (hv : Live (c, h))
    (hp : Persists c c') (hn : c'.nextTask = c.nextTask) (hs : c'.state = c.state)
    (hi : c'.inflight = c.inflight) (hq : c'.queue = c.queue)
    (ho : c'.outbuf = c.outbuf ∨ c'.outbuf = []) : Live (c', h) where
  quiet hr := by
    obtain ⟨hi', ho'⟩ := hv.quiet (fun h => hr (hs.trans h))
    refine ⟨hi.trans hi', ?_⟩
    rcases ho with ho | ho
    · exact ho.trans ho'
    · exact ho
  closed hc := hq.trans (hv.closed (hs.symm.trans hc))
  held := hv.held
  settled t ht hm := by
    have hlt : t < c.nextTask := Nat.lt_of_lt_of_eq ht hn
    have hm' : t ∉ places (c, h) := by
      unfold places at hm ⊢
      dsimp only at hm ⊢
      rwa [hi, hq] at hm
    exact (hp.task hlt).settlements_ne (hv.settled t hlt hm')

/-! ### The end of a socket -/

/-- What a move of the link does to the queue and the pipeline. -/
structure Closes (c c' : Conn) : Prop where
  queue : c'.state = .closed → c.state = .closed ∨ c'.queue = []
  drop : c.state = .ready → c'.state = .ready ∨ c'.inflight = [] ∧ c'.outbuf = []

theorem Closes.same {c c' : Conn} (h : c'.state = c.state) : Closes c c' :=
  ⟨fun hc => .inl (h.symm.trans hc), fun hr => .inl (h.trans hr)⟩

theorem rejectQueue_queue (c : Conn) (e : JsError) : (c.rejectQueue e).queue = [] := rfl

theorem dropInflight_outbuf (c : Conn) (e : JsError) : (c.dropInflight e).outbuf = c.outbuf := by
  obtain ⟨c', ⟨_, _, h, -, -⟩, hd, -⟩ := dropInflight_shape c e
  rw [hd, h]

/-- A loop that gives up rejects the queue. -/
theorem loopTop_closes (c : Conn) (l : LoopId) (attempt : Nat) (e : JsError) :
    (c.loopTop cfg l attempt e).state = .closed → c.state = .closed ∨
      (c.loopTop cfg l attempt e).queue = [] := by
  unfold loopTop
  split
  · exact .inl
  · split
    · exact fun _ => .inr (rejectQueue_queue _ _)
    · exact .inl

theorem loopTop_pipeline (c : Conn) (l : LoopId) (attempt : Nat) (e : JsError) :
    (c.loopTop cfg l attempt e).inflight = c.inflight ∧
      (c.loopTop cfg l attempt e).outbuf = c.outbuf := by
  unfold loopTop
  split
  · exact ⟨rfl, rfl⟩
  · split
    · obtain ⟨c', ⟨_, _, h, -, -⟩, hq, -⟩ := rejectQueue_shape
        { c with state := .closed, loops := Function.update c.loops l .ended }
        (reconnectError attempt e)
      rw [hq, h]
      exact ⟨rfl, rfl⟩
    · exact ⟨rfl, rfl⟩

theorem failAttempt_closes (c : Conn) (e : JsError) : Closes c (c.failAttempt e) := by
  rcases failAttempt_shape c e with ⟨-, h⟩ | ⟨_, _, _, _, -, h, -⟩
  · rw [h]
    exact .same rfl
  · rw [h]
    exact .same rfl

theorem onSocketDown_closes (c : Conn) (e : JsError) : Closes c (c.onSocketDown cfg e) := by
  unfold onSocketDown
  split
  · exact .same rfl
  · split
    · exact failAttempt_closes c e
    · unfold socketLost
      dsimp only
      have hd : (c.dropSocket e).inflight = [] ∧ (c.dropSocket e).outbuf = [] :=
        ⟨rfl, dropInflight_outbuf _ e⟩
      generalize c.dropSocket e = d at hd ⊢
      split
      · obtain ⟨hi, ho⟩ := @loopTop_pipeline cfg
          { ({ d with state := .reconnecting } : Conn).forgetStatements with
            nextLoop := d.nextLoop + 1 } d.nextLoop 0 e
        refine ⟨fun hc => .inr ?_, fun _ => .inr ⟨hi.trans hd.1, ho.trans hd.2⟩⟩
        rcases loopTop_closes _ _ _ _ hc with hc | hc
        · cases hc
        · exact hc
      · obtain ⟨c', ⟨_, _, h, -, -⟩, hq, -⟩ := rejectQueue_shape { d with state := .closed } e
        rw [hq, h]
        exact ⟨fun _ => .inr rfl, fun _ => .inr hd⟩

theorem settlePending_pipeline (c : Conn) (e : JsError) : (c.settlePending e).queue = [] ∧
    (c.settlePending e).inflight = [] ∧ (c.settlePending e).outbuf = [] := by
  unfold settlePending
  dsimp only
  obtain ⟨c', ⟨_, _, h, -, -⟩, hq, -⟩ := dropQueue_shape
    (dropInflight { c with outbuf := [], parseInflight := fun _ => none, lateCancel := none } e) e
  rw [hq, h]
  exact ⟨rfl, rfl, dropInflight_outbuf _ _⟩

theorem endConn_closes (c : Conn) : Closes c c.endConn := by
  have hend : ∀ d : Conn, Closes c (d.settlePending endError).clearPendingCancel := by
    intro d
    obtain ⟨hq, hi, ho⟩ := settlePending_pipeline d endError
    obtain ⟨_, h, -⟩ := clearPendingCancel_shape (d.settlePending endError)
    rw [h]
    exact ⟨fun _ => .inr hq, fun _ => .inr ⟨hi, ho⟩⟩
  unfold endConn
  split
  · exact .same rfl
  · exact hend _

/-- A ready connection runs no attempt and no loop. -/
theorem ready_link {c : Conn} (hl : Linked c.link) (hr : c.state = .ready) :
    ∃ s, c.link = ⟨.ready, s, false, true, true, none, none, noLoop⟩ := by
  have hr' : c.link.state = .ready := hr
  generalize c.link = k at hl hr' ⊢
  cases hl with
  | ready s => exact ⟨s, rfl⟩
  | fresh hs =>
    rcases hs with rfl | rfl
    · cases hr'
    · cases hr'
  | first | failed | waiting | trying | closed => cases hr'

/-- An attempt does not close the connection. -/
theorem establish_state (c : Conn) (owner : AttemptOwner) : (c.establish owner).state ≠ .closed := by
  unfold establish
  dsimp only
  split
  · simp
  · simp

theorem connect_closes {c : Conn} (hl : Linked c.link) : Closes c c.connect := by
  unfold Conn.connect
  split
  · exact .same rfl
  · rename_i hc
    refine ⟨fun hs => absurd hs (establish_state _ _), fun hr => ?_⟩
    obtain ⟨s, h⟩ := ready_link hl hr
    exact absurd (congrArg Link.connectCalled h :) hc

theorem loopWake_closes {c : Conn} (hl : Linked c.link) (l : LoopId) :
    Closes c (c.loopWake l) := by
  unfold Conn.loopWake
  split
  · rename_i attempt e hp
    split
    · exact .same rfl
    · refine ⟨fun hs => absurd hs (establish_state _ _), fun hr => ?_⟩
      obtain ⟨s, h⟩ := ready_link hl hr
      have hp' : c.loops = noLoop := (congrArg Link.loops h :)
      rw [hp'] at hp
      cases hp
  · exact .same rfl

/-- **A connection that closes leaves no task in its queue, and one that stops being ready none
in flight.** -/
theorem LinkMove.closes {c c' : Conn} (hm : LinkMove cfg c c') (hl : Linked c.link) :
    Closes c c' := by
  cases hm with
  | destroy s => exact .same rfl
  | connectCatch =>
    unfold Conn.connectCatch
    split
    · exact .same rfl
    · rename_i e hf
      dsimp only
      split
      · exact .same rfl
      · refine ⟨fun _ => .inr rfl, fun hr => ?_⟩
        obtain ⟨s, h⟩ := ready_link hl hr
        have hf' : c.connectFailed = none := (congrArg Link.connectFailed h :)
        rw [hf'] at hf
        cases hf
  | loopCatch l =>
    unfold Conn.loopCatch
    split
    · rename_i attempt e hp
      have hno : c.state ≠ .ready := by
        intro hr
        obtain ⟨s, h⟩ := ready_link hl hr
        have hp' : c.loops = noLoop := (congrArg Link.loops h :)
        rw [hp'] at hp
        cases hp
      split
      · exact ⟨fun _ => .inr rfl, fun hr => absurd hr hno⟩
      · exact ⟨loopTop_closes _ _ _ _, fun hr => absurd hr hno⟩
    · exact .same rfl
  | endConn => exact endConn_closes c
  | failAttempt e => exact failAttempt_closes c e
  | retire e | socketDown e => exact onSocketDown_closes c e
  | takeDown e =>
    obtain ⟨hq, hd⟩ := @onSocketDown_closes cfg (c.note (.thrown c.state c.connecting)) e
    exact ⟨hq, hd⟩

theorem Live.relinks {c c' : Conn} {h : Option (TaskId × ConnState)} (hv : Live (c, h))
    (hb : Basic (c, h)) (hr : Relinks c c') (hc : Closes c c') : Live (c', h) := by
  exact {
    quiet := fun hs => by
      dsimp only at hs ⊢
      by_cases hst : c.state = .ready
      · rcases hc.drop hst with h' | h'
        · exact absurd h' hs
        · exact h'
      · obtain ⟨hi, ho⟩ := hv.quiet hst
        constructor
        · rcases hr.inflight with ⟨h', -⟩ | ⟨h', -⟩
          · exact h'.trans hi
          · exact h'
        · rcases hr.outbuf with h' | h'
          · exact h'.trans ho
          · exact h'
    closed := fun hs => by
      dsimp only at hs ⊢
      rcases hc.queue hs with h' | h'
      · rcases hr.queue with hq | hq
        · exact hq.trans (hv.closed h')
        · exact hq
      · exact h'
    held := hv.held
    settled := fun t ht hm' => by
      dsimp only at ht ⊢
      rw [hr.nextTask] at ht
      have hne := (hr.persists.task ht).settlements_ne
      simp only [places, List.mem_append, not_or] at hm'
      by_cases hi : t ∈ c.inflight
      · exact (hr.running hb.called t hi).resolve_left hm'.1.2
      · by_cases hq : t ∈ c.queue
        · exact (hr.queued hb.called t hq).resolve_left hm'.2
        · refine hne (hv.settled t ht ?_)
          simp only [places, List.mem_append, not_or]
          exact ⟨⟨hm'.1.1, hi⟩, hq⟩ }

/-! ### Every move -/

/-- A task in the hands of a callback ends settled. -/
theorem finish_settled {c : Conn} {t : TaskId} (hc : c.SettledCalled) :
    (((c.clearTimers t).settleFinished t).tasks t).settlements ≠ [] := by
  have hc' : (c.clearTimers t).SettledCalled := hc.of_settles (clearTimers_settles c t)
  obtain ⟨ts, ps, h, -, -, ht⟩ := settleFinished_shape (c.clearTimers t) t
  rw [h]
  dsimp only
  rcases ht with ⟨hs, ht⟩ | ⟨-, o, ht, -⟩
  · rw [ht]
    exact hc' t hs
  · rw [ht]
    simp

/-- An attempt that begins, or gets its socket, concerns no task. -/
theorem dialing_live {c : Conn} {e : Event} (hd : e.isDialing = true) (hl : Linked c.link)
    (hb : Basic (c, none)) (hv : Live (c, none)) : Live (c.step cfg e, none) := by
  cases e with
  | connect => exact hv.relinks hb (connect_relinks c) (connect_closes hl)
  | loopWake l => exact hv.relinks hb (loopWake_relinks c l) (loopWake_closes hl l)
  | dialed d =>
    have hp := dialed_persists c d
    change Live (c.dialed d, none)
    obtain ⟨_, _, _, _, _, h, -⟩ := dialed_shape c d
    rw [h] at hp ⊢
    exact hv.same hp rfl rfl rfl rfl (.inl rfl)
  | _ => cases hd

/-- The task in the callback's hands joins the queue of a connection that is not closed. -/
theorem Live.enqueue {c : Conn} {t : TaskId} {st : ConnState} (hv : Live (c, some (t, st)))
    (hs : c.state = st) : Live ({ c with queue := c.queue ++ [t] }, none) := by
  have hst : st ≠ .closed := hv.held t st rfl
  exact {
    quiet := hv.quiet
    closed := fun hc => absurd (hs.symm.trans hc) hst
    held := by simp
    settled := fun u hu hm' => by
      refine hv.settled u hu ?_
      simp only [places, List.mem_append, not_or, Option.map_none, Option.toList_none,
        List.mem_singleton] at hm'
      simp only [places, List.mem_append, not_or, Option.map_some, Option.toList_some,
        List.mem_singleton]
      exact ⟨⟨hm'.2.2, hm'.1.2⟩, hm'.2.1⟩ }

theorem Move.live {l : Option BackendMsg} {c c' : Conn} {h h' : Option (TaskId × ConnState)}
    (hm : Move cfg PumpMove l (c, h) (c', h')) (hl : Linked c.link) (hb : Basic (c, h))
    (hv : Live (c, h)) : Live (c', h') := by
  have hp := hm.persists
  cases hm with
  | gate hm =>
    obtain ⟨_, _, _, _, _, _, _, h⟩ := hm.shape
    rw [h] at hp ⊢
    exact hv.same hp rfl rfl rfl rfl (.inl rfl)
  | cancel hm =>
    obtain ⟨_, _, _, _, _, _, h, -⟩ := hm.shape
    rw [h] at hp ⊢
    exact hv.same hp rfl rfl rfl rfl (.inl rfl)
  | pump hm =>
    obtain ⟨_, _, _, h, -⟩ := hm.shape
    rw [h] at hp ⊢
    exact hv.same hp rfl rfl rfl rfl (.inl rfl)
  | link hm => exact hv.relinks hb hm.relinks (hm.closes hl)
  | emit s f =>
    obtain ⟨_, h, -⟩ := writeTo_shape c s [⟨.link, f⟩]
    rw [h] at hp ⊢
    exact hv.same hp rfl rfl rfl rfl (.inl rfl)
  | settles hs =>
    obtain ⟨_, _, h, -, -⟩ := hs
    rw [h] at hp ⊢
    exact hv.same hp rfl rfl rfl rfl (.inl rfl)
  | refuse r hc =>
    exact {
      quiet := hv.quiet
      closed := hv.closed
      held := hv.held
      settled := fun t ht hm' => by
        by_cases hn : t = c.nextTask
        · subst hn
          simp [settle, Conn.modTask]
        · have hlt : t < c.nextTask := Nat.lt_of_le_of_ne (Nat.lt_succ_iff.mp ht) hn
          exact (hp.task hlt).settlements_ne (hv.settled t hlt hm') }
  | create r hc =>
    exact {
      quiet := hv.quiet
      closed := hv.closed
      held := fun t st hst => by
        obtain ⟨rfl, rfl⟩ := Prod.mk.inj (Option.some.inj hst)
        exact hc
      settled := fun t ht hm' => by
        have hm' : t ∉ c.nextTask :: places (c, none) := hm'
        rw [List.mem_cons, not_or] at hm'
        have hlt : t < c.nextTask := Nat.lt_of_le_of_ne (Nat.lt_succ_iff.mp ht) hm'.1
        exact (hp.task hlt).settlements_ne (hv.settled t hlt hm'.2) }
  | quit t e =>
    obtain ⟨_, _, h, -, -⟩ := rejectTask_settles
      (c.modTask t fun k => { k with settled := true, timer := false }) t e
    unfold Conn.quit at hp ⊢
    rw [h] at hp ⊢
    exact hv.same hp rfl rfl rfl rfl (.inl rfl)
  | discard t => exact hv.same hp rfl rfl rfl rfl (.inl rfl)
  | @release _ t st hs =>
    exact {
      quiet := hv.quiet
      closed := hv.closed
      held := by simp
      settled := fun u hu hm' => by
        by_cases hut : u = t
        · subst hut
          exact hs
        · refine hv.settled u hu ?_
          change u ∉ t :: places (c, none)
          rw [List.mem_cons, not_or]
          exact ⟨hut, hm'⟩ }
  | dequeue t hs =>
    exact {
      quiet := hv.quiet
      closed := fun hc => by
        dsimp only
        rw [hv.closed hc]
        rfl
      held := hv.held
      settled := fun u hu hm' => by
        by_cases hut : u = t
        · subst hut
          exact hs
        · refine hv.settled u hu ?_
          simp only [places, List.mem_append, not_or] at hm' ⊢
          refine ⟨hm'.1, fun hq => hm'.2 ?_⟩
          exact (List.mem_erase_of_ne hut).mpr hq }
  | enqueue hs => exact hv.enqueue hs
  | @requeue _ t st hs =>
    have hm : Persists c (c.modTask t Task.forRetry) :=
      .modTask (.of_le rfl rfl List.prefix_rfl (Nat.le_succ _))
    have hv' : Live (c.modTask t Task.forRetry, some (t, st)) :=
      hv.same hm rfl rfl rfl rfl (.inl rfl)
    exact hv'.enqueue hs
  | @finish _ t st hr =>
    have hset := finish_settled (t := t) hb.called
    obtain ⟨_, _, h, -⟩ := settleFinished_shape (c.clearTimers t) t
    rw [h] at hp hset ⊢
    exact {
      quiet := hv.quiet
      closed := hv.closed
      held := by simp
      settled := fun u hu hm' => by
        by_cases hut : u = t
        · subst hut
          exact hset
        · refine (hp.task hu).settlements_ne (hv.settled u hu ?_)
          change u ∉ t :: places (c, none)
          rw [List.mem_cons, not_or]
          exact ⟨hut, hm'⟩ }
  | start t rest hq hs =>
    have hbusy : ∀ c' : Conn, c'.state = c.state → c'.state ≠ .ready → c'.inflight = [] ∧
        c'.outbuf = [] := fun c' h' hne => absurd (h'.trans hs) hne
    have hopen : ∀ c' : Conn, c'.state = c.state → c'.state = .closed → c'.queue = [] := by
      intro c' h' hcl
      rw [h', hs] at hcl
      cases hcl
    cases hse : ({ c with queue := rest }.serialize cfg t).2 with
    | none =>
      obtain ⟨_, _, _, _, _, _, _, _, -, h⟩ := startTask_ok_shape hse
      rw [h] at hp ⊢
      refine ⟨hbusy _ rfl, hopen _ rfl, hv.held, fun u hu hm' => ?_⟩
      refine (hp.task hu).settlements_ne (hv.settled u hu ?_)
      simp only [places, List.mem_append, not_or, List.mem_singleton] at hm'
      simp only [places, List.mem_append, not_or, hq, List.mem_cons]
      exact ⟨⟨hm'.1.1, hm'.1.2.1⟩, hm'.1.2.2, hm'.2⟩
    | some e =>
      obtain ⟨ts, _, _, _, _, h, -, -, hset, -⟩ := startTask_throw_shape hse
      rw [h] at hp ⊢
      refine ⟨hbusy _ rfl, hopen _ rfl, hv.held, fun u hu hm' => ?_⟩
      by_cases hut : u = t
      · subst hut
        exact hset
      · refine (hp.task hu).settlements_ne (hv.settled u hu ?_)
        simp only [places, List.mem_append, not_or] at hm'
        simp only [places, List.mem_append, not_or, hq, List.mem_cons]
        exact ⟨⟨hm'.1.1, hm'.1.2⟩, hut, hm'.2⟩
  | flush =>
    obtain ⟨_, _, _, _, h, -⟩ := flushWrites_shape c
    rw [h] at hp ⊢
    exact hv.same hp rfl rfl rfl rfl (.inr rfl)
  | listen m =>
    obtain ⟨_, h, -⟩ := @listen_shape cfg c m
    rw [h] at hp ⊢
    exact hv.same hp rfl rfl rfl rfl (.inl rfl)
  | miss m =>
    obtain ⟨_, h, -⟩ := receive_shape c m
    rw [h] at hp ⊢
    exact hv.same hp rfl rfl rfl rfl (.inl rfl)
  | cache =>
    rcases cacheCurrent_shape c with h | ⟨_, _, _, _, -, -, -, -, h⟩
    · rw [h]
      exact hv
    · rw [h] at hp ⊢
      exact hv.same hp rfl rfl rfl rfl (.inl rfl)
  | attemptDone status hc =>
    obtain ⟨_, h', -⟩ := receive_shape c (.readyForQuery status)
    obtain ⟨_, _, h, -⟩ := attemptDone_shape (c.receive (.readyForQuery status)) (status.getD 'I')
    rw [h, h'] at hp ⊢
    exact ⟨fun hne => absurd rfl hne, fun hcl => (by cases hcl), hv.held, fun u hu hm' =>
      (hp.task hu).settlements_ne (hv.settled u hu hm')⟩
  | idle status =>
    obtain ⟨_, h, -⟩ := receive_shape c (.readyForQuery status)
    rw [h] at hp ⊢
    exact hv.same hp rfl rfl rfl rfl (.inl rfl)
  | pop status t rest hc hi =>
    have hst : c.state = .ready := by
      by_contra hne
      rw [(hv.quiet hne).1] at hi
      cases hi
    obtain ⟨_, h, -⟩ := receive_shape c (.readyForQuery status)
    rw [h] at hp ⊢
    refine ⟨fun hne => absurd hst hne, fun hcl => ?_, fun u st hu => ?_, fun u hu hm' => ?_⟩
    · exact absurd (hst.symm.trans hcl) (by simp)
    · obtain ⟨rfl, rfl⟩ := Prod.mk.inj (Option.some.inj hu)
      rw [hst]
      simp
    · refine (hp.task hu).settlements_ne (hv.settled u hu ?_)
      simp only [places, popHead, note, List.mem_append, not_or, Option.map_some,
        Option.toList_some, List.mem_singleton] at hm'
      simp only [places, List.mem_append, not_or, hi, List.mem_cons, Option.map_none,
        Option.toList_none]
      exact ⟨⟨by simp, hm'.1.1, hm'.1.2⟩, hm'.2⟩
  | copyNone =>
    obtain ⟨_, h', -⟩ := receive_shape c .copyInResponse
    obtain ⟨_, h, -⟩ := writeSocket_shape (c.receive .copyInResponse) _
    rw [h, h'] at hp ⊢
    exact hv.same hp rfl rfl rfl rfl (.inl rfl)
  | copyPlain t =>
    obtain ⟨_, _, h, -⟩ := @noteCopyIn_shape cfg c t
    obtain ⟨_, h', -⟩ := writeSocket_shape (c.noteCopyIn cfg t) _
    rw [h', h] at hp ⊢
    exact hv.same hp rfl rfl rfl rfl (.inl rfl)
  | copyPump t =>
    obtain ⟨_, _, h, -⟩ := @noteCopyIn_shape cfg c t
    rw [h] at hp ⊢
    exact hv.same hp rfl rfl rfl rfl (.inl rfl)
  | copyBoth =>
    obtain ⟨_, h, -⟩ := @listen_shape cfg c .copyBothResponse
    obtain ⟨_, h', -⟩ := writeSocket_shape (c.listen cfg .copyBothResponse) _
    rw [h', h] at hp ⊢
    exact hv.same hp rfl rfl rfl rfl (.inl rfl)
  | parseFailed =>
    obtain ⟨_, _, h⟩ := noteParseFailure_shape c _
    rw [h] at hp ⊢
    exact hv.same hp rfl rfl rfl rfl (.inl rfl)
  | invalidated =>
    obtain ⟨_, _, h⟩ := dropInvalidated_shape c _
    rw [h] at hp ⊢
    exact hv.same hp rfl rfl rfl rfl (.inl rfl)

end Conn

end Minipg
