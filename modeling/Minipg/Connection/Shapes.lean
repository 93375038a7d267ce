import Minipg.Connection.Moves

/-!
# What the larger moves touch

The frame facts about the moves that are functions of their own: the fields a move
assigns, and for the functions of `Link.lean`, which reject what is pending, the relation
`Relinks`.  The proofs of the invariants take a move apart with these and never unfold it.
-/

namespace Minipg

namespace Conn

variable {cfg : Config}

/-! ### Dispatching -/

/-- A task that starts: it is behind all others in the pipeline and in the batch. -/
theorem startTask_ok_shape {c : Conn} {t : TaskId} (h : (c.serialize cfg t).2 = none) :
    ∃ fields mapper rf cacheName prepared stale parses fs,
      (c.serialize cfg t).1 = { c with
        tasks := Function.update c.tasks t { c.tasks t with
          fields := fields, mapper := mapper, resultFormat := rf, cacheName := cacheName }
        prepared := prepared
        staleStatements := stale
        parseInflight := parses
        outbuf := c.outbuf ++ List.map (Packet.mk (.start t)) fs } ∧
      c.startTask cfg t = { c with
        tasks := Function.update c.tasks t { c.tasks t with
          fields := fields, mapper := mapper, resultFormat := rf, cacheName := cacheName
          timer := (c.tasks t).timeout.isSome }
        prepared := prepared
        staleStatements := stale
        parseInflight := parses
        outbuf := c.outbuf ++ List.map (Packet.mk (.start t)) fs
        inflight := c.inflight ++ [t]
        ledger := c.ledger ++ [Fifo.Event.start t]
        history := c.history ++ [c.startMoment t false] } := by
  obtain ⟨a, b, d, e, pr, st, pi, fs, hw⟩ := serialize_writes cfg c t
  refine ⟨a, b, d, e, pr, st, pi, fs, hw, ?_⟩
  rw [startTask_of_ok h, hw]
  simp [note, Conn.modTask]

/-- A task that does not start is settled. -/
theorem startTask_throw_shape {c : Conn} {t : TaskId} {e : JsError}
    (h : (c.serialize cfg t).2 = some e) : ∃ ts ps prepared stale parses,
      c.startTask cfg t = { c with
        tasks := ts
        pumps := ps
        prepared := prepared
        staleStatements := stale
        parseInflight := parses
        history := c.history ++ [c.startMoment t true] } ∧
      (∀ u, u ≠ t → (c.tasks u).Calls (ts u)) ∧
      (∃ fields mapper rf cacheName, ({ c.tasks t with
        fields := fields, mapper := mapper, resultFormat := rf
        cacheName := cacheName } : Task).Calls (ts t)) ∧
      (ts t).settlements ≠ [] ∧ ∀ p, (c.pumps p).Halts (ps p) := by
  obtain ⟨a, b, d, e', pr, st, pi, fs, hw⟩ := serialize_writes cfg c t
  rw [startTask_of_throw h]
  have hse := rejectTask_settlements
    ({ (c.serialize cfg t).1 with outbuf := c.outbuf }.note (c.startMoment t true)) t e
  obtain ⟨ts, ps, hr, ht, hp⟩ := rejectTask_settles
    ({ (c.serialize cfg t).1 with outbuf := c.outbuf }.note (c.startMoment t true)) t e
  rw [hr] at hse ⊢
  rw [hw] at hse ht hp ⊢
  refine ⟨ts, ps, pr, st, pi, rfl, fun u hu => ?_, ⟨a, b, d, e', ?_⟩, ?_, hp⟩
  · have := ht u
    simpa [note, Function.update_of_ne hu] using this
  · have := ht t
    simpa [note] using this
  · dsimp only at hse
    rw [hse]
    simp

/-- The batch leaves for the current socket, unless that was destroyed. -/
theorem flushWrites_shape (c : Conn) : ∃ sent room backed waiters,
    c.flushWrites = { c with
      outbuf := [], sent := sent, sockRoom := room, writeBackedUp := backed
      drainWaiters := waiters } ∧
    (sent = c.sent ∧ (c.outbuf = [] ∨ c.socket = none ∨ ∃ s, c.socket = some s ∧ c.destroyed s) ∨
      ∃ s, c.socket = some s ∧ c.destroyed s = false ∧
        sent = Function.update c.sent s (c.sent s ++ c.outbuf)) := by
  unfold flushWrites
  split
  · rename_i h
    rw [List.isEmpty_iff] at h
    exact ⟨c.sent, c.sockRoom, c.writeBackedUp, c.drainWaiters, by rw [← h], .inl ⟨rfl, .inl h⟩⟩
  · dsimp only
    split
    · rename_i h
      exact ⟨c.sent, _, _, _, rfl, .inl ⟨rfl, .inr (.inl h)⟩⟩
    · rename_i s h
      unfold writeChecked writeTo
      by_cases hd : c.destroyed s = true
      · simp only [hd, if_true]
        split
        · exact ⟨c.sent, _, _, _, rfl, .inl ⟨rfl, .inr (.inr ⟨s, h, hd⟩)⟩⟩
        · exact ⟨c.sent, _, _, _, rfl, .inl ⟨rfl, .inr (.inr ⟨s, h, hd⟩)⟩⟩
      · rw [Bool.not_eq_true] at hd
        simp only [hd, Bool.false_eq_true, if_false]
        split
        · exact ⟨_, _, _, _, rfl, .inr ⟨s, h, hd, rfl⟩⟩
        · exact ⟨_, _, _, _, rfl, .inr ⟨s, h, hd, rfl⟩⟩

/-- Bytes for a socket, which a destroyed one does not take. -/
theorem writeTo_shape (c : Conn) (s : SocketId) (ps : List Packet) : ∃ sent,
    c.writeTo s ps = { c with sent := sent } ∧
      (c.destroyed s = true ∧ sent = c.sent ∨
        c.destroyed s = false ∧ sent = Function.update c.sent s (c.sent s ++ ps)) := by
  unfold writeTo
  by_cases hd : c.destroyed s = true
  · exact ⟨c.sent, by rw [if_pos hd], .inl ⟨hd, rfl⟩⟩
  · rw [Bool.not_eq_true] at hd
    exact ⟨_, by simp only [hd, Bool.false_eq_true, if_false], .inr ⟨hd, rfl⟩⟩

/-- Bytes for the current socket. -/
theorem writeSocket_shape (c : Conn) (ps : List Packet) : ∃ sent,
    c.writeSocket ps = { c with sent := sent } ∧
      (sent = c.sent ∨ ∃ s, c.socket = some s ∧ c.destroyed s = false ∧
        sent = Function.update c.sent s (c.sent s ++ ps)) := by
  unfold writeSocket
  split
  · exact ⟨c.sent, rfl, .inl rfl⟩
  · rename_i s hs
    obtain ⟨sent, h, ⟨_, rfl⟩ | ⟨hd, hsent⟩⟩ := writeTo_shape c s ps
    · exact ⟨_, h, .inl rfl⟩
    · exact ⟨_, h, .inr ⟨s, hs, hd, hsent⟩⟩

/-! ### Replies -/

/-- What a task makes of a message. -/
def listened (cfg : Config) (k : Task) (m : BackendMsg) : Task :=
  { k.keepFrame m with heard := k.heard ++ [m] }.hear cfg m

theorem modHead_shape (c : Conn) (f : Task → Task) : ∃ ts,
    c.modHead f = { c with tasks := ts } ∧ (∀ u, c.current ≠ some u → ts u = c.tasks u) ∧
      ∀ t, c.current = some t → ts t = f (c.tasks t) := by
  unfold modHead
  split
  · rename_i h
    exact ⟨c.tasks, rfl, fun _ _ => rfl, fun t ht => by rw [h] at ht; cases ht⟩
  · rename_i t h
    refine ⟨_, rfl, fun u hu => Function.update_of_ne ?_ _ _, fun u hu => ?_⟩
    · rintro rfl
      exact hu h
    · rw [h, Option.some.injEq] at hu
      subst hu
      exact Function.update_self ..

theorem receive_shape (c : Conn) (m : BackendMsg) : ∃ ts,
    c.receive m = { c with tasks := ts, ledger := c.ledger ++ [.reply m] } ∧
      (∀ u, c.current ≠ some u → ts u = c.tasks u) ∧ ∀ t, c.current = some t →
        ts t = { (c.tasks t).keepFrame m with heard := (c.tasks t).heard ++ [m] } := by
  obtain ⟨ts, h, hu, ht⟩ := modHead_shape c fun k =>
    { k.keepFrame m with heard := k.heard ++ [m] }
  exact ⟨ts, by unfold receive; rw [h], hu, ht⟩

@[simp] theorem receive_isPassed (c : Conn) (m : BackendMsg) :
    (c.receive m).isPassed = c.isPassed := by
  obtain ⟨ts, h, -⟩ := receive_shape c m
  rw [h]
  rfl

@[simp] theorem receive_inflight (c : Conn) (m : BackendMsg) :
    (c.receive m).inflight = c.inflight := by
  obtain ⟨ts, h, -⟩ := receive_shape c m
  rw [h]

@[simp] theorem receive_current (c : Conn) (m : BackendMsg) :
    (c.receive m).current = c.current :=
  congrArg List.head? (receive_inflight c m)

@[simp] theorem receive_connecting (c : Conn) (m : BackendMsg) :
    (c.receive m).connecting = c.connecting := by
  obtain ⟨ts, h, -⟩ := receive_shape c m
  rw [h]

@[simp] theorem receive_state (c : Conn) (m : BackendMsg) : (c.receive m).state = c.state := by
  obtain ⟨ts, h, -⟩ := receive_shape c m
  rw [h]

@[simp] theorem receive_socket (c : Conn) (m : BackendMsg) : (c.receive m).socket = c.socket := by
  obtain ⟨ts, h, -⟩ := receive_shape c m
  rw [h]

theorem listen_shape (c : Conn) (m : BackendMsg) : ∃ ts,
    c.listen cfg m = { c with tasks := ts, ledger := c.ledger ++ [.reply m] } ∧ (∀ u, c.current ≠ some u → ts u = c.tasks u) ∧
      ∀ t, c.current = some t → ts t = listened cfg (c.tasks t) m := by
  obtain ⟨ts, h, hu, ht⟩ := receive_shape c m
  obtain ⟨ts', h', hu', ht'⟩ := modHead_shape
    { c with tasks := ts, ledger := c.ledger ++ [.reply m] } fun k => k.hear cfg m
  refine ⟨ts', ?_, fun u hc => (hu' u hc).trans (hu u hc), fun t hc => ?_⟩
  · unfold listen hearHead
    rw [h, h']
  · rw [ht' t hc, listened, ← ht t hc]

theorem noteCopyIn_shape (c : Conn) (t : TaskId) : ∃ ts m,
    c.noteCopyIn cfg t = { c with
      tasks := ts, ledger := c.ledger ++ [.reply .copyInResponse], history := c.history ++ [m] } ∧
      (∀ u, c.current ≠ some u → ts u = c.tasks u) ∧
      (∀ t, c.current = some t → ts t = listened cfg (c.tasks t) .copyInResponse) ∧
      m = .copyIn ((c.receive .copyInResponse).tasks t) c.isPassed := by
  obtain ⟨ts, h, hu, ht⟩ := @listen_shape cfg c .copyInResponse
  refine ⟨ts, _, ?_, hu, ht, rfl⟩
  unfold noteCopyIn
  rw [h, receive_isPassed]
  rfl

theorem cacheCurrent_shape (c : Conn) : c.cacheCurrent = c ∨ ∃ t n prepared parses,
    c.current = some t ∧ (c.tasks t).cacheName = some n ∧
      prepared = Function.update c.prepared n (some
        { sql := (c.tasks t).sql, fields := (c.tasks t).fields.getD []
          paramOids := (c.tasks t).paramOids }) ∧
      parses = Function.update c.parseInflight n none ∧
      c.cacheCurrent = { c with
        prepared := prepared
        parseInflight := parses
        history := c.history ++ [.described (c.tasks t) (c.youngest n)] } := by
  unfold cacheCurrent
  split
  · exact .inl rfl
  · rename_i t h
    unfold cacheStatement
    dsimp only
    split
    · exact .inl rfl
    · rename_i n hn
      exact .inr ⟨t, n, _, _, h, hn, rfl, rfl, rfl⟩

theorem clearConnTimer_shape (c : Conn) : ∃ armed, c.clearConnTimer = { c with armedTimers := armed } := by
  unfold clearConnTimer
  split
  · exact ⟨_, rfl⟩
  · exact ⟨_, rfl⟩

theorem resolveAttempt_shape (c : Conn) : ∃ loops,
    c.resolveAttempt = { c with attempt := none, loops := loops } ∧
      ∀ l, loops l = c.loops l ∨ c.attempt = some (.loop l) ∧ loops l = .ended := by
  unfold resolveAttempt
  dsimp only
  split
  · rename_i l h
    refine ⟨_, rfl, fun l' => ?_⟩
    by_cases hl : l' = l
    · subst hl
      exact .inr ⟨h, Function.update_self ..⟩
    · exact .inl (Function.update_of_ne hl _ _)
  · exact ⟨c.loops, rfl, fun _ => .inl rfl⟩

/-- The attempt is over: its loop, if a loop made it, has ended. -/
theorem attemptDone_shape (c : Conn) (status : Char) : ∃ armed loops,
    c.attemptDone status = { c with
      txStatus := status, connecting := false, everConnected := true, state := .ready
      armedTimers := armed, attempt := none, loops := loops } ∧
      (∀ l, loops l = c.loops l ∨ loops l = .ended) ∧
      ∀ l, c.attempt = some (.loop l) → loops l = .ended := by
  unfold attemptDone
  obtain ⟨armed, ha⟩ := clearConnTimer_shape { c with
    txStatus := status, connecting := false, everConnected := true, state := .ready }
  rw [ha]
  unfold resolveAttempt
  dsimp only
  split
  · rename_i l h
    refine ⟨armed, _, rfl, fun l' => ?_, fun l' hl' => ?_⟩
    · by_cases hl : l' = l
      · subst hl
        exact .inr (Function.update_self ..)
      · exact .inl (Function.update_of_ne hl _ _)
    · rw [h] at hl'
      cases hl'
      exact Function.update_self ..
  · rename_i h
    exact ⟨armed, c.loops, rfl, fun _ => .inl rfl, fun l hl => absurd hl (h l)⟩

/-- The records of a name after a failed cycle. -/
theorem noteParseFailure_shape (c : Conn) (t : TaskId) : ∃ stale parses,
    c.noteParseFailure t = { c with staleStatements := stale, parseInflight := parses } := by
  unfold noteParseFailure
  dsimp only
  split
  · exact ⟨_, _, rfl⟩
  · split
    · split
      · exact ⟨_, _, rfl⟩
      · exact ⟨_, _, rfl⟩
    · exact ⟨_, _, rfl⟩

theorem dropInvalidated_shape (c : Conn) (t : TaskId) : ∃ prepared stale,
    c.dropInvalidated t = { c with prepared := prepared, staleStatements := stale } := by
  unfold dropInvalidated
  dsimp only
  split
  · exact ⟨_, _, rfl⟩
  · split
    · exact ⟨_, _, rfl⟩
    · exact ⟨_, _, rfl⟩

/-- The end of a task settles it: with what it received, or with a rejection. -/
theorem settleFinished_shape (c : Conn) (t : TaskId) : ∃ ts ps,
    c.settleFinished t = { c with tasks := ts, pumps := ps } ∧
      (∀ u, u ≠ t → ts u = c.tasks u) ∧ (∀ p, (c.pumps p).Halts (ps p)) ∧
      ((c.tasks t).settled = true ∧ ts t = c.tasks t ∨
        (c.tasks t).settled = false ∧ ∃ o, ts t = { c.tasks t with
          settlements := (c.tasks t).settlements ++ [o] } ∧
          ((∃ r, o = .resolved r) → (c.tasks t).error = none ∧ (c.tasks t).wire = false)) := by
  unfold settleFinished
  dsimp only
  split
  · rename_i h
    exact ⟨c.tasks, c.pumps, rfl, fun _ _ => rfl, fun _ => .inl rfl, .inl ⟨h, rfl⟩⟩
  · rename_i h
    rw [Bool.not_eq_true] at h
    have hset : ∀ o, c.settle t o = { c with
        tasks := Function.update c.tasks t { c.tasks t with
          settlements := (c.tasks t).settlements ++ [o] } } := fun _ => rfl
    split
    · refine ⟨_, c.pumps, hset _, fun u hu => Function.update_of_ne hu _ _, fun _ => .inl rfl,
        .inr ⟨h, _, Function.update_self .., ?_⟩⟩
      rintro ⟨r, hr⟩
      cases hr
    · rename_i hw
      split
      · rename_i e _
        obtain ⟨ts, ps, hr, ht, hp⟩ := rejectTask_settles c t e
        have hts : ts = Function.update c.tasks t { c.tasks t with
            settlements := (c.tasks t).settlements ++ [.rejected e] } := by
          have hrt : (c.rejectTask t e).tasks = ts := by rw [hr]
          rw [← hrt]
          simp [rejectTask, settle, Conn.modTask]
        subst hts
        refine ⟨_, ps, hr, fun u hu => Function.update_of_ne hu _ _, hp,
          .inr ⟨h, _, Function.update_self .., ?_⟩⟩
        rintro ⟨r, hr⟩
        cases hr
      · rename_i he
        have hwire : (c.tasks t).wire = false := by
          simpa [he] using hw
        split
        · refine ⟨_, c.pumps, hset _, fun u hu => Function.update_of_ne hu _ _,
            fun _ => .inl rfl, .inr ⟨h, _, Function.update_self .., ?_⟩⟩
          rintro ⟨r, hr⟩
          cases hr
        · exact ⟨_, c.pumps, hset _, fun u hu => Function.update_of_ne hu _ _,
            fun _ => .inl rfl, .inr ⟨h, _, Function.update_self .., fun _ => ⟨he, hwire⟩⟩⟩

/-! ### Pumps -/

theorem pumpFlush_shape (c : Conn) (p : PumpId) (fs : List Frame) (isLast : Bool) :
    ∃ phase sent room, c.pumpFlush p fs isLast = { c with
      pumps := Function.update c.pumps p { c.pumps p with pending := [], phase := phase }
      sent := sent, sockRoom := room } ∧
    (c.socket = none ∧ sent = c.sent ∧ phase = .failed closedError ∨
      ∃ s, c.socket = some s ∧ (phase = .resumed isLast ∨ phase = .draining s isLast) ∧
        (sent = c.sent ∨ c.destroyed s = false ∧
          sent = Function.update c.sent s (c.sent s ++ fs.map (Packet.mk (.pump (c.pumps p).task))))) := by
  unfold pumpFlush
  simp only [modPump]
  split
  · rename_i h
    exact ⟨_, c.sent, c.sockRoom, by simp, .inl ⟨h, rfl, rfl⟩⟩
  · rename_i s h
    unfold writeChecked writeTo
    by_cases hd : c.destroyed s = true
    · refine ⟨.draining s isLast, c.sent, c.sockRoom, ?_, .inr ⟨s, h, .inr rfl, .inl rfl⟩⟩
      simp [hd]
    · rw [Bool.not_eq_true] at hd
      by_cases hr : 0 < c.sockRoom
      · refine ⟨.resumed isLast, _, c.sockRoom - 1, ?_, .inr ⟨s, h, .inl rfl, .inr ⟨hd, rfl⟩⟩⟩
        simp [hd, hr]
      · refine ⟨.draining s isLast, _, c.sockRoom - 1, ?_, .inr ⟨s, h, .inr rfl, .inr ⟨hd, rfl⟩⟩⟩
        simp [hd, hr]

theorem pumpCatch_shape (c : Conn) (p : PumpId) (e : JsError) :
    ∃ sent, c.pumpCatch p e = { c with
      pumps := Function.update c.pumps p { c.pumps p with phase := .ended }, sent := sent } ∧
    (sent = c.sent ∨ ∃ s, c.socket = some s ∧ c.destroyed s = false ∧
      sent = Function.update c.sent s (c.sent s ++
        [⟨.pump (c.pumps p).task, .copyFail ("COPY aborted: " ++ e.message)⟩])) := by
  unfold pumpCatch
  obtain ⟨sent, h, hs⟩ := writeSocket_shape c
    [⟨.pump (c.pumps p).task, .copyFail ("COPY aborted: " ++ e.message)⟩]
  exact ⟨sent, by dsimp only; rw [h]; rfl, hs⟩

theorem wakePumps_shape (c : Conn) (s : SocketId) (f : Bool → PumpPhase) : ∃ ps,
    c.wakePumps s f = { c with pumps := ps } ∧ ∀ p, ps p = c.pumps p ∨
      ∃ isLast, (c.pumps p).phase = .draining s isLast ∧
        ps p = { c.pumps p with phase := f isLast } := by
  refine ⟨_, rfl, fun p => ?_⟩
  dsimp only
  split
  · rename_i s' isLast h
    split
    · rename_i hs
      subst hs
      exact .inr ⟨isLast, h, rfl⟩
    · exact .inl rfl
  · exact .inl rfl

/-! ### Cancel records -/

/-- Clearing the pending cancel stops its timer and keeps the rest of its record. -/
theorem clearPendingCancel_shape (c : Conn) : ∃ cancels,
    c.clearPendingCancel = { c with
      cancels := cancels, pendingCancel := none, isRetiring := false } ∧
      ∀ p, ∃ b, cancels p = { c.cancels p with timer := b } := by
  unfold clearPendingCancel
  split
  · rename_i h
    exact ⟨c.cancels, by rw [← h], fun p => ⟨_, rfl⟩⟩
  · rename_i q _
    refine ⟨_, rfl, fun p => ?_⟩
    by_cases hp : p = q
    · subst hp
      exact ⟨false, Function.update_self ..⟩
    · exact ⟨_, Function.update_of_ne hp _ _⟩

/-- A cancel request that goes out is the pending one from then on. -/
theorem sendCancelRequest_shape (c : Conn) (t : TaskId) :
    c.sendCancelRequest cfg t = c ∨ c.sendCancelRequest cfg t = { c with
      isRetiring := c.isRetiring || c.pendingCancel.isSome
      cancels := Function.update c.cancels c.nextCancel { head := some t }
      pendingCancel := some c.nextCancel
      nextCancel := c.nextCancel + 1 } := by
  unfold sendCancelRequest
  split
  · exact .inl rfl
  · exact .inr rfl

theorem noteSuspects_shape (c : Conn) (t : TaskId) (p : CancelId) : ∃ late,
    c.noteSuspects t p = { c with
      cancels := Function.update c.cancels p { c.cancels p with head := none }
      lateCancel := late } ∧
    ((c.tasks t).errorCode ≠ some "57014" ∧ c.inflight ≠ [] ∧ late = some ⟨p, c.inflight⟩ ∨
      ((c.tasks t).errorCode = some "57014" ∨ c.inflight = []) ∧ late = c.lateCancel) := by
  unfold noteSuspects
  dsimp only
  split
  · rename_i h
    exact ⟨_, rfl, .inl ⟨h.1, h.2, rfl⟩⟩
  · rename_i h
    refine ⟨_, rfl, .inr ⟨?_, rfl⟩⟩
    rw [not_and_or, not_not, not_not] at h
    exact h

/-- An ended suspect is a victim, or it is struck off. -/
theorem checkLateCancel_shape (c : Conn) (t : TaskId) (late : LateCancel) :
    ((c.tasks t).errorCode = some "57014" ∧ (c.tasks t).settled = false ∧
      ∃ cancels pending retiring, c.checkLateCancel t late = { c.markLateCancel t with
        cancels := cancels, pendingCancel := pending, isRetiring := retiring, lateCancel := none } ∧
        (∀ p, ∃ b, cancels p = { c.cancels p with timer := b }) ∧
        (pending = c.pendingCancel ∧ retiring = c.isRetiring ∧
            ¬ (c.pendingCancel = some late.pending ∧ c.isRetiring = false) ∨
          c.pendingCancel = some late.pending ∧ c.isRetiring = false ∧ pending = none ∧
            retiring = false)) ∨
    ((c.tasks t).errorCode = some "57014" → (c.tasks t).settled = true) ∧
      c.checkLateCancel t late = { c with lateCancel := late.strike t } := by
  unfold checkLateCancel
  dsimp only
  split
  · rename_i h
    rw [Bool.not_eq_true] at h
    refine .inl ⟨h.1, h.2, ?_⟩
    split
    · rename_i hp
      rw [Bool.not_eq_true] at hp
      obtain ⟨cancels, hc, hb⟩ := clearPendingCancel_shape (c.markLateCancel t)
      exact ⟨cancels, none, false, by rw [hc], hb, .inr ⟨hp.1, hp.2, rfl, rfl⟩⟩
    · rename_i hp
      rw [Bool.not_eq_true] at hp
      exact ⟨c.cancels, c.pendingCancel, c.isRetiring, rfl, fun _ => ⟨_, rfl⟩, .inl ⟨rfl, rfl, hp⟩⟩
  · rename_i h
    refine .inr ⟨fun he => ?_, rfl⟩
    by_contra hs
    exact h ⟨he, hs⟩

/-! ### Attempts and ends -/

/-- What the beginnings and ends of attempts and sockets have in common: nothing starts, the
tasks that go are settled, and nothing but a Terminate is written. -/
structure Relinks (c c' : Conn) : Prop where
  tasks : ∀ t, (c.tasks t).Calls (c'.tasks t)
  nextTask : c'.nextTask = c.nextTask
  txStatus : c'.txStatus = c.txStatus
  queue : c'.queue = c.queue ∨ c'.queue = []
  queued : c.SettledCalled → ∀ t ∈ c.queue, t ∈ c'.queue ∨ (c'.tasks t).settlements ≠ []
  inflight : c'.inflight = c.inflight ∧ c'.ledger = c.ledger ∨
    c'.inflight = [] ∧ ∃ n, c'.ledger = c.ledger ++ List.replicate (n + 1) .drop
  running : c.SettledCalled → ∀ t ∈ c.inflight, t ∈ c'.inflight ∨ (c'.tasks t).settlements ≠ []
  sent : ∀ s, ∃ n, c'.sent s = c.sent s ++ List.replicate n ⟨.link, .terminate⟩ ∧
    (n ≠ 0 → c.socket = some s)
  socket : c'.socket = c.socket ∨ c'.socket = none
  outbuf : c'.outbuf = c.outbuf ∨ c'.outbuf = []
  pendingCancel : c'.pendingCancel = c.pendingCancel ∨ c'.pendingCancel = none
  lateCancel : c'.lateCancel = c.lateCancel ∨ c'.lateCancel = none
  cancels : ∀ p, ∃ b, c'.cancels p = { c.cancels p with timer := b }
  nextCancel : c'.nextCancel = c.nextCancel
  pumps : ∀ p, (c.pumps p).Halts (c'.pumps p)
  nextPump : c'.nextPump = c.nextPump
  nextSocket : c'.nextSocket = c.nextSocket
  destroyed : ∀ s, c.destroyed s = true → c'.destroyed s = true
  called : c.connectCalled = true → c'.connectCalled = true
  prepared : c'.prepared = c.prepared ∨ c'.prepared = fun _ => none
  parses : c'.parseInflight = c.parseInflight ∨ c'.parseInflight = fun _ => none
  history : ∃ ms, c'.history = c.history ++ ms ∧ ∀ m ∈ ms, ∃ st b, m = .thrown st b

theorem Relinks.refl (c : Conn) : Relinks c c where
  tasks _ := .refl _
  nextTask := rfl
  txStatus := rfl
  queue := .inl rfl
  queued _ _ h := .inl h
  inflight := .inl ⟨rfl, rfl⟩
  running _ _ h := .inl h
  sent _ := ⟨0, by simp, fun h => absurd rfl h⟩
  socket := .inl rfl
  outbuf := .inl rfl
  pendingCancel := .inl rfl
  lateCancel := .inl rfl
  cancels _ := ⟨_, rfl⟩
  nextCancel := rfl
  pumps _ := .inl rfl
  nextPump := rfl
  nextSocket := rfl
  destroyed _ h := h
  called h := h
  prepared := .inl rfl
  parses := .inl rfl
  history := ⟨[], (List.append_nil _).symm, by simp⟩

theorem Relinks.trans {c c' c'' : Conn} (h : Relinks c c') (g : Relinks c' c'') :
    Relinks c c'' where
  tasks t := (h.tasks t).trans (g.tasks t)
  nextTask := g.nextTask.trans h.nextTask
  txStatus := g.txStatus.trans h.txStatus
  queue := by
    rcases g.queue with hq | hq
    · rw [hq]
      exact h.queue
    · exact .inr hq
  queued hc t ht := by
    rcases h.queued hc t ht with h' | h'
    · exact g.queued (hc.of_calls h.tasks) t h'
    · exact .inr ((g.tasks t).settled h')
  inflight := by
    rcases g.inflight with ⟨hi, hl⟩ | ⟨hi, n', hl'⟩
    · rw [hi, hl]
      exact h.inflight
    · rcases h.inflight with ⟨-, hl⟩ | ⟨-, n, hl⟩
      · exact .inr ⟨hi, n', by rw [hl', hl]⟩
      · refine .inr ⟨hi, n + 1 + n', ?_⟩
        rw [hl', hl, List.append_assoc, List.replicate_append_replicate]
        rfl
  running hc t ht := by
    rcases h.running hc t ht with h' | h'
    · exact g.running (hc.of_calls h.tasks) t h'
    · exact .inr ((g.tasks t).settled h')
  sent s := by
    obtain ⟨n, hn, hs⟩ := h.sent s
    obtain ⟨n', hn', hs'⟩ := g.sent s
    refine ⟨n + n', by rw [hn', hn, List.append_assoc, List.replicate_append_replicate], ?_⟩
    intro hne
    by_cases h0 : n = 0
    · have hs' := hs' (by omega)
      rcases h.socket with h' | h'
      · rw [← h', hs']
      · rw [h'] at hs'
        cases hs'
    · exact hs h0
  socket := by
    rcases g.socket with hs | hs
    · rw [hs]
      exact h.socket
    · exact .inr hs
  outbuf := by
    rcases g.outbuf with hs | hs
    · rw [hs]
      exact h.outbuf
    · exact .inr hs
  pendingCancel := by
    rcases g.pendingCancel with hs | hs
    · rw [hs]
      exact h.pendingCancel
    · exact .inr hs
  lateCancel := by
    rcases g.lateCancel with hs | hs
    · rw [hs]
      exact h.lateCancel
    · exact .inr hs
  cancels p := by
    obtain ⟨b, hb⟩ := h.cancels p
    obtain ⟨b', hb'⟩ := g.cancels p
    exact ⟨b', by rw [hb', hb]⟩
  nextCancel := g.nextCancel.trans h.nextCancel
  pumps p := (h.pumps p).trans (g.pumps p)
  nextPump := g.nextPump.trans h.nextPump
  nextSocket := g.nextSocket.trans h.nextSocket
  destroyed s hs := g.destroyed s (h.destroyed s hs)
  called hc := g.called (h.called hc)
  prepared := by
    rcases g.prepared with hs | hs
    · rw [hs]
      exact h.prepared
    · exact .inr hs
  parses := by
    rcases g.parses with hs | hs
    · rw [hs]
      exact h.parses
    · exact .inr hs
  history := by
    obtain ⟨ms, hm, ht⟩ := h.history
    obtain ⟨ms', hm', ht'⟩ := g.history
    refine ⟨ms ++ ms', by rw [hm', hm, List.append_assoc], fun m hmem => ?_⟩
    rcases List.mem_append.mp hmem with hmem | hmem
    · exact ht m hmem
    · exact ht' m hmem

/-- An attempt that is given up. -/
theorem failAttempt_shape (c : Conn) (e : JsError) : (c.connecting = false ∧ c.failAttempt e = c) ∨
    ∃ armed destroyed failed loops, c.connecting = true ∧ c.failAttempt e = { c with
      connecting := false, armedTimers := armed, destroyed := destroyed, socket := none
      attempt := none, connectFailed := failed, loops := loops } ∧
    (∀ s, c.destroyed s = true → destroyed s = true) ∧
    (failed = c.connectFailed ∨ c.attempt = some .connect ∧ failed = some e) ∧
    (c.attempt = some .connect → loops = c.loops ∧ failed = some e) ∧
    ∀ l, loops l = c.loops l ∨ c.attempt = some (.loop l) ∧ ∃ a, c.loops l = .establishing a ∧
      loops l = .failed a e := by
  unfold failAttempt
  split
  · rename_i h
    exact .inl ⟨by simpa using h, rfl⟩
  · rename_i h
    refine .inr ?_
    obtain ⟨armed, ha⟩ := clearConnTimer_shape { c with connecting := false }
    have hd : ∃ destroyed, { c with connecting := false, armedTimers := armed }.destroySocket =
        { c with connecting := false, armedTimers := armed, destroyed := destroyed } ∧
        ∀ s, c.destroyed s = true → destroyed s = true := by
      unfold destroySocket
      split
      · exact ⟨c.destroyed, rfl, fun _ h => h⟩
      · rename_i s _
        refine ⟨_, rfl, fun s' hs => ?_⟩
        by_cases hss : s' = s
        · subst hss
          exact Function.update_self ..
        · exact (Function.update_of_ne hss _ _).trans hs
    obtain ⟨destroyed, hd, hmono⟩ := hd
    dsimp only at ha ⊢
    rw [ha, hd]
    unfold rejectAttempt
    dsimp only
    split
    · rename_i ho
      exact ⟨armed, destroyed, c.connectFailed, c.loops, by simpa using h, rfl, hmono, .inl rfl,
        fun h' => (by rw [ho] at h'; cases h'), fun _ => .inl rfl⟩
    · rename_i ho
      exact ⟨armed, destroyed, some e, c.loops, by simpa using h, rfl, hmono, .inr ⟨ho, rfl⟩,
        fun _ => ⟨rfl, rfl⟩, fun _ => .inl rfl⟩
    · rename_i l ho
      split
      · rename_i a hl
        refine ⟨armed, destroyed, c.connectFailed, _, by simpa using h, rfl, hmono, .inl rfl,
          fun h' => (by rw [ho] at h'; cases h'), fun l' => ?_⟩
        by_cases hll : l' = l
        · subst hll
          exact .inr ⟨ho, a, hl, Function.update_self ..⟩
        · exact .inl (Function.update_of_ne hll _ _)
      · exact ⟨armed, destroyed, c.connectFailed, c.loops, by simpa using h, rfl, hmono, .inl rfl,
          fun h' => (by rw [ho] at h'; cases h'), fun _ => .inl rfl⟩

theorem failAttempt_relinks (c : Conn) (e : JsError) : Relinks c (c.failAttempt e) := by
  rcases failAttempt_shape c e with ⟨_, h⟩ | ⟨_, destroyed, _, _, _, h, hd, -⟩
  · rw [h]
    exact .refl c
  · rw [h]
    exact { Relinks.refl c with
      socket := .inr rfl
      destroyed := hd }

theorem Settles.relinks {c c' : Conn} (h : Settles c c') : Relinks c c' := by
  obtain ⟨ts, ps, rfl, ht, hp⟩ := h
  exact { Relinks.refl c with
    tasks := ht
    queued := fun _ _ h => .inl h
    running := fun _ _ h => .inl h
    pumps := hp }

theorem rejectQueue_relinks (c : Conn) (e : JsError) : Relinks c (c.rejectQueue e) := by
  obtain ⟨c', hs, h, hq⟩ := rejectQueue_shape c e
  have hr := hs.relinks
  rw [h]
  exact { hr with
    queue := .inr rfl
    queued := fun hc t hm => .inr (hq hc t hm)
    running := hr.running }

theorem dropQueue_relinks (c : Conn) (e : JsError) : Relinks c (c.dropQueue e) := by
  obtain ⟨c', hs, h, hq⟩ := dropQueue_shape c e
  have hr := hs.relinks
  rw [h]
  exact { hr with
    queue := .inr rfl
    queued := fun hc t hm => .inr (hq hc t hm)
    running := hr.running }

theorem dropInflight_relinks (c : Conn) (e : JsError) : Relinks c (c.dropInflight e) := by
  obtain ⟨c', hs, h, hq⟩ := dropInflight_shape c e
  have hr := hs.relinks
  rw [h]
  exact { hr with
    inflight := .inr ⟨rfl, 0, rfl⟩
    running := fun hc t hm => .inr (hq hc t hm)
    queued := hr.queued }

theorem clearPendingCancel_relinks (c : Conn) : Relinks c c.clearPendingCancel := by
  obtain ⟨cancels, h, hb⟩ := clearPendingCancel_shape c
  rw [h]
  exact { Relinks.refl c with
    pendingCancel := .inr rfl
    cancels := hb }

theorem destroy_relinks (c : Conn) (s : SocketId) : Relinks c (c.destroy s) := by
  refine { Relinks.refl c with destroyed := fun s' hs => ?_ }
  change Function.update c.destroyed s true s' = true
  by_cases h : s' = s
  · subst h
    exact Function.update_self ..
  · rwa [Function.update_of_ne h]

theorem destroySocket_relinks (c : Conn) : Relinks c c.destroySocket := by
  unfold destroySocket
  split
  · exact .refl c
  · exact destroy_relinks c _

theorem forgetStatements_relinks (c : Conn) : Relinks c c.forgetStatements :=
  { Relinks.refl c with prepared := .inr rfl, parses := .inr rfl }

theorem loopTop_relinks (c : Conn) (l : LoopId) (attempt : Nat) (e : JsError) :
    Relinks c (c.loopTop cfg l attempt e) := by
  unfold loopTop
  split
  · exact { Relinks.refl c with }
  · split
    · have h : Relinks c { c with state := .closed, loops := Function.update c.loops l .ended } :=
        { Relinks.refl c with }
      exact h.trans (rejectQueue_relinks _ _)
    · exact { Relinks.refl c with }

theorem startReconnect_relinks (c : Conn) (e : JsError) : Relinks c (c.startReconnect cfg e) := by
  have h : Relinks c { c with nextLoop := c.nextLoop + 1 } := { Relinks.refl c with }
  exact h.trans (loopTop_relinks _ _ _ _)

theorem dropSocket_relinks (c : Conn) (e : JsError) : Relinks c (c.dropSocket e) := by
  have h := (clearPendingCancel_relinks c).trans (destroySocket_relinks _)
  unfold dropSocket
  generalize c.clearPendingCancel.destroySocket = c' at h ⊢
  have h' : Relinks c { c' with socket := none, outbuf := [] } :=
    h.trans { Relinks.refl c' with socket := .inr rfl, outbuf := .inr rfl }
  exact h'.trans (dropInflight_relinks _ e)

theorem socketLost_relinks (c : Conn) (e : JsError) : Relinks c (c.socketLost cfg e) := by
  have h := dropSocket_relinks c e
  unfold socketLost
  dsimp only
  generalize c.dropSocket e = c' at h ⊢
  split
  · have h' : Relinks c { c' with state := .reconnecting } := h.trans { Relinks.refl c' with }
    exact (h'.trans (forgetStatements_relinks _)).trans (startReconnect_relinks _ e)
  · have h' : Relinks c { c' with state := .closed } := h.trans { Relinks.refl c' with }
    exact h'.trans (rejectQueue_relinks _ _)

theorem onSocketDown_relinks (c : Conn) (e : JsError) : Relinks c (c.onSocketDown cfg e) := by
  unfold onSocketDown
  split
  · exact .refl c
  · split
    · exact failAttempt_relinks c e
    · exact socketLost_relinks c e

theorem establish_relinks (c : Conn) (owner : AttemptOwner) : Relinks c (c.establish owner) :=
  { Relinks.refl c with }

theorem connect_relinks (c : Conn) : Relinks c c.connect := by
  unfold connect
  split
  · exact .refl c
  · have h : Relinks c { c with connectCalled := true } :=
      { Relinks.refl c with called := fun _ => rfl }
    exact h.trans (establish_relinks _ _)

theorem connectCatch_relinks (c : Conn) : Relinks c c.connectCatch := by
  unfold connectCatch
  split
  · exact .refl c
  · dsimp only
    split
    · exact { Relinks.refl c with }
    · have h : Relinks c { c with connectFailed := none, state := .closed } :=
        { Relinks.refl c with }
      exact h.trans (rejectQueue_relinks _ _)

theorem loopWake_relinks (c : Conn) (l : LoopId) : Relinks c (c.loopWake l) := by
  unfold loopWake
  split
  · split
    · exact { Relinks.refl c with }
    · have h : ∀ loops, Relinks c { c with loops := loops } := fun _ => { Relinks.refl c with }
      exact (h _).trans (establish_relinks _ _)
  · exact .refl c

theorem loopCatch_relinks (c : Conn) (l : LoopId) : Relinks c (c.loopCatch cfg l) := by
  unfold loopCatch
  split
  · split
    · have h : ∀ loops, Relinks c { c with state := .closed, loops := loops } :=
        fun _ => { Relinks.refl c with }
      exact (h _).trans (rejectQueue_relinks _ _)
    · exact loopTop_relinks _ _ _ _
  · exact .refl c

theorem settlePending_relinks (c : Conn) (e : JsError) : Relinks c (c.settlePending e) := by
  have h : Relinks c { c with outbuf := [], parseInflight := fun _ => none, lateCancel := none } :=
    { Relinks.refl c with outbuf := .inr rfl, lateCancel := .inr rfl, parses := .inr rfl }
  exact (h.trans (dropInflight_relinks _ e)).trans (dropQueue_relinks _ e)

theorem clearConnTimer_relinks (c : Conn) : Relinks c c.clearConnTimer := by
  obtain ⟨armed, h⟩ := clearConnTimer_shape c
  rw [h]
  exact { Relinks.refl c with }

theorem rejectAttempt_relinks (c : Conn) (e : JsError) : Relinks c (c.rejectAttempt e) := by
  unfold rejectAttempt
  dsimp only
  split
  · exact { Relinks.refl c with }
  · exact { Relinks.refl c with }
  · split
    · exact { Relinks.refl c with }
    · exact { Relinks.refl c with }

theorem writeTerminate_relinks (c : Conn) : Relinks c (c.writeSocket [⟨.link, .terminate⟩]) := by
  obtain ⟨sent, h, rfl | ⟨s, hs, _, rfl⟩⟩ := writeSocket_shape c [⟨.link, .terminate⟩]
  · rw [h]
    exact { Relinks.refl c with }
  · rw [h]
    refine { Relinks.refl c with sent := fun s' => ?_ }
    by_cases hss : s' = s
    · subst hss
      exact ⟨1, Function.update_self .., fun _ => hs⟩
    · exact ⟨0, by simp [Function.update_of_ne hss], fun h => absurd rfl h⟩

theorem endConn_relinks (c : Conn) : Relinks c c.endConn := by
  unfold endConn
  split
  · exact .refl c
  · dsimp only
    have h0 : Relinks c { c with ended := true } := { Relinks.refl c with }
    have h1 : Relinks c { c with ended := true }.clearConnTimer :=
      h0.trans (clearConnTimer_relinks _)
    have h2 : Relinks c { writeSocket { c with ended := true }.clearConnTimer
        [⟨.link, .terminate⟩] with state := .closed } :=
      (h1.trans (writeTerminate_relinks _)).trans { Relinks.refl _ with }
    refine ((h2.trans ?_).trans (settlePending_relinks _ _)).trans (clearPendingCancel_relinks _)
    split
    · have h3 : ∀ d : Conn, Relinks d { d with connecting := false } :=
        fun d => { Relinks.refl d with }
      exact (h3 _).trans (rejectAttempt_relinks _ _)
    · exact .refl _

/-- A new socket is adopted by the attempt that is running, and destroyed if there is none. -/
theorem dialed_shape (c : Conn) (d : DialId) : ∃ dials socket backed destroyed sent,
    c.dialed d = { c with
      nextSocket := c.nextSocket + 1, dials := dials, socket := socket, writeBackedUp := backed
      destroyed := destroyed, sent := sent } ∧
    (c.connecting = false ∧ socket = c.socket ∧ sent = c.sent ∧
        destroyed = Function.update c.destroyed c.nextSocket true ∨
      c.connecting = true ∧ socket = some c.nextSocket ∧ destroyed = c.destroyed ∧
        (sent = c.sent ∨ sent = Function.update c.sent c.nextSocket
          (c.sent c.nextSocket ++ [⟨.link, .startup⟩]))) := by
  unfold dialed
  dsimp only
  split
  · rename_i h
    exact ⟨_, _, _, _, _, rfl, .inl ⟨by simpa using h, rfl, rfl, rfl⟩⟩
  · rename_i h
    obtain ⟨sent, hw, hs⟩ := writeTo_shape { c with
      nextSocket := c.nextSocket + 1, dials := c.dials.erase d
      socket := some c.nextSocket, writeBackedUp := false } c.nextSocket [⟨.link, .startup⟩]
    rw [hw]
    refine ⟨_, _, _, _, sent, rfl, .inr ⟨by simpa using h, rfl, rfl, ?_⟩⟩
    rcases hs with ⟨-, hs⟩ | ⟨-, hs⟩
    · exact .inl hs
    · exact .inr hs

theorem takeDown_relinks (c : Conn) (e : JsError) : Relinks c (c.takeDown cfg e) := by
  have hn : Relinks c (c.note (.thrown c.state c.connecting)) :=
    { Relinks.refl c with
      history := ⟨_, rfl, fun m hm => ⟨_, _, List.mem_singleton.mp hm⟩⟩ }
  exact hn.trans (onSocketDown_relinks _ e)

/-! ### The groups of moves -/

theorem GateMove.shape {c c' : Conn} (hm : GateMove c c') :
    ∃ key scheduled backed waiters room dials armed, c' = { c with
      backendKey := key, flushScheduled := scheduled, writeBackedUp := backed
      drainWaiters := waiters, sockRoom := room, dials := dials, armedTimers := armed } := by
  cases hm with
  | gate b ws => exact ⟨_, _, _, _, _, _, _, rfl⟩
  | schedule b => exact ⟨_, _, _, _, _, _, _, rfl⟩
  | room n => exact ⟨_, _, _, _, _, _, _, rfl⟩
  | backendKey k => exact ⟨_, _, _, _, _, _, _, rfl⟩
  | timers dials armed hd => exact ⟨_, _, _, _, _, _, _, rfl⟩

theorem CancelMove.shape {c c' : Conn} {h : Option (TaskId × ConnState)}
    (hm : CancelMove cfg c h c') : ∃ ts pending retiring late cancels n, c' = { c with
      tasks := ts, pendingCancel := pending, isRetiring := retiring, lateCancel := late
      cancels := cancels, nextCancel := n } ∧
      ∀ u, ts u = c.tasks u ∨
        ts u = { c.tasks u with error := (c.tasks u).error.map JsError.markLate } := by
  cases hm with
  | sendCancel t =>
    rcases @sendCancelRequest_shape cfg c t with h | h
    · exact ⟨_, _, _, _, _, _, h, fun _ => .inl rfl⟩
    · exact ⟨_, _, _, _, _, _, h, fun _ => .inl rfl⟩
  | answered p b => exact ⟨_, _, _, _, _, _, rfl, fun _ => .inl rfl⟩
  | cancelTimer p b => exact ⟨_, _, _, _, _, _, rfl, fun _ => .inl rfl⟩
  | noteSuspects p =>
    obtain ⟨_, h, -⟩ := noteSuspects_shape c _ p
    exact ⟨_, _, _, _, _, _, h, fun _ => .inl rfl⟩
  | @checkLate t st late =>
    rcases checkLateCancel_shape c t late with ⟨-, -, _, _, _, h, -⟩ | ⟨-, h⟩
    · refine ⟨_, _, _, _, _, _, h, fun u => ?_⟩
      by_cases hu : u = t
      · subst hu
        exact .inr (by simp [markLateCancel, Conn.modTask])
      · exact .inl (by simp [markLateCancel, Conn.modTask, Function.update_of_ne hu])
    · exact ⟨_, _, _, _, _, _, h, fun _ => .inl rfl⟩
  | clearStopped | clearConfirmed =>
    obtain ⟨_, h, -⟩ := clearPendingCancel_shape c
    exact ⟨_, _, _, _, _, _, h, fun _ => .inl rfl⟩
  | retiring => exact ⟨_, _, _, _, _, _, rfl, fun _ => .inl rfl⟩

/-- What a pump hands to the socket. -/
def Feeds (c : Conn) (sent : SocketId → List Packet) : Prop :=
  sent = c.sent ∨ ∃ s p, ∃ fs : List Frame, c.socket = some s ∧ c.destroyed s = false ∧
    (∀ f ∈ fs, isCopyFrame f = true) ∧
    sent = Function.update c.sent s (c.sent s ++ fs.map (Packet.mk (.pump (c.pumps p).task)))

theorem PumpMove.shape {c c' : Conn} (hm : PumpMove c c') : ∃ ps sent room,
    c' = { c with pumps := ps, sent := sent, sockRoom := room } ∧ Feeds c sent ∧
      ∀ p, (ps p).task = (c.pumps p).task := by
  have hup : ∀ (p : PumpId) (q : Pump), q.task = (c.pumps p).task →
      ∀ p', (Function.update c.pumps p q p').task = (c.pumps p').task := by
    intro p q hq p'
    by_cases hp : p' = p
    · subst hp
      rwa [Function.update_self]
    · rw [Function.update_of_ne hp]
  cases hm with
  | pumpAwait p => exact ⟨_, _, _, rfl, .inl rfl, hup p _ rfl⟩
  | pumpTake p b => exact ⟨_, _, _, rfl, .inl rfl, hup p _ rfl⟩
  | pumpEnd p => exact ⟨_, _, _, rfl, .inl rfl, hup p _ rfl⟩
  | pumpFlush p fs isLast hp hf =>
    obtain ⟨_, _, _, h, hs⟩ := pumpFlush_shape c p fs isLast
    refine ⟨_, _, _, h, ?_, hup p _ rfl⟩
    rcases hs with ⟨-, hs, -⟩ | ⟨s, hs, -, hs' | ⟨hd, hs'⟩⟩
    · exact .inl hs
    · exact .inl hs'
    · exact .inr ⟨s, p, fs, hs, hd, hf, hs'⟩
  | pumpCatch p e =>
    obtain ⟨_, h, hs⟩ := pumpCatch_shape c p e
    refine ⟨_, _, _, h, ?_, hup p _ rfl⟩
    rcases hs with hs | ⟨s, hs, hd, hs'⟩
    · exact .inl hs
    · exact .inr ⟨s, p, [_], hs, hd, by simp [isCopyFrame], hs'⟩
  | drained s =>
    obtain ⟨ps, h, hp⟩ := wakePumps_shape c s .resumed
    refine ⟨_, _, _, h, .inl rfl, fun p => ?_⟩
    rcases hp p with hp | ⟨_, -, hp⟩
    · rw [hp]
    · rw [hp]
  | undrained s =>
    obtain ⟨ps, h, hp⟩ := wakePumps_shape c s fun _ => .failed socketClosedError
    refine ⟨_, _, _, h, .inl rfl, fun p => ?_⟩
    rcases hp p with hp | ⟨_, -, hp⟩
    · rw [hp]
    · rw [hp]

theorem LinkMove.relinks {c c' : Conn} (hm : LinkMove cfg c c') : Relinks c c' := by
  cases hm with
  | destroy s => exact destroy_relinks c s
  | connectCatch => exact connectCatch_relinks c
  | loopCatch l => exact loopCatch_relinks c l
  | endConn => exact endConn_relinks c
  | failAttempt e => exact failAttempt_relinks c e
  | retire e | socketDown e => exact onSocketDown_relinks c e
  | takeDown e => exact takeDown_relinks c e

end Conn

end Minipg
