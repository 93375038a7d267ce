import Minipg.Connection.Link

/-!
# What rejecting tasks touches

`Settles c c'` says that `c'` differs from `c` by cleared timers, by further rejections at
the end of the settlements of some tasks, and by pumps that were told to stop.  All the
loops that reject what is pending are of that kind, and leave every task of their list
with a settlement.
-/

namespace Minipg

/-- `k'` is `k` after its promise was rejected any number of times. -/
def Task.Calls (k k' : Task) : Prop :=
  ∃ timer grace listening es,
    k' = { k with
      timer := timer, graceTimer := grace, listening := listening
      settlements := k.settlements ++ List.map Outcome.rejected es }

/-- `q'` is `q`, told to stop perhaps. -/
def Pump.Halts (q q' : Pump) : Prop := q' = q ∨ q' = { q with stopped := true }

theorem Task.Calls.refl (k : Task) : k.Calls k :=
  ⟨k.timer, k.graceTimer, k.listening, [], by simp⟩

theorem Task.Calls.trans {k k' k'' : Task} (h : k.Calls k') (g : k'.Calls k'') :
    k.Calls k'' := by
  obtain ⟨_, _, _, es, rfl⟩ := h
  obtain ⟨a, b, d, es', rfl⟩ := g
  exact ⟨a, b, d, es ++ es', by simp⟩

theorem Pump.Halts.trans {q q' q'' : Pump} (h : q.Halts q') (g : q'.Halts q'') :
    q.Halts q'' := by
  rcases h with rfl | rfl
  · exact g
  · rcases g with rfl | rfl
    · exact .inr rfl
    · exact .inr rfl

/-- A settlement is never taken back. -/
theorem Task.Calls.settled {k k' : Task} (h : k.Calls k') (hk : k.settlements ≠ []) :
    k'.settlements ≠ [] := by
  obtain ⟨_, _, _, es, rfl⟩ := h
  simp [hk]

namespace Conn

def Settles (c c' : Conn) : Prop :=
  ∃ ts ps, c' = { c with tasks := ts, pumps := ps } ∧ (∀ t, (c.tasks t).Calls (ts t)) ∧
    ∀ p, (c.pumps p).Halts (ps p)

theorem Settles.refl (c : Conn) : Settles c c :=
  ⟨c.tasks, c.pumps, rfl, fun _ => .refl _, fun _ => .inl rfl⟩

theorem Settles.trans {c c' c'' : Conn} (h : Settles c c') (g : Settles c' c'') :
    Settles c c'' := by
  obtain ⟨_, _, rfl, ht, hp⟩ := h
  obtain ⟨ts, ps, rfl, gt, gp⟩ := g
  exact ⟨ts, ps, rfl, fun t => (ht t).trans (gt t), fun p => (hp p).trans (gp p)⟩

theorem Settles.task {c c' : Conn} (h : Settles c c') (t : TaskId) :
    (c.tasks t).Calls (c'.tasks t) := by
  obtain ⟨_, _, rfl, ht, _⟩ := h
  exact ht t

/-- Clearing timers and rejecting in one update of a task. -/
theorem Settles.modTask {c : Conn} {t : TaskId} {f : Task → Task}
    (hf : (c.tasks t).Calls (f (c.tasks t))) : Settles c (c.modTask t f) := by
  refine ⟨_, c.pumps, rfl, fun t' => ?_, fun _ => .inl rfl⟩
  by_cases h : t' = t
  · subst h
    rw [Function.update_self]
    exact hf
  · rw [Function.update_of_ne h]
    exact .refl _

theorem stopCopy_settles (c : Conn) (t : TaskId) : Settles c (c.stopCopy t) := by
  unfold stopCopy
  split
  · exact .refl c
  · rename_i p _
    refine ⟨c.tasks, _, rfl, fun _ => .refl _, fun p' => ?_⟩
    by_cases h : p' = p
    · subst h
      rw [Function.update_self]
      exact .inr rfl
    · rw [Function.update_of_ne h]
      exact .inl rfl

theorem settle_settles (c : Conn) (t : TaskId) (e : JsError) :
    Settles c (c.settle t (.rejected e)) :=
  Settles.modTask ⟨(c.tasks t).timer, (c.tasks t).graceTimer, (c.tasks t).listening, [e], rfl⟩

theorem rejectTask_settles (c : Conn) (t : TaskId) (e : JsError) :
    Settles c (c.rejectTask t e) :=
  (stopCopy_settles c t).trans (settle_settles _ t e)

@[simp] theorem stopCopy_tasks (c : Conn) (t : TaskId) : (c.stopCopy t).tasks = c.tasks := by
  unfold stopCopy
  split <;> rfl

theorem rejectTask_settlements (c : Conn) (t : TaskId) (e : JsError) :
    ((c.rejectTask t e).tasks t).settlements = (c.tasks t).settlements ++ [.rejected e] := by
  simp [rejectTask, settle, Conn.modTask]

theorem clearTimers_settles (c : Conn) (t : TaskId) : Settles c (c.clearTimers t) :=
  Settles.modTask ⟨false, false, false, [], by simp⟩

theorem stopListening_settles (c : Conn) (t : TaskId) :
    Settles c (c.modTask t fun k => { k with listening := false }) :=
  Settles.modTask ⟨(c.tasks t).timer, (c.tasks t).graceTimer, false, [], by simp⟩

/-! ### The loops -/

theorem dropTask_settles (e : JsError) (c : Conn) (t : TaskId) : Settles c (dropTask e c t) := by
  unfold dropTask
  dsimp only
  split
  · exact clearTimers_settles c t
  · exact (clearTimers_settles c t).trans (rejectTask_settles _ t _)

theorem dropQueued_settles (e : JsError) (c : Conn) (t : TaskId) :
    Settles c (dropQueued e c t) := by
  have hl := stopListening_settles c t
  unfold dropQueued
  dsimp only
  split
  · exact hl
  · exact hl.trans (rejectTask_settles _ t _)

theorem foldl_settles {f : Conn → TaskId → Conn} (hf : ∀ c t, Settles c (f c t)) (ts : List TaskId) :
    ∀ c, Settles c (ts.foldl f c) := by
  induction ts with
  | nil => exact Settles.refl
  | cons t ts ih => exact fun c => (hf c t).trans (ih (f c t))

/-- A promise that is marked as settled has been called. -/
def SettledCalled (c : Conn) : Prop :=
  ∀ t, (c.tasks t).settled = true → (c.tasks t).settlements ≠ []

theorem SettledCalled.of_calls {c c' : Conn} (hc : c.SettledCalled)
    (h : ∀ t, (c.tasks t).Calls (c'.tasks t)) : c'.SettledCalled := by
  intro t ht
  refine (h t).settled (hc t ?_)
  obtain ⟨_, _, _, _, hk⟩ := h t
  rw [hk] at ht
  exact ht

theorem SettledCalled.of_settles {c c' : Conn} (h : Settles c c') (hc : c.SettledCalled) :
    c'.SettledCalled := hc.of_calls h.task

/-- A loop that settles the task of each round leaves all of them settled. -/
theorem foldl_settled {f : Conn → TaskId → Conn} (hf : ∀ c t, Settles c (f c t))
    (hs : ∀ c t, c.SettledCalled → ((f c t).tasks t).settlements ≠ []) (ts : List TaskId) :
    ∀ c : Conn, c.SettledCalled → ∀ t ∈ ts, ((ts.foldl f c).tasks t).settlements ≠ [] := by
  induction ts with
  | nil => simp
  | cons u ts ih =>
    intro c hc t ht
    rcases List.mem_cons.mp ht with rfl | ht
    · exact ((foldl_settles hf ts (f c t)).task t).settled (hs c t hc)
    · exact ih (f c u) (hc.of_settles (hf c u)) t ht

theorem dropTask_settled (e : JsError) (c : Conn) (t : TaskId) (hc : c.SettledCalled) :
    ((dropTask e c t).tasks t).settlements ≠ [] := by
  have hc' := hc.of_settles (clearTimers_settles c t)
  unfold dropTask
  dsimp only
  split
  · rename_i h
    exact hc' t h
  · rw [rejectTask_settlements]
    simp

theorem dropQueued_settled (e : JsError) (c : Conn) (t : TaskId) (hc : c.SettledCalled) :
    ((dropQueued e c t).tasks t).settlements ≠ [] := by
  have hl := stopListening_settles c t
  have hc' := hc.of_settles hl
  unfold dropQueued
  dsimp only
  split
  · rename_i h
    exact hc' t h
  · rw [rejectTask_settlements]
    simp

/-- The pipeline is rejected and empty. -/
theorem dropInflight_shape (c : Conn) (e : JsError) : ∃ c', Settles c c' ∧
    c.dropInflight e = { c' with inflight := [], ledger := c.ledger ++ [.drop] } ∧
    (c.SettledCalled → ∀ t ∈ c.inflight, (c'.tasks t).settlements ≠ []) :=
  ⟨_, foldl_settles (dropTask_settles e) _ c, rfl, fun hc =>
    foldl_settled (dropTask_settles e) (dropTask_settled e) _ c hc⟩

theorem rejectQueue_shape (c : Conn) (e : JsError) : ∃ c', Settles c c' ∧
    c.rejectQueue e = { c' with queue := [] } ∧
    (c.SettledCalled → ∀ t ∈ c.queue, (c'.tasks t).settlements ≠ []) :=
  ⟨_, foldl_settles (fun c t => rejectTask_settles c t e) _ c, rfl, fun hc =>
    foldl_settled (fun c t => rejectTask_settles c t e)
      (fun c t _ => by rw [rejectTask_settlements]; simp) _ c hc⟩

theorem dropQueue_shape (c : Conn) (e : JsError) : ∃ c', Settles c c' ∧
    c.dropQueue e = { c' with queue := [] } ∧
    (c.SettledCalled → ∀ t ∈ c.queue, (c'.tasks t).settlements ≠ []) :=
  ⟨_, foldl_settles (dropQueued_settles e) _ c, rfl, fun hc =>
    foldl_settled (dropQueued_settles e) (dropQueued_settled e) _ c hc⟩

end Conn

end Minipg
