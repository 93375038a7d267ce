import Minipg.Hooks.State

/-!
# Hooks are paired while no started task is lost

What a plugin got for a task follows from the task alone (`Told`): nothing before `states` is
defined, a start from then on, and an end once `_instrDone` is set.  A task that was started and
has not ended waits or runs (`Pending`), unless it leaves the queue in one of the ways that call no
hook.
-/

namespace Minipg.Hooks

/-! ### Calls -/

theorem filter_range (t u : TaskId) (p n : Nat) (hook : Hook) :
    (((List.range n).map fun q => (⟨t, q, hook⟩ : Call)).filter
        fun k => k.task = u && k.plugin = p).map Call.hook =
      if t = u ∧ p < n then [hook] else [] := by
  induction n with
  | zero => simp
  | succ n ih =>
    rw [List.range_succ, List.map_append, List.filter_append, List.map_append, ih]
    by_cases ht : t = u
    · by_cases hp : n = p
      · subst hp
        simp [ht]
      · have hlt : p < n + 1 ↔ p < n := by omega
        simp [ht, hp, hlt]
    · simp [ht]

namespace Conn

variable {c : Conn}

theorem hooks_call (c : Conn) (t u : TaskId) (p n : Nat) (hook : Hook) :
    (c.call t n hook).hooks u p = c.hooks u p ++ if t = u ∧ p < n then [hook] else [] := by
  rw [hooks, call, List.filter_append, List.map_append, filter_range]
  rfl

@[simp] theorem hooks_modify (t u : TaskId) (p : Nat) (f : Task → Task) :
    (c.modify t f).hooks u p = c.hooks u p := rfl

theorem tasks_modify_self (c : Conn) (t : TaskId) (f : Task → Task) :
    (c.modify t f).tasks t = f (c.tasks t) := Function.update_self ..

theorem tasks_modify_of_ne {t u : TaskId} {f : Task → Task} (h : u ≠ t) :
    (c.modify t f).tasks u = c.tasks u := Function.update_of_ne h ..

end Conn

/-! ### What a plugin got -/

/-- The calls that belong to a task in this state. -/
def Task.Got (u : Task) (l : List Hook) : Prop :=
  if u.hasStates then
    if u.instrDone then l = [.onQueryStart, .onQueryEnd] ∨ l = [.onQueryStart, .onQueryError]
    else l = [.onQueryStart]
  else l = []

structure Told (c : Conn) : Prop where
  got : ∀ t p, p < c.plugins → (c.tasks t).Got (c.hooks t p)
  beyond : ∀ t p, c.plugins ≤ p → c.hooks t p = []
  begun : ∀ t, (c.tasks t).instrDone = true → c.plugins ≠ 0 → (c.tasks t).hasStates = true
  perf : ∀ t, (c.tasks t).hasStates = true → (c.tasks t).hasPerf = true

namespace Told

variable {c : Conn}

/-- A task may change in what the hooks do not depend on. -/
theorem modify (h : Told c) {t : TaskId} {f : Task → Task}
    (hstates : (f (c.tasks t)).hasStates = (c.tasks t).hasStates)
    (hdone : (f (c.tasks t)).instrDone = (c.tasks t).instrDone)
    (hperf : (c.tasks t).hasPerf = true → (f (c.tasks t)).hasPerf = true) :
    Told (c.modify t f) := by
  have hsame : ∀ u, ((c.modify t f).tasks u).hasStates = (c.tasks u).hasStates ∧
      ((c.modify t f).tasks u).instrDone = (c.tasks u).instrDone ∧
      ((c.tasks u).hasPerf = true → ((c.modify t f).tasks u).hasPerf = true) := by
    intro u
    by_cases hu : u = t
    · subst hu
      rw [Conn.tasks_modify_self]
      exact ⟨hstates, hdone, hperf⟩
    · rw [Conn.tasks_modify_of_ne hu]
      exact ⟨rfl, rfl, id⟩
  refine ⟨fun u p hp => ?_, h.beyond, fun u => ?_, fun u => ?_⟩
  · rw [Task.Got, (hsame u).1, (hsame u).2.1]
    exact h.got u p hp
  · rw [(hsame u).1, (hsame u).2.1]
    exact h.begun u
  · rw [(hsame u).1]
    exact fun hu => (hsame u).2.2 (h.perf u hu)

/-- **The start** of a task. -/
theorem fireStart (h : Told c) (t : TaskId) : Told (c.fireStart t none) := by
  rw [Conn.fireStart]
  by_cases hfires : c.firesStart t = true
  · rw [if_pos hfires]
    simp only [Conn.firesStart, Bool.and_eq_true, Bool.not_eq_true'] at hfires
    obtain ⟨⟨hperf, -⟩, hstates⟩ := hfires
    have hdone : (c.tasks t).instrDone = false ∨ c.plugins = 0 := by
      by_contra hno
      obtain ⟨hdone, hplugins⟩ := not_or.mp hno
      have hbegun := h.begun t ((Bool.not_eq_false _).mp hdone) hplugins
      rw [hstates] at hbegun
      cases hbegun
    refine ⟨fun u p hp => ?_, fun u p hp => ?_, fun u => ?_, fun u => ?_⟩
    · rw [Conn.hooks_modify, Conn.hooks_call]
      by_cases hu : u = t
      · subst hu
        have hgot := h.got u p hp
        rw [Task.Got, hstates, if_neg Bool.false_ne_true] at hgot
        have hnot : (c.tasks u).instrDone = false := hdone.resolve_right (Nat.ne_zero_of_lt hp)
        rw [Conn.tasks_modify_self, hgot, if_pos ⟨rfl, hp⟩, List.nil_append]
        show if (c.tasks u).instrDone = true then _ else _
        rw [hnot]
        exact rfl
      · rw [Conn.tasks_modify_of_ne hu, if_neg (fun heq => hu heq.1.symm), List.append_nil]
        exact h.got u p hp
    · have hp : c.plugins ≤ p := hp
      rw [Conn.hooks_modify, Conn.hooks_call, if_neg (fun hlt => Nat.not_lt.mpr hp hlt.2),
        List.append_nil]
      exact h.beyond u p hp
    · by_cases hu : u = t
      · subst hu
        rw [Conn.tasks_modify_self]
        exact fun _ _ => rfl
      · rw [Conn.tasks_modify_of_ne hu]
        exact h.begun u
    · by_cases hu : u = t
      · subst hu
        rw [Conn.tasks_modify_self]
        exact fun _ => hperf
      · rw [Conn.tasks_modify_of_ne hu]
        exact h.perf u
  · rw [if_neg hfires]
    exact h

/-- **The end** of a task whose hooks were called at its start. -/
theorem fireEnd (h : Told c) {t : TaskId} (hasFailed : Bool)
    (hbegun : (c.tasks t).hasPerf = true → c.plugins ≠ 0 → (c.tasks t).hasStates = true) :
    Told (c.fireEnd t hasFailed) := by
  rw [Conn.fireEnd]
  by_cases hfires : ((c.tasks t).hasPerf && !(c.tasks t).instrDone) = true
  · rw [if_pos hfires]
    simp only [Bool.and_eq_true, Bool.not_eq_true'] at hfires
    obtain ⟨hperf, hopen⟩ := hfires
    have hhook : (if hasFailed = true then Hook.onQueryError else .onQueryEnd) = .onQueryEnd ∨
        (if hasFailed = true then Hook.onQueryError else .onQueryEnd) = .onQueryError := by
      cases hasFailed
      · exact .inl rfl
      · exact .inr rfl
    generalize (if hasFailed = true then Hook.onQueryError else .onQueryEnd) = hook at hhook ⊢
    refine ⟨fun u p hp => ?_, fun u p hp => ?_, fun u => ?_, fun u => ?_⟩
    · rw [Conn.hooks_modify, Conn.hooks_call]
      by_cases hu : u = t
      · subst hu
        have hstates := hbegun hperf (Nat.ne_zero_of_lt hp)
        have hgot := h.got u p hp
        rw [Task.Got, hstates, hopen, if_pos rfl, if_neg Bool.false_ne_true] at hgot
        rw [Conn.tasks_modify_self, hgot, if_pos ⟨rfl, hp⟩]
        show if (c.tasks u).hasStates = true then _ else _
        rw [if_pos hstates]
        rcases hhook with rfl | rfl
        · exact .inl rfl
        · exact .inr rfl
      · rw [Conn.tasks_modify_of_ne hu, if_neg (fun heq => hu heq.1.symm), List.append_nil]
        exact h.got u p hp
    · have hp : c.plugins ≤ p := hp
      rw [Conn.hooks_modify, Conn.hooks_call, if_neg (fun hlt => Nat.not_lt.mpr hp hlt.2),
        List.append_nil]
      exact h.beyond u p hp
    · by_cases hu : u = t
      · subst hu
        rw [Conn.tasks_modify_self]
        exact fun _ hplugins => hbegun hperf hplugins
      · rw [Conn.tasks_modify_of_ne hu]
        exact h.begun u
    · by_cases hu : u = t
      · subst hu
        rw [Conn.tasks_modify_self]
        exact fun _ => hperf
      · rw [Conn.tasks_modify_of_ne hu]
        exact h.perf u
  · rw [if_neg hfires]
    exact h

end Told

/-! ### Where the tasks are -/

/-- Some tasks have ended, and nothing else has happened. -/
structure Ends (c c' : Conn) : Prop where
  plugins : c'.plugins = c.plugins
  queue : c'.queue = c.queue
  inflight : c'.inflight = c.inflight
  nextTask : c'.nextTask = c.nextTask
  tasks : ∀ u, c'.tasks u = c.tasks u ∨
    (c.tasks u).hasPerf = true ∧ c'.tasks u = { c.tasks u with instrDone := true }

namespace Ends

variable {c c' c'' : Conn}

theorem refl (c : Conn) : Ends c c := ⟨rfl, rfl, rfl, rfl, fun _ => .inl rfl⟩

theorem trans (h : Ends c c') (h' : Ends c' c'') : Ends c c'' := by
  refine ⟨h'.plugins.trans h.plugins, h'.queue.trans h.queue, h'.inflight.trans h.inflight,
    h'.nextTask.trans h.nextTask, fun u => ?_⟩
  rcases h'.tasks u with hu' | ⟨hperf', hu'⟩
  · rw [hu']
    exact h.tasks u
  · right
    rw [hu']
    rcases h.tasks u with hu | ⟨hperf, hu⟩
    · rw [hu] at hperf' ⊢
      exact ⟨hperf', rfl⟩
    · rw [hu]
      exact ⟨hperf, rfl⟩

theorem same (h : Ends c c') (u : TaskId) : (c'.tasks u).hasPerf = (c.tasks u).hasPerf ∧
    (c'.tasks u).hasStates = (c.tasks u).hasStates ∧
    (c'.tasks u).settled = (c.tasks u).settled := by
  rcases h.tasks u with hu | ⟨-, hu⟩ <;> rw [hu] <;> exact ⟨rfl, rfl, rfl⟩

/-- A task that has ended stays so. -/
theorem mono (h : Ends c c') {u : TaskId} (hu : (c.tasks u).instrDone = true) :
    (c'.tasks u).instrDone = true := by
  rcases h.tasks u with hu' | ⟨-, hu'⟩
  · rw [hu', hu]
  · rw [hu']

theorem fireEnd (c : Conn) (t : TaskId) (hasFailed : Bool) : Ends c (c.fireEnd t hasFailed) := by
  rw [Conn.fireEnd]
  split
  next hfires =>
    refine ⟨rfl, rfl, rfl, rfl, fun u => ?_⟩
    by_cases hu : u = t
    · subst hu
      rw [Conn.tasks_modify_self]
      exact .inr ⟨(Bool.and_eq_true_iff.mp hfires).1, rfl⟩
    · rw [Conn.tasks_modify_of_ne hu]
      exact .inl rfl
  next => exact refl c

end Ends

theorem fireEnd_done (c : Conn) {t : TaskId} (hasFailed : Bool)
    (hperf : (c.tasks t).hasPerf = true) : ((c.fireEnd t hasFailed).tasks t).instrDone = true := by
  rw [Conn.fireEnd]
  split
  next => rw [Conn.tasks_modify_self]
  next hno =>
    rw [hperf, Bool.true_and] at hno
    exact (Bool.not_eq_false _).mp fun hfalse => hno (by rw [hfalse]; rfl)

theorem fireStart_same (c : Conn) (t : TaskId) : (c.fireStart t none).plugins = c.plugins ∧
    (c.fireStart t none).queue = c.queue ∧ (c.fireStart t none).inflight = c.inflight ∧
    (c.fireStart t none).nextTask = c.nextTask := by
  rw [Conn.fireStart]
  split <;> exact ⟨rfl, rfl, rfl, rfl⟩

theorem fireStart_tasks (c : Conn) (t u : TaskId) :
    (c.fireStart t none).tasks u = c.tasks u ∨
      u = t ∧ (c.fireStart t none).tasks u = { c.tasks u with hasStates := true } := by
  rw [Conn.fireStart]
  split
  next =>
    by_cases hu : u = t
    · subst hu
      exact .inr ⟨rfl, Conn.tasks_modify_self ..⟩
    · exact .inl (Conn.tasks_modify_of_ne hu)
  next => exact .inl rfl

theorem fireStart_states (c : Conn) {t : TaskId} (hperf : (c.tasks t).hasPerf = true)
    (hplugins : c.plugins ≠ 0) : ((c.fireStart t none).tasks t).hasStates = true := by
  rw [Conn.fireStart]
  split
  next => rw [Conn.tasks_modify_self]
  next hno =>
    rw [Conn.firesStart, hperf, decide_eq_true hplugins, Bool.true_and, Bool.true_and] at hno
    exact (Bool.not_eq_false _).mp fun hfalse => hno (by rw [hfalse]; rfl)

/-- **Every task of a list ends.** -/
theorem endAll (l : List TaskId) : ∀ {c : Conn}, Told c →
    (∀ t ∈ l, (c.tasks t).hasPerf = true → c.plugins ≠ 0 → (c.tasks t).hasStates = true) →
    Told (l.foldl (fun c t => if (c.tasks t).settled then c else c.fireEnd t true) c) ∧
      Ends c (l.foldl (fun c t => if (c.tasks t).settled then c else c.fireEnd t true) c) ∧
      ∀ t ∈ l, (c.tasks t).hasPerf = true → (c.tasks t).settled = false →
        ((l.foldl (fun c t => if (c.tasks t).settled then c else c.fireEnd t true) c).tasks
          t).instrDone = true := by
  induction l with
  | nil => exact fun h _ => ⟨h, Ends.refl _, fun t ht => absurd ht List.not_mem_nil⟩
  | cons t l ih =>
    intro c h hbegun
    have hhead : Told (if (c.tasks t).settled then c else c.fireEnd t true) ∧
        Ends c (if (c.tasks t).settled then c else c.fireEnd t true) := by
      split
      next => exact ⟨h, Ends.refl c⟩
      next => exact ⟨h.fireEnd true (hbegun t List.mem_cons_self), Ends.fireEnd c t true⟩
    obtain ⟨htold, hends⟩ := hhead
    have hrest := ih htold fun u hu => by
      rw [(hends.same u).1, (hends.same u).2.1, hends.plugins]
      exact hbegun u (List.mem_cons_of_mem t hu)
    rw [List.foldl_cons]
    refine ⟨hrest.1, hends.trans hrest.2.1, fun u hu hperf hopen => ?_⟩
    rcases List.mem_cons.mp hu with rfl | hu
    · apply hrest.2.1.mono
      rw [if_neg (by rw [hopen]; exact Bool.false_ne_true)]
      exact fireEnd_done c true hperf
    · exact hrest.2.2 u hu (by rw [(hends.same u).1, hperf]) (by rw [(hends.same u).2.2, hopen])

/-- What a plugin got follows from the task, and a task that was started and has not ended waits or
runs. -/
structure Pending (c : Conn) : Prop where
  told : Told c
  pending : ∀ t, (c.tasks t).hasStates = true → (c.tasks t).instrDone = false →
    t ∈ c.queue ∨ t ∈ c.inflight
  running : ∀ t ∈ c.inflight, (c.tasks t).hasPerf = true → c.plugins ≠ 0 →
    (c.tasks t).hasStates = true
  closing : ∀ t ∈ c.inflight, (c.tasks t).settled = true → (c.tasks t).hasPerf = true →
    (c.tasks t).instrDone = true
  waiting : ∀ t ∈ c.queue, (c.tasks t).settled = false
  nodup : (c.queue ++ c.inflight).Nodup
  known : ∀ t ∈ c.queue ++ c.inflight, t < c.nextTask
  fresh : ∀ t, c.nextTask ≤ t → c.tasks t = {}

namespace Pending

variable {c : Conn}

theorem paired (h : Pending c) : Paired c := by
  intro t p
  rcases Nat.lt_or_ge p c.plugins with hp | hp
  · have hgot := h.told.got t p hp
    rw [Task.Got] at hgot
    split at hgot
    next hstates =>
      split at hgot
      next => exact .inr (.inr hgot)
      next hopen =>
        exact .inr (.inl ⟨hgot, h.pending t hstates ((Bool.not_eq_true _).mp hopen)⟩)
    next => exact .inl hgot
  · exact .inl (h.told.beyond t p hp)

theorem submit (h : Pending c) (isStream metrics : Bool) : Pending (c.submit isStream metrics) := by
  have hfresh : c.tasks c.nextTask = {} := h.fresh c.nextTask (Nat.le_refl _)
  have hnew : (c.submit isStream metrics).tasks c.nextTask =
      { hasPerf := !isStream && (c.plugins ≠ 0 || metrics) } := Function.update_self ..
  have hother : ∀ u, u ≠ c.nextTask → (c.submit isStream metrics).tasks u = c.tasks u :=
    fun u hu => Function.update_of_ne hu ..
  have hnot : ∀ u ∈ c.queue ++ c.inflight, u ≠ c.nextTask := fun u hu => Nat.ne_of_lt (h.known u hu)
  have htold : Told (c.modify c.nextTask
      fun _ => { hasPerf := !isStream && (c.plugins ≠ 0 || metrics) }) := by
    apply h.told.modify <;> rw [hfresh]
    exact fun hperf => nomatch hperf
  refine ⟨⟨htold.got, htold.beyond, htold.begun, htold.perf⟩, fun u hu hopen => ?_,
    fun u hu => ?_, fun u hu => ?_, fun u hu => ?_, ?_, fun u hu => ?_, fun u hu => ?_⟩
  · by_cases heq : u = c.nextTask
    · exact .inl (List.mem_append_right _ (List.mem_singleton.mpr heq))
    · rw [hother u heq] at hu hopen
      exact (h.pending u hu hopen).imp_left (List.mem_append_left _)
  · rw [hother u (hnot u (List.mem_append_right _ hu))]
    exact h.running u hu
  · rw [hother u (hnot u (List.mem_append_right _ hu))]
    exact h.closing u hu
  · rcases List.mem_append.mp hu with hu | hu
    · rw [hother u (hnot u (List.mem_append_left _ hu))]
      exact h.waiting u hu
    · rw [List.mem_singleton.mp hu, hnew]
  · have hperm : (c.queue ++ [c.nextTask] ++ c.inflight).Perm
        (c.nextTask :: (c.queue ++ c.inflight)) := by
      rw [List.append_assoc]
      exact List.perm_middle
    refine hperm.nodup_iff.mpr (List.nodup_cons.mpr ⟨fun hmem => hnot _ hmem rfl, h.nodup⟩)
  · have hu : u ∈ c.queue ++ [c.nextTask] ++ c.inflight := hu
    show u < c.nextTask + 1
    simp only [List.mem_append, List.mem_singleton] at hu
    rcases hu with (hu | hu) | hu
    · exact Nat.lt_succ_of_lt (h.known u (List.mem_append_left _ hu))
    · rw [hu]
      exact Nat.lt_succ_self _
    · exact Nat.lt_succ_of_lt (h.known u (List.mem_append_right _ hu))
  · have hu : c.nextTask + 1 ≤ u := hu
    rw [hother u (Nat.ne_of_gt hu)]
    exact h.fresh u (Nat.le_of_succ_le hu)

/-- The tasks that are left in the queue, when some have left it that were never started. -/
theorem dropped (h : Pending c) {queue : List TaskId} (hsub : queue.Sublist c.queue)
    (hleft : ∀ t ∈ c.queue, t ∉ queue → (c.tasks t).hasStates = false) :
    Pending { c with queue := queue } := by
  refine ⟨⟨h.told.got, h.told.beyond, h.told.begun, h.told.perf⟩, fun t ht hopen => ?_, h.running,
    h.closing, fun t ht => h.waiting t (hsub.subset ht), ?_, fun t ht => h.known t ?_, h.fresh⟩
  · rcases h.pending t ht hopen with hq | hi
    · by_cases hmem : t ∈ queue
      · exact .inl hmem
      · have hno := hleft t hq hmem
        rw [ht] at hno
        cases hno
    · exact .inr hi
  · exact h.nodup.sublist (hsub.append_right c.inflight)
  · exact (hsub.append_right c.inflight).subset ht

/-- **A task is sent**, and its hooks are called if they were not before. -/
theorem sent (h : Pending c) {t : TaskId} {rest : List TaskId} (hqueue : c.queue = t :: rest) :
    Pending ({ c with queue := rest, inflight := c.inflight ++ [t] }.fireStart t none) := by
  have htold : Told { c with queue := rest, inflight := c.inflight ++ [t] } :=
    ⟨h.told.got, h.told.beyond, h.told.begun, h.told.perf⟩
  have hstarted := htold.fireStart t
  obtain ⟨hplugins, hrest, hinflight, hnext⟩ :=
    fireStart_same { c with queue := rest, inflight := c.inflight ++ [t] } t
  have htasks := fireStart_tasks { c with queue := rest, inflight := c.inflight ++ [t] } t
  have hstates := fireStart_states { c with queue := rest, inflight := c.inflight ++ [t] } (t := t)
  generalize Conn.fireStart { c with queue := rest, inflight := c.inflight ++ [t] } t none = d
    at hstarted hplugins hrest hinflight hnext htasks hstates ⊢
  dsimp only at hplugins hrest hinflight hnext htasks hstates
  have hsame : ∀ u, (d.tasks u).hasPerf = (c.tasks u).hasPerf ∧
      (d.tasks u).instrDone = (c.tasks u).instrDone ∧
      (d.tasks u).settled = (c.tasks u).settled := by
    intro u
    rcases htasks u with hu | ⟨-, hu⟩ <;> rw [hu] <;> exact ⟨rfl, rfl, rfl⟩
  have hmem : ∀ {u}, u ∈ c.queue ++ c.inflight ↔ u ∈ rest ++ (c.inflight ++ [t]) := by
    intro u
    rw [hqueue]
    simp only [List.mem_append, List.mem_cons, List.not_mem_nil, or_false]
    tauto
  refine ⟨hstarted, fun u hu hopen => ?_, fun u hu hperf hne => ?_, fun u hu hsettled hperf => ?_,
    fun u hu => ?_, ?_, fun u hu => ?_, fun u hu => ?_⟩
  · rw [hrest, hinflight]
    rcases htasks u with heq | ⟨rfl, -⟩
    · rw [heq] at hu hopen
      exact List.mem_append.mp (hmem.mp (List.mem_append.mpr (h.pending u hu hopen)))
    · exact .inr (List.mem_append_right _ List.mem_cons_self)
  · rw [hplugins] at hne
    rw [hinflight] at hu
    rw [(hsame u).1] at hperf
    rcases List.mem_append.mp hu with hu | hu
    · rcases htasks u with heq | ⟨-, heq⟩
      · rw [heq]
        exact h.running u hu hperf hne
      · rw [heq]
    · rw [List.mem_singleton.mp hu] at hperf ⊢
      exact hstates hperf hne
  · rw [(hsame u).2.1]
    rw [(hsame u).2.2] at hsettled
    rw [(hsame u).1] at hperf
    rw [hinflight] at hu
    rcases List.mem_append.mp hu with hu | hu
    · exact h.closing u hu hsettled hperf
    · have hopen := h.waiting t (hqueue ▸ List.mem_cons_self)
      rw [List.mem_singleton.mp hu, hopen] at hsettled
      cases hsettled
  · rw [(hsame u).2.2]
    rw [hrest] at hu
    exact h.waiting u (hqueue ▸ List.mem_cons_of_mem t hu)
  · rw [hrest, hinflight]
    have hnodup := h.nodup
    rw [hqueue, List.cons_append] at hnodup
    refine List.Perm.nodup ?_ hnodup
    rw [← List.append_assoc]
    exact (List.perm_append_singleton t (rest ++ c.inflight)).symm
  · rw [hnext]
    rw [hrest, hinflight] at hu
    exact h.known u (hmem.mpr hu)
  · rw [hnext] at hu
    have hne : u ≠ t := by
      rintro rfl
      exact Nat.not_lt.mpr hu (h.known u (hqueue ▸ List.mem_cons_self))
    rcases htasks u with heq | ⟨heq, -⟩
    · rw [heq]
      exact h.fresh u hu
    · exact absurd heq hne

/-- **The head leaves the pipeline** once its end was called. -/
theorem finished (h : Pending c) {t : TaskId} {rest : List TaskId}
    (hinflight : c.inflight = t :: rest)
    (hdone : (c.tasks t).hasPerf = true → (c.tasks t).instrDone = true) :
    Pending { c with inflight := rest } := by
  have hsub : rest.Sublist c.inflight := hinflight ▸ List.sublist_cons_self t rest
  refine ⟨⟨h.told.got, h.told.beyond, h.told.begun, h.told.perf⟩, fun u hu hopen => ?_,
    fun u hu => h.running u (hsub.subset hu), fun u hu => h.closing u (hsub.subset hu), h.waiting,
    h.nodup.sublist (hsub.append_left c.queue), fun u hu => h.known u ?_, h.fresh⟩
  · rcases h.pending u hu hopen with hq | hi
    · exact .inl hq
    · rw [hinflight] at hi
      rcases List.mem_cons.mp hi with rfl | hi
      · have hended := hdone (h.told.perf u hu)
        rw [hopen] at hended
        cases hended
      · exact .inr hi
  · exact (hsub.append_left c.queue).subset hu

/-- Tasks in flight end. -/
theorem of_ends {c' : Conn} (h : Pending c) (htold : Told c') (hends : Ends c c') : Pending c' := by
  refine ⟨htold, fun u hu hopen => ?_, fun u hu => ?_,
    fun u hu hsettled hperf => ?_, fun u hu => ?_, ?_, fun u hu => ?_, fun u hu => ?_⟩
  · rw [hends.queue, hends.inflight]
    refine h.pending u ((hends.same u).2.1 ▸ hu) ?_
    by_contra hdone
    rw [hends.mono ((Bool.not_eq_false _).mp hdone)] at hopen
    cases hopen
  · rw [(hends.same u).1, (hends.same u).2.1, hends.plugins]
    exact h.running u (hends.inflight ▸ hu)
  · apply hends.mono
    exact h.closing u (hends.inflight ▸ hu) ((hends.same u).2.2 ▸ hsettled)
      ((hends.same u).1 ▸ hperf)
  · rw [(hends.same u).2.2]
    exact h.waiting u (hends.queue ▸ hu)
  · rw [hends.queue, hends.inflight]
    exact h.nodup
  · rw [hends.nextTask]
    rw [hends.queue, hends.inflight] at hu
    exact h.known u hu
  · rw [hends.nextTask] at hu
    have hfresh := h.fresh u hu
    rcases hends.tasks u with heq | ⟨hperf, -⟩
    · rw [heq, hfresh]
    · rw [hfresh] at hperf
      cases hperf

theorem fireEnd (h : Pending c) {t : TaskId} (ht : t ∈ c.inflight) (hasFailed : Bool) :
    Pending (c.fireEnd t hasFailed) :=
  h.of_ends (h.told.fireEnd hasFailed (h.running t ht)) (Ends.fireEnd c t hasFailed)

/-- **The connection gives up what is in flight.** -/
theorem rejectInflight (h : Pending c) : Pending c.rejectInflight ∧
    c.rejectInflight.queue = c.queue ∧
    ∀ t, (c.rejectInflight.tasks t).hasStates = (c.tasks t).hasStates := by
  obtain ⟨htold, hends, hall⟩ := endAll c.inflight h.told h.running
  have hmid := h.of_ends htold hends
  rw [Conn.rejectInflight]
  generalize List.foldl (fun c t => if (Conn.tasks c t).settled then c else c.fireEnd t true) c
    c.inflight = d at htold hends hall hmid ⊢
  refine ⟨⟨⟨htold.got, htold.beyond, htold.begun, htold.perf⟩, fun t ht hopen => ?_,
    fun _ ht => absurd ht List.not_mem_nil, fun _ ht => absurd ht List.not_mem_nil, hmid.waiting,
    ?_, fun t ht => ?_, hmid.fresh⟩, hends.queue, fun t => (hends.same t).2.1⟩
  · rcases hmid.pending t ht hopen with hq | hi
    · exact .inl hq
    · -- it was in flight, so it has ended
      have hperf := htold.perf t ht
      have hended : (d.tasks t).instrDone = true := by
        cases hsettled : (d.tasks t).settled with
        | true => exact hmid.closing t hi hsettled hperf
        | false =>
          exact hall t (hends.inflight ▸ hi) ((hends.same t).1 ▸ hperf)
            ((hends.same t).2.2 ▸ hsettled)
      have hopen : (d.tasks t).instrDone = false := hopen
      rw [hended] at hopen
      cases hopen
  · exact hmid.nodup.sublist ((List.nil_sublist d.inflight).append_left d.queue)
  · exact hmid.known t (((List.nil_sublist d.inflight).append_left d.queue).subset ht)

theorem rejectQueue (h : Pending c) (hnone : ∀ t ∈ c.queue, (c.tasks t).hasStates = false) :
    Pending c.rejectQueue :=
  h.dropped (List.nil_sublist c.queue) fun t ht _ => hnone t ht

theorem with_state (h : Pending c) (state : State) : Pending { c with state := state } :=
  ⟨⟨h.told.got, h.told.beyond, h.told.begun, h.told.perf⟩, h.pending, h.running, h.closing,
    h.waiting, h.nodup, h.known, h.fresh⟩

theorem rejectAll (h : Pending c) (hnone : ∀ t ∈ c.queue, (c.tasks t).hasStates = false) :
    Pending c.settlePending := by
  obtain ⟨hrejected, hqueue, hstates⟩ := h.rejectInflight
  refine (hrejected.rejectQueue fun t ht => ?_).with_state .closed
  rw [hstates]
  exact hnone t (hqueue ▸ ht)

/-! ### Steps -/

/-- The caller of a task was answered. -/
theorem settle (h : Pending c) {t : TaskId} (hknown : t < c.nextTask) (hqueue : t ∉ c.queue)
    (hdone : t ∈ c.inflight → (c.tasks t).hasPerf = true → (c.tasks t).instrDone = true) :
    Pending (c.modify t fun u => { u with settled := true }) := by
  have hsame : ∀ u, ((c.modify t fun u => { u with settled := true }).tasks u).hasPerf =
        (c.tasks u).hasPerf ∧
      ((c.modify t fun u => { u with settled := true }).tasks u).hasStates =
        (c.tasks u).hasStates ∧
      ((c.modify t fun u => { u with settled := true }).tasks u).instrDone =
        (c.tasks u).instrDone := by
    intro u
    by_cases hu : u = t
    · subst hu
      rw [Conn.tasks_modify_self]
      exact ⟨rfl, rfl, rfl⟩
    · rw [Conn.tasks_modify_of_ne hu]
      exact ⟨rfl, rfl, rfl⟩
  refine ⟨h.told.modify rfl rfl id, fun u => ?_, fun u => ?_, fun u hu hsettled hperf => ?_,
    fun u hu => ?_, h.nodup, h.known, fun u hu => ?_⟩
  · rw [(hsame u).2.1, (hsame u).2.2]
    exact h.pending u
  · rw [(hsame u).1, (hsame u).2.1]
    exact h.running u
  · rw [(hsame u).2.2]
    rw [(hsame u).1] at hperf
    by_cases heq : u = t
    · rw [heq] at hu hperf ⊢
      exact hdone hu hperf
    · rw [Conn.tasks_modify_of_ne heq] at hsettled
      exact h.closing u hu hsettled hperf
  · have hne : u ≠ t := fun heq => hqueue (heq ▸ hu)
    rw [Conn.tasks_modify_of_ne hne]
    exact h.waiting u hu
  · have hu : c.nextTask ≤ u := hu
    rw [Conn.tasks_modify_of_ne (Nat.ne_of_gt (Nat.lt_of_lt_of_le hknown hu))]
    exact h.fresh u hu

/-- **The task runs again**: it waits at the end of the queue. -/
theorem retried (h : Pending c) {t : TaskId} {rest : List TaskId}
    (hinflight : c.inflight = t :: rest) (hopen : (c.tasks t).settled = false) :
    Pending { c.modify t (fun u => { u with retries := u.retries + 1 }) with
      inflight := rest
      queue := c.queue ++ [t] } := by
  have hsame : ∀ u, ∃ n, (c.modify t fun u => { u with retries := u.retries + 1 }).tasks u =
      { c.tasks u with retries := n } := by
    intro u
    by_cases hu : u = t
    · subst hu
      exact ⟨_, Conn.tasks_modify_self ..⟩
    · exact ⟨_, Conn.tasks_modify_of_ne hu⟩
  have htold : Told (c.modify t fun u => { u with retries := u.retries + 1 }) :=
    h.told.modify rfl rfl id
  have hlist : c.queue ++ [t] ++ rest = c.queue ++ c.inflight := by
    rw [hinflight, List.append_assoc]
    rfl
  refine ⟨⟨htold.got, htold.beyond, htold.begun, htold.perf⟩, fun u => ?_, fun u hu => ?_,
    fun u hu => ?_, fun u hu => ?_, hlist ▸ h.nodup, fun u hu => h.known u (hlist ▸ hu),
    fun u hu => ?_⟩
  · obtain ⟨n, heq⟩ := hsame u
    dsimp only
    rw [heq]
    intro hstates hdone
    have hmem : u ∈ c.queue ++ [t] ++ rest :=
      hlist ▸ List.mem_append.mpr (h.pending u hstates hdone)
    exact List.mem_append.mp hmem
  · obtain ⟨n, heq⟩ := hsame u
    dsimp only
    rw [heq]
    exact h.running u (hinflight ▸ List.mem_cons_of_mem t hu)
  · obtain ⟨n, heq⟩ := hsame u
    dsimp only
    rw [heq]
    exact h.closing u (hinflight ▸ List.mem_cons_of_mem t hu)
  · obtain ⟨n, heq⟩ := hsame u
    dsimp only
    rw [heq]
    rcases List.mem_append.mp hu with hu | hu
    · exact h.waiting u hu
    · rw [List.mem_singleton.mp hu]
      exact hopen
  · have hu : c.nextTask ≤ u := hu
    have hknown : t < c.nextTask :=
      h.known t (List.mem_append_right _ (hinflight ▸ List.mem_cons_self))
    have hne : u ≠ t := Nat.ne_of_gt (Nat.lt_of_lt_of_le hknown hu)
    exact (Conn.tasks_modify_of_ne (f := fun u => { u with retries := u.retries + 1 }) hne).trans
      (h.fresh u hu)

/-- **The end of a cycle**: the task runs again, or it has ended. -/
theorem finishTask (h : Pending c) (reply : Conn.Reply) : Pending (c.finishTask reply) := by
  rw [Conn.finishTask]
  cases hinflight : c.inflight with
  | nil => exact h
  | cons t rest =>
    have ht : t ∈ c.inflight := hinflight ▸ List.mem_cons_self
    dsimp only
    split
    next hretry => exact h.retried hinflight hretry.2.1
    next =>
      split
      next hsettled => exact h.finished hinflight (h.closing t ht hsettled)
      next =>
        have hcomm : Conn.fireEnd { c with inflight := rest } t (reply ≠ Conn.Reply.completed) =
            { c.fireEnd t (reply ≠ Conn.Reply.completed) with inflight := rest } := by
          rw [Conn.fireEnd, Conn.fireEnd]
          split <;> rfl
        have hends := Ends.fireEnd c t (reply ≠ Conn.Reply.completed)
        rw [hcomm]
        refine (h.fireEnd ht _).finished (hends.inflight.trans hinflight) fun hperf => ?_
        exact fireEnd_done c _ ((hends.same t).1 ▸ hperf)

/-- **A task is cancelled** in flight, or in the queue before it was ever sent. -/
theorem cancelTask (h : Pending c) {t : TaskId} (hknown : t < c.nextTask)
    (hsound : t ∈ c.queue → (c.tasks t).hasStates = false) : Pending (c.cancelTask t) := by
  have hnodup := List.nodup_append.mp h.nodup
  rw [Conn.cancelTask]
  split
  next => exact h
  next =>
    dsimp only
    split
    next ht =>
      have ht : t ∈ c.inflight := ht
      have hends := Ends.fireEnd c t true
      have hcomm : (c.modify t fun u => { u with settled := true }).fireEnd t true =
          (c.fireEnd t true).modify t fun u => { u with settled := true } := by
        rw [Conn.fireEnd, Conn.fireEnd, Conn.tasks_modify_self]
        dsimp only
        split
        next => simp [Conn.modify, Conn.call, Function.update_idem]
        next => rfl
      rw [hcomm]
      refine (h.fireEnd ht true).settle (hends.nextTask ▸ hknown) ?_ fun _ hperf => ?_
      · rw [hends.queue]
        exact fun hq => hnodup.2.2 t hq t ht rfl
      · exact fireEnd_done c true ((hends.same t).1 ▸ hperf)
    next ht =>
      have ht : t ∉ c.inflight := ht
      have hdropped : Pending { c with queue := c.queue.erase t } := by
        refine h.dropped List.erase_sublist fun u hu hno => ?_
        by_cases heq : u = t
        · exact heq ▸ hsound (heq ▸ hu)
        · exact absurd ((List.mem_erase_of_ne heq).mpr hu) hno
      exact hdropped.settle hknown hnodup.1.not_mem_erase fun hmem => absurd hmem ht

/-- **A step** keeps the pairing if it loses no task that was started. -/
theorem step (h : Pending c) {e : Event} (he : machine.enabled c e = true) (hsound : Sound c e) :
    Pending (machine.step c e) := by
  cases e with
  | submit isStream metrics => exact h.submit isStream metrics
  | start outcome =>
    show Pending (c.startTask outcome)
    rw [Conn.startTask]
    cases hqueue : c.queue with
    | nil => exact h
    | cons t rest =>
      cases outcome with
      | rejected =>
        refine h.dropped (hqueue ▸ List.sublist_cons_self t rest) fun u hu hno => ?_
        rw [hqueue] at hu
        rcases List.mem_cons.mp hu with rfl | hu
        · exact hsound u (by rw [hqueue]; rfl)
        · exact absurd hu hno
      | sent thrower =>
        have hthrower := hsound t (by rw [hqueue]; rfl)
        have hsent := h.sent hqueue
        by_cases hfires : c.firesStart t = true
        · rw [hthrower hfires]
          exact hsent
        · have hno : ¬ Conn.firesStart
              { c with queue := rest, inflight := c.inflight ++ [t] } t = true := hfires
          rw [Conn.fireStart, if_neg hno] at hsent
          show Pending (Conn.fireStart _ t thrower)
          rw [Conn.fireStart.eq_def, if_neg hno]
          exact hsent
  | finish reply => exact h.finishTask reply
  | cancel t => exact h.cancelTask (of_decide_eq_true he) hsound
  | connected => exact h.with_state .ready
  | giveUp => exact (h.rejectQueue hsound).with_state .closed
  | socketDown reconnects =>
    show Pending (c.onSocketDown reconnects)
    rw [Conn.onSocketDown]
    cases reconnects with
    | true => exact h.rejectInflight.1.with_state .reconnecting
    | false => exact h.rejectAll hsound
  | stop => exact h.rejectAll hsound

end Pending

/-! ### Runs -/

theorem start_pending (n : Nat) : Pending { plugins := n } := by
  refine ⟨⟨fun t p _ => rfl, fun _ _ _ => rfl, nofun, nofun⟩, nofun, ?_, ?_, ?_, List.nodup_nil, ?_,
    fun _ _ => rfl⟩
  · exact fun t ht => absurd ht List.not_mem_nil
  · exact fun t ht => absurd ht List.not_mem_nil
  · exact fun t ht => absurd ht List.not_mem_nil
  · exact fun t ht => absurd ht List.not_mem_nil

/-- **Hooks are paired** in every run in which no `onQueryStart` throws and no task that was started
leaves the queue but to be sent again. -/
theorem hooks_paired {c : Conn} (h : machine.Reach Sound Start c) : Paired c := by
  refine Pending.paired (h.invariant (I := Pending) ?_ fun c e hc he hok => hc.step he hok)
  rintro c ⟨n, rfl⟩
  exact start_pending n

/-- A statement that became invalid runs again behind another one. -/
def retrying : List Event :=
  [.connected, .submit false false, .submit false false, .start (.sent none), .finish .stale,
    .start (.sent none), .finish .completed, .start (.sent none), .finish .failed]

theorem hooks_paired_retrying : Paired (machine.exec { plugins := 2 } retrying) := by
  have hstart : machine.Reach Sound Start { plugins := 2 } := .start ⟨2, rfl⟩
  have hruns : machine.Runs Sound { plugins := 2 } retrying := by decide +kernel
  exact hooks_paired (hstart.exec hruns)

/-- The statement that waits to run again is aborted. -/
def leaking : List Event :=
  [.connected, .submit false false, .submit false false, .start (.sent none), .finish .stale,
    .start (.sent none), .cancel 0]

theorem start_leaked : ¬ ∀ c, machine.Reach Machine.Free Start c → Paired c := by
  intro h
  have hstart : machine.Reach Machine.Free Start { plugins := 1 } := .start ⟨1, rfl⟩
  have hruns : machine.Runs Machine.Free { plugins := 1 } leaking := by decide +kernel
  have hpaired := h _ (hstart.exec hruns) 0 0
  revert hpaired
  decide +kernel

end Minipg.Hooks
