import Minipg.Connection.Attribution
import Minipg.Lib.Repeats
import Mathlib.Data.List.Nodup
import Mathlib.Logic.Relation

/-!
# The roster of statements

What a server makes of transactions can be read off the ledger: a ReadyForQuery ends the
run of the oldest statement in flight, and its status says whether the session is in a
transaction block then (`Trace`).  A statement whose run failed because it was invalidated
may join the queue again, once; `Turn` lists what else happens to the roster of statements.

`Orderly` is the invariant.  A statement that waits for its second run finds the session idle
as long as no statement that was started in between has opened a block: what is in flight
when it joins the queue again was started after its first run.
-/

namespace Minipg

/-- The status of a session in a transaction block, failed or not. -/
def isInBlock (status : Char) : Bool := status == 'T' || status == 'E'

/-- What one ReadyForQuery says: the statement whose run it ends, the number of that run, the
status of the session before and after, and what the statement has heard. -/
structure Ready where
  task : Option TaskId
  run : Nat
  before : Char
  after : Char
  heard : List BackendMsg

namespace Ready

/-- The run took the session into a transaction block. -/
def opens (y : Ready) : Bool := !isInBlock y.before && isInBlock y.after

/-- The run took the session out of its transaction block. -/
def closes (y : Ready) : Bool := isInBlock y.before && !isInBlock y.after

end Ready

/-- The pipeline, the status of the session, the starts and what the ReadyForQuerys said. -/
structure Trace where
  pipe : Fifo TaskId BackendMsg := ⟨[], fun _ => []⟩
  status : Char := 'I'
  started : List TaskId := []
  readies : List Ready := []

namespace Trace

/-- How often a statement was started. -/
def runs (r : Trace) (t : TaskId) : Nat := r.started.count t

/-- What a ReadyForQuery says now. -/
def ready (r : Trace) (status : Option Char) : Ready where
  task := r.pipe.waiting.head?
  run := (r.pipe.waiting.head?.map r.runs).getD 0
  before := r.status
  after := status.getD 'I'
  heard := (r.pipe.waiting.head?.map fun t =>
    r.pipe.heard t ++ [BackendMsg.readyForQuery status]).getD []

def step (r : Trace) (e : Entry) : Trace :=
  let r' := { r with pipe := r.pipe.step BackendMsg.isReady e }
  match e with
  | .start t => { r' with started := r.started ++ [t] }
  | .reply (.readyForQuery status) =>
    { r' with status := status.getD 'I', readies := r.readies ++ [r.ready status] }
  | _ => r'

/-- The statements started between the two runs of `t`, or since its only one. -/
def between (r : Trace) (t : TaskId) : List TaskId := Repeats.between t r.started

/-- No statement that was started since the first run of `t` has opened a block. -/
def Calm (r : Trace) (t : TaskId) : Prop :=
  ∀ y ∈ r.readies, y.opens = true → ∃ u, y.task = some u ∧ u ∉ r.between t

/-- **No block is opened between two runs**: only a statement opens a block, and none that was
started between the two runs of another. -/
def Apart (r : Trace) : Prop :=
  ∀ y ∈ r.readies, y.opens = true →
    ∃ u, y.task = some u ∧ ∀ t ∈ r.started, 1 < r.runs t → u ∉ r.between t

end Trace

/-- What a ledger says. -/
def trace (log : List Entry) : Trace := log.foldl Trace.step {}

/-- An error that invalidates the statement was among the replies, or was raised over them. -/
def Invalidated (cfg : Config) (heard : List BackendMsg) : Prop :=
  ∃ e, (.errorResponse e ∈ heard ∨ IsLocalError cfg heard e) ∧
    (e.code = some "0A000" ∨ e.code = some "26000")

/-- **No run ends its block by failing so**, of the statements that may be run again. -/
def Trace.Closing (cfg : Config) (mayRerun : TaskId → Prop) (r : Trace) : Prop :=
  ∀ y ∈ r.readies, y.closes = true → ∀ t, y.task = some t → mayRerun t →
    ¬ Invalidated cfg y.heard

/-- **A second run keeps to its context**: it never happens within a block, and a statement
that ran within one is not run again. -/
structure Trace.KeepsContext (r : Trace) : Prop where
  again : ∀ y ∈ r.readies, 1 < y.run → isInBlock y.before = false
  once : ∀ y ∈ r.readies, isInBlock y.before = true → ∀ t, y.task = some t → r.runs t ≤ y.run

/-- The statements of a connection: those that wait to be started, those that were, and the one
in the hands of a callback. -/
structure Roster where
  trace : Trace := {}
  queue : List TaskId := []
  held : Option TaskId := none
  next : TaskId := 0

/-- What happens to the roster. -/
inductive Turn (cfg : Config) (mayRerun : TaskId → Prop) (a : Roster) : Roster → Prop
  | leave (queue : List TaskId) (hq : queue.Sublist a.queue) :
      Turn cfg mayRerun a { a with queue := queue }
  | release : Turn cfg mayRerun a { a with held := none }
  | refuse : Turn cfg mayRerun a { a with next := a.next + 1 }
  | create (hh : a.held = none) :
      Turn cfg mayRerun a { a with held := some a.next, next := a.next + 1 }
  | enqueue (t : TaskId) (hh : a.held = some t) (hf : a.trace.pipe.heard t = []) :
      Turn cfg mayRerun a { a with queue := a.queue ++ [t], held := none }
  | requeue (t : TaskId) (hh : a.held = some t) (hm : mayRerun t) (hr : a.trace.runs t ≤ 1)
      (hs : isInBlock a.trace.status = false) (hi : Invalidated cfg (a.trace.pipe.heard t)) :
      Turn cfg mayRerun a { a with queue := a.queue ++ [t], held := none }
  | start (t : TaskId) (rest : List TaskId) (hq : a.queue = t :: rest) :
      Turn cfg mayRerun a { a with trace := a.trace.step (.start t), queue := rest }
  | drop : Turn cfg mayRerun a { a with trace := a.trace.step .drop }
  | hear (m : BackendMsg) (hm : m.isReady = false) :
      Turn cfg mayRerun a { a with trace := a.trace.step (.reply m) }
  | ready (status : Option Char) (hh : a.held = none) :
      Turn cfg mayRerun a { a with
        trace := a.trace.step (.reply (.readyForQuery status))
        held := a.trace.pipe.waiting.head? }

/-- Where everyone is, and what a second run relies on. -/
structure Orderly (a : Roster) : Prop where
  suffix : a.trace.pipe.waiting <:+ a.trace.started
  nodup : (a.held.toList ++ a.trace.pipe.waiting ++ a.queue).Nodup
  fresh : ∀ t, t ∈ a.held ∨ t ∈ a.trace.started ∨ t ∈ a.queue → t < a.next
  twice : ∀ t, a.trace.runs t ≤ 2
  queued : ∀ t ∈ a.queue, a.trace.runs t ≤ 1
  held : ∀ t ∈ a.held, a.trace.runs t = 0 ∨ a.trace.pipe.heard t ≠ []
  ran : ∀ y ∈ a.trace.readies, ∀ t ∈ y.task, 1 ≤ y.run ∧ y.run ≤ a.trace.runs t
  pending : ∀ y ∈ a.trace.readies, ∀ t ∈ y.task, t ∈ a.trace.pipe.waiting →
    y.run < a.trace.runs t
  last : ∀ y ∈ a.trace.readies, ∀ t ∈ y.task, t ∈ a.held → y.run = a.trace.runs t →
    y.after = a.trace.status ∧ y.heard = a.trace.pipe.heard t
  calm : ∀ t, t ∈ a.queue ∧ a.trace.runs t = 1 ∨
      t ∈ a.trace.pipe.waiting ∧ a.trace.runs t = 2 →
    a.trace.Calm t → isInBlock a.trace.status = false
  clean : ∀ t ∈ a.queue, ∀ y ∈ a.trace.readies, t ∈ y.task → isInBlock y.before = false
  context : a.trace.KeepsContext

/-! ### Traces -/

namespace Trace

@[simp] theorem step_pipe (r : Trace) (e : Entry) :
    (r.step e).pipe = r.pipe.step BackendMsg.isReady e := by
  cases e with
  | start | drop => rfl
  | reply m =>
    cases m with
    | _ => rfl

theorem step_hear (r : Trace) {m : BackendMsg} (hm : m.isReady = false) :
    r.step (.reply m) = { r with pipe := r.pipe.step BackendMsg.isReady (.reply m) } := by
  cases m with
  | readyForQuery => cases hm
  | _ => rfl

/-- A trace never forgets. -/
structure Grows (r r' : Trace) : Prop where
  started : r.started <+: r'.started
  readies : r.readies <+: r'.readies

theorem Grows.refl (r : Trace) : Grows r r := ⟨List.prefix_rfl, List.prefix_rfl⟩

theorem Grows.trans {r r' r'' : Trace} (h : Grows r r') (g : Grows r' r'') : Grows r r'' :=
  ⟨h.started.trans g.started, h.readies.trans g.readies⟩

theorem step_grows (r : Trace) (e : Entry) : Grows r (r.step e) := by
  cases e with
  | start t => exact ⟨List.prefix_append .., List.prefix_rfl⟩
  | drop => exact ⟨List.prefix_rfl, List.prefix_rfl⟩
  | reply m =>
    cases m with
    | readyForQuery status => exact ⟨List.prefix_rfl, List.prefix_append ..⟩
    | _ => exact ⟨List.prefix_rfl, List.prefix_rfl⟩

theorem Grows.runs {r r' : Trace} (h : Grows r r') (t : TaskId) : r.runs t ≤ r'.runs t :=
  h.started.sublist.count_le t

theorem Grows.between {r r' : Trace} (h : Grows r r') {t u : TaskId} (hu : u ∈ r.between t) :
    u ∈ r'.between t := by
  obtain ⟨l, hl⟩ := h.started
  unfold Trace.between
  rw [← hl]
  exact Repeats.mem_between_append hu l

theorem Calm.earlier {r r' : Trace} {t : TaskId} (hc : r'.Calm t) (h : Grows r r') :
    r.Calm t := by
  intro y hy ho
  obtain ⟨u, hu, hb⟩ := hc y (h.readies.subset hy) ho
  exact ⟨u, hu, fun hm => hb (h.between hm)⟩

theorem Apart.earlier {r r' : Trace} (ha : r'.Apart) (h : Grows r r') : r.Apart := by
  intro y hy ho
  obtain ⟨u, hu, hb⟩ := ha y (h.readies.subset hy) ho
  refine ⟨u, hu, fun t ht hr hm => ?_⟩
  exact hb t (h.started.subset ht) (Nat.lt_of_lt_of_le hr (h.runs t)) (h.between hm)

theorem Closing.earlier {cfg : Config} {mayRerun : TaskId → Prop} {r r' : Trace}
    (hc : r'.Closing cfg mayRerun) (h : Grows r r') : r.Closing cfg mayRerun :=
  fun y hy => hc y (h.readies.subset hy)

/-- Where no block is opened between two runs, it is calm between them. -/
theorem Apart.calm {r : Trace} (ha : r.Apart) {t : TaskId} (ht : 1 < r.runs t) : r.Calm t := by
  intro y hy ho
  obtain ⟨u, hu, hb⟩ := ha y hy ho
  have hm : t ∈ r.started := List.count_pos_iff.mp (Nat.lt_of_succ_lt ht)
  exact ⟨u, hu, hb t hm ht⟩

theorem runs_start (r : Trace) (t u : TaskId) :
    (r.step (.start t)).runs u = r.runs u + if t = u then 1 else 0 := by
  show (r.started ++ [t]).count u = _
  rw [List.count_append, List.count_singleton]
  simp [runs]

theorem trace_append_singleton (log : List Entry) (e : Entry) :
    trace (log ++ [e]) = (trace log).step e := by
  simp [trace, List.foldl_append]

/-- The pipeline of a trace is that of the ledger. -/
theorem trace_pipe (log : List Entry) :
    (trace log).pipe = Fifo.run BackendMsg.isReady log := by
  induction log using List.reverseRecOn with
  | nil => rfl
  | append_singleton log e ih =>
    rw [trace_append_singleton, step_pipe, ih, Fifo.run_append_singleton]

end Trace

/-! ### The turns -/

namespace Orderly

variable {cfg : Config} {mayRerun : TaskId → Prop} {a : Roster}

theorem start_new : Orderly {} where
  suffix := List.suffix_rfl
  nodup := List.nodup_nil
  fresh := by simp
  twice _ := Nat.zero_le _
  queued := by simp
  held := by simp
  ran := by simp
  pending := by simp
  last := by simp
  calm := by simp
  clean := by simp
  context := ⟨by simp, by simp⟩

/-- A statement in flight has been started. -/
theorem mem_started (h : Orderly a) {t : TaskId} (ht : t ∈ a.trace.pipe.waiting) :
    t ∈ a.trace.started := h.suffix.subset ht

/-- A statement that was never started ended no run. -/
theorem not_ran (h : Orderly a) {t : TaskId} (ht : a.trace.runs t = 0) {y : Ready}
    (hy : y ∈ a.trace.readies) : t ∉ y.task := by
  intro hm
  have hr := h.ran y hy t hm
  omega

theorem leave (h : Orderly a) {queue : List TaskId} (hq : queue.Sublist a.queue) :
    Orderly { a with queue := queue } :=
  { h with
    nodup := h.nodup.sublist (List.Sublist.append (.refl _) hq)
    fresh := fun t ht => h.fresh t (ht.imp_right fun ht => ht.imp_right fun ht => hq.subset ht)
    queued := fun t ht => h.queued t (hq.subset ht)
    calm := fun t ht => h.calm t (ht.imp_left fun ht => ⟨hq.subset ht.1, ht.2⟩)
    clean := fun t ht => h.clean t (hq.subset ht) }

theorem release (h : Orderly a) : Orderly { a with held := none } :=
  { h with
    nodup := h.nodup.sublist
      (List.Sublist.append (List.Sublist.append (List.nil_sublist _) (.refl _)) (.refl _))
    fresh := fun t ht => h.fresh t (ht.imp_left fun ht => by cases ht)
    held := fun t ht => by cases ht
    last := fun y _ t _ ht => by cases ht }

theorem refuse (h : Orderly a) : Orderly { a with next := a.next + 1 } :=
  { h with fresh := fun t ht => Nat.lt_succ_of_lt (h.fresh t ht) }

theorem create (h : Orderly a) (hh : a.held = none) :
    Orderly { a with held := some a.next, next := a.next + 1 } := by
  have hs : a.next ∉ a.trace.started := fun hm =>
    absurd (h.fresh _ (.inr (.inl hm))) (Nat.lt_irrefl _)
  have hq : a.next ∉ a.queue := fun hm => absurd (h.fresh _ (.inr (.inr hm))) (Nat.lt_irrefl _)
  have hz : a.trace.runs a.next = 0 := List.count_eq_zero.mpr hs
  have hn := h.nodup
  rw [hh] at hn
  refine { h with nodup := ?_, fresh := ?_, held := ?_, last := ?_ }
  · refine List.nodup_cons.mpr ⟨?_, hn⟩
    intro hm
    rcases List.mem_append.mp hm with hm | hm
    · exact hs (h.mem_started hm)
    · exact hq hm
  · rintro t (ht | ht)
    · obtain rfl := Option.some.inj ht
      exact Nat.lt_succ_self _
    · exact Nat.lt_succ_of_lt (h.fresh t (.inr ht))
  · intro t ht
    obtain rfl := Option.some.inj ht
    exact .inl hz
  · intro y hy t hm ht
    obtain rfl := Option.some.inj ht
    exact absurd hm (h.not_ran hz hy)

/-- The statement in the callback's hands joins the queue. -/
theorem join (h : Orderly a) {t : TaskId} (hh : a.held = some t) (hr : a.trace.runs t ≤ 1)
    (hs : a.trace.runs t = 1 → isInBlock a.trace.status = false)
    (hc : ∀ y ∈ a.trace.readies, t ∈ y.task → isInBlock y.before = false) :
    Orderly { a with queue := a.queue ++ [t], held := none } := by
  have hmem : ∀ u, u ∈ a.queue ++ [t] → u ∈ a.queue ∨ u = t := fun u hu => by
    simpa using hu
  refine { h with
    nodup := ?_, fresh := ?_, queued := ?_, held := ?_, last := ?_, calm := ?_, clean := ?_ }
  · have hn := h.nodup
    rw [hh] at hn
    refine (List.Perm.nodup_iff ?_).mp hn
    simp only [Option.toList_some, Option.toList_none, List.nil_append]
    rw [← List.append_assoc, List.append_assoc [t]]
    exact List.perm_append_comm
  · rintro u (hu | hu | hu)
    · cases hu
    · exact h.fresh u (.inr (.inl hu))
    · rcases hmem u hu with hu | rfl
      · exact h.fresh u (.inr (.inr hu))
      · exact h.fresh u (.inl hh)
  · intro u hu
    rcases hmem u hu with hu | rfl
    · exact h.queued u hu
    · exact hr
  · intro u hu
    cases hu
  · intro y _ u _ hu
    cases hu
  · rintro u (⟨hu, h1⟩ | hu) hcalm
    · rcases hmem u hu with hu | rfl
      · exact h.calm u (.inl ⟨hu, h1⟩) hcalm
      · exact hs h1
    · exact h.calm u (.inr hu) hcalm
  · intro u hu y hy hm
    rcases hmem u hu with hu | rfl
    · exact h.clean u hu y hy hm
    · exact hc y hy hm

theorem enqueue (h : Orderly a) {t : TaskId} (hh : a.held = some t)
    (hf : a.trace.pipe.heard t = []) : Orderly { a with queue := a.queue ++ [t], held := none } := by
  have hz : a.trace.runs t = 0 := by
    rcases h.held t hh with hz | hne
    · exact hz
    · exact absurd hf hne
  refine h.join hh (by omega) (fun h1 => by omega) fun y hy hm => ?_
  exact absurd hm (h.not_ran hz hy)

/-- **A failed statement joins the queue again**: its only run was outside every block. -/
theorem requeue (h : Orderly a) {t : TaskId} (hh : a.held = some t) (hm : mayRerun t)
    (hr : a.trace.runs t ≤ 1) (hs : isInBlock a.trace.status = false)
    (hi : Invalidated cfg (a.trace.pipe.heard t)) (hc : a.trace.Closing cfg mayRerun) :
    Orderly { a with queue := a.queue ++ [t], held := none } := by
  refine h.join hh hr (fun _ => hs) fun y hy hy' => ?_
  have hran := h.ran y hy t hy'
  obtain ⟨hafter, hheard⟩ := h.last y hy t hy' hh (by omega)
  cases hb : isInBlock y.before with
  | false => rfl
  | true =>
    have hcl : y.closes = true := by
      unfold Ready.closes
      rw [hb, hafter, hs]
      rfl
    refine absurd ?_ (hc y hy hcl t hy' hm)
    rw [hheard]
    exact hi

/-- The first statement of the queue is started. -/
theorem start (h : Orderly a) {t : TaskId} {rest : List TaskId} (hq : a.queue = t :: rest) :
    Orderly { a with trace := a.trace.step (.start t), queue := rest } := by
  have htq : t ∈ a.queue := by
    rw [hq]
    exact List.mem_cons_self
  have hrq : ∀ u ∈ rest, u ∈ a.queue := fun u hu => by
    rw [hq]
    exact List.mem_cons_of_mem _ hu
  have hn := h.nodup
  rw [hq] at hn
  have hne : ∀ u, u ∈ a.held ∨ u ∈ a.trace.pipe.waiting ∨ u ∈ rest → t ≠ u := by
    rintro u hu rfl
    have hn' := (List.perm_middle.nodup_iff.mp hn)
    refine (List.nodup_cons.mp hn').1 ?_
    simp only [List.mem_append, Option.mem_toList]
    tauto
  have hruns : ∀ u, t ≠ u → (a.trace.step (.start t)).runs u = a.trace.runs u := fun u hu => by
    rw [Trace.runs_start, if_neg hu]
    rfl
  have hself : (a.trace.step (.start t)).runs t = a.trace.runs t + 1 := by
    rw [Trace.runs_start, if_pos rfl]
  have hg := Trace.step_grows a.trace (.start t)
  have hw : (a.trace.step (.start t)).pipe.waiting = a.trace.pipe.waiting ++ [t] := rfl
  have hmem : ∀ u, u ∈ a.trace.pipe.waiting ++ [t] → u ∈ a.trace.pipe.waiting ∨ u = t := by
    intro u hu
    simpa using hu
  exact {
    suffix := by
      obtain ⟨x, hx⟩ := h.suffix
      refine ⟨x, ?_⟩
      show x ++ (a.trace.pipe.waiting ++ [t]) = a.trace.started ++ [t]
      rw [← hx, List.append_assoc]
    nodup := by
      show (a.held.toList ++ (a.trace.pipe.waiting ++ [t]) ++ rest).Nodup
      simpa using hn
    fresh := by
      rintro u (hu | hu | hu)
      · exact h.fresh u (.inl hu)
      · rcases List.mem_append.mp hu with hu | hu
        · exact h.fresh u (.inr (.inl hu))
        · obtain rfl := List.mem_singleton.mp hu
          exact h.fresh u (.inr (.inr htq))
      · exact h.fresh u (.inr (.inr (hrq u hu)))
    twice := fun u => by
      by_cases hu : t = u
      · subst hu
        have h1 := h.queued t htq
        show (a.trace.step (.start t)).runs t ≤ 2
        omega
      · show (a.trace.step (.start t)).runs u ≤ 2
        rw [hruns u hu]
        exact h.twice u
    queued := fun u hu => by
      show (a.trace.step (.start t)).runs u ≤ 1
      rw [hruns u (hne u (.inr (.inr hu)))]
      exact h.queued u (hrq u hu)
    held := fun u hu => by
      show (a.trace.step (.start t)).runs u = 0 ∨ a.trace.pipe.heard u ≠ []
      rw [hruns u (hne u (.inl hu))]
      exact h.held u hu
    ran := fun y hy u hm => by
      have hr := h.ran y hy u hm
      exact ⟨hr.1, Nat.le_trans hr.2 (hg.runs u)⟩
    pending := fun y hy u hm hu => by
      rcases hmem u hu with hu | rfl
      · exact Nat.lt_of_lt_of_le (h.pending y hy u hm hu) (hg.runs u)
      · have hr := h.ran y hy u hm
        show y.run < (a.trace.step (.start u)).runs u
        omega
    last := fun y hy u hm hu hr => by
      rw [show (a.trace.step (.start t)).runs u = a.trace.runs u from
        hruns u (hne u (.inl hu))] at hr
      exact h.last y hy u hm hu hr
    calm := by
      rintro u hu hcalm
      have hcalm' : a.trace.Calm u := hcalm.earlier hg
      refine h.calm u ?_ hcalm'
      rcases hu with ⟨hu, h1⟩ | ⟨hu, h2⟩
      · have h1' := hruns u (hne u (.inr (.inr hu)))
        exact .inl ⟨hrq u hu, h1'.symm.trans h1⟩
      · rcases hmem u hu with hu | rfl
        · have h2' := hruns u (hne u (.inr (.inl hu)))
          exact .inr ⟨hu, h2'.symm.trans h2⟩
        · have h2' := hself.symm.trans h2
          exact .inl ⟨htq, by omega⟩
    clean := fun u hu => h.clean u (hrq u hu)
    context := by
      refine ⟨h.context.again, fun y hy hb u hm => ?_⟩
      by_cases hu : t = u
      · subst hu
        rw [h.clean t htq y hy hm] at hb
        cases hb
      · rw [hruns u hu]
        exact h.context.once y hy hb u hm }

theorem drop (h : Orderly a) : Orderly { a with trace := a.trace.step .drop } :=
  { h with
    suffix := List.nil_suffix
    nodup := h.nodup.sublist
      (List.Sublist.append (List.Sublist.append (.refl _) (List.nil_sublist _)) (.refl _))
    pending := fun y _ t _ ht => by cases ht
    calm := fun t ht => h.calm t (ht.imp_right fun ht => by cases ht.1)
    context := ⟨h.context.again, h.context.once⟩ }

/-- What the callback holds is not in flight. -/
theorem held_not_waiting (h : Orderly a) {t : TaskId} (ht : t ∈ a.held) :
    t ∉ a.trace.pipe.waiting := by
  intro hw
  have hn := (List.nodup_append.mp (List.nodup_append.mp h.nodup).1).2.2
  exact hn t (Option.mem_toList.mpr ht) t hw rfl

theorem hear (h : Orderly a) {m : BackendMsg} (hm : m.isReady = false) :
    Orderly { a with trace := a.trace.step (.reply m) } := by
  have hw : (a.trace.pipe.step BackendMsg.isReady (.reply m)).waiting = a.trace.pipe.waiting := by
    rw [Fifo.step_reply_waiting, hm]
    rfl
  have hheard : ∀ t ∈ a.held, (a.trace.pipe.step BackendMsg.isReady (.reply m)).heard t =
      a.trace.pipe.heard t := by
    intro t ht
    refine Fifo.step_reply_heard_of_ne _ ?_ _
    intro hc
    exact h.held_not_waiting ht (List.mem_of_mem_head? hc)
  rw [Trace.step_hear _ hm]
  exact { h with
    suffix := by
      dsimp only
      rw [hw]
      exact h.suffix
    nodup := by
      dsimp only
      rw [hw]
      exact h.nodup
    held := fun t ht => by
      dsimp only
      rw [hheard t ht]
      exact h.held t ht
    pending := fun y hy t hm ht => by
      dsimp only at ht
      rw [hw] at ht
      exact h.pending y hy t hm ht
    last := fun y hy t hm ht => by
      dsimp only
      rw [hheard t ht]
      exact h.last y hy t hm ht
    calm := fun t ht hcalm => by
      dsimp only at ht
      rw [hw] at ht
      exact h.calm t ht hcalm
    context := ⟨h.context.again, h.context.once⟩ }

/-- While a second run is to come, the head of the pipeline was started since the first. -/
theorem head_between (h : Orderly a) {t u : TaskId} {rest : List TaskId}
    (hw : a.trace.pipe.waiting = u :: rest)
    (ht : t ∈ a.queue ∧ a.trace.runs t = 1 ∨ t ∈ rest ∧ a.trace.runs t = 2) :
    u ∈ a.trace.between t := by
  obtain ⟨x, hx⟩ := h.suffix
  rw [hw] at hx
  have hn := h.nodup
  rw [hw] at hn
  have hcount : ∀ v, a.trace.runs v = x.count v + (u :: rest).count v := by
    intro v
    show a.trace.started.count v = _
    rw [← hx, List.count_append]
  have hnw : (u :: rest).Nodup := (List.nodup_append.mp (List.nodup_append.mp hn).1).2.1
  have hone : u ≠ t ∧ x.count t = 1 := by
    rcases ht with ⟨hq, h1⟩ | ⟨hr, h2⟩
    · have hnot : t ∉ u :: rest := fun hm =>
        (List.nodup_append.mp hn).2.2 t (List.mem_append_right _ hm) t hq rfl
      have hc := hcount t
      rw [List.count_eq_zero.mpr hnot] at hc
      exact ⟨fun he => hnot (he ▸ List.mem_cons_self), by omega⟩
    · have hc := hcount t
      rw [List.count_eq_one_of_mem hnw (List.mem_cons_of_mem _ hr)] at hc
      exact ⟨fun he => (List.nodup_cons.mp hnw).1 (he ▸ hr), by omega⟩
  unfold Trace.between
  rw [← hx]
  exact Repeats.mem_between_of_count hone.2 hone.1 rest

/-- **A run ends**: what opens a block now was started between the two runs of whatever is to
run a second time. -/
theorem ready (h : Orderly a) (status : Option Char) (hh : a.held = none)
    (ha : (a.trace.step (.reply (.readyForQuery status))).Apart) :
    Orderly { a with
      trace := a.trace.step (.reply (.readyForQuery status))
      held := a.trace.pipe.waiting.head? } := by
  have hg := Trace.step_grows a.trace (.reply (.readyForQuery status))
  have hmem : ∀ y, y ∈ a.trace.readies ++ [a.trace.ready status] →
      y ∈ a.trace.readies ∨ y = a.trace.ready status := fun y hy => by
    simpa using hy
  have htask : ∀ t, t ∈ (a.trace.ready status).task → a.trace.pipe.waiting.head? = some t ∧
      (a.trace.ready status).run = a.trace.runs t := by
    intro t ht
    have ht' : a.trace.pipe.waiting.head? = some t := ht
    refine ⟨ht', ?_⟩
    simp [Trace.ready, ht']
  have hw : ((a.trace.step (.reply (.readyForQuery status))).pipe.waiting) =
      a.trace.pipe.waiting.tail := by
    rw [Trace.step_pipe, Fifo.step_reply_waiting]
    rfl
  have hheard : ∀ t, a.trace.pipe.waiting.head? = some t →
      (a.trace.step (.reply (.readyForQuery status))).pipe.heard t =
        a.trace.pipe.heard t ++ [.readyForQuery status] := by
    intro t ht
    rw [Trace.step_pipe]
    exact Fifo.step_reply_heard _ ht _
  have hn := h.nodup
  rw [hh] at hn
  have hsplit : (a.trace.pipe.waiting.head?.toList ++ a.trace.pipe.waiting.tail) =
      a.trace.pipe.waiting := by
    cases a.trace.pipe.waiting with
    | nil => rfl
    | cons => rfl
  have hhead : ∀ t, a.trace.pipe.waiting.head? = some t →
      t ∈ a.trace.pipe.waiting ∧ t ∉ a.trace.pipe.waiting.tail ∧ t ∉ a.queue := by
    intro t ht
    obtain ⟨rest, hr⟩ := List.head?_eq_some_iff.mp ht
    rw [hr] at hn ⊢
    obtain ⟨hnw, -, hnq⟩ := List.nodup_append.mp hn
    exact ⟨List.mem_cons_self, (List.nodup_cons.mp hnw).1, fun hq =>
      hnq t List.mem_cons_self t hq rfl⟩
  exact {
    suffix := by
      show (a.trace.step (.reply (.readyForQuery status))).pipe.waiting <:+ a.trace.started
      rw [hw]
      exact (List.tail_suffix _).trans h.suffix
    nodup := by
      show (a.trace.pipe.waiting.head?.toList ++
        (a.trace.step (.reply (.readyForQuery status))).pipe.waiting ++ a.queue).Nodup
      rw [hw, hsplit]
      exact hn
    fresh := by
      rintro t (ht | ht | ht)
      · exact h.fresh t (.inr (.inl (h.mem_started (hhead t ht).1)))
      · exact h.fresh t (.inr (.inl ht))
      · exact h.fresh t (.inr (.inr ht))
    twice := h.twice
    queued := h.queued
    held := fun t ht => by
      refine .inr ?_
      show (a.trace.step (.reply (.readyForQuery status))).pipe.heard t ≠ []
      rw [hheard t ht]
      simp
    ran := fun y hy t hm => by
      rcases hmem y hy with hy | rfl
      · exact h.ran y hy t hm
      · obtain ⟨ht, hr⟩ := htask t hm
        have hpos : 0 < a.trace.runs t := List.count_pos_iff.mpr (h.mem_started (hhead t ht).1)
        rw [hr]
        exact ⟨hpos, Nat.le_refl _⟩
    pending := fun y hy t hm ht => by
      have ht' : t ∈ a.trace.pipe.waiting.tail := hw ▸ ht
      rcases hmem y hy with hy | rfl
      · exact h.pending y hy t hm (List.mem_of_mem_tail ht')
      · exact absurd ht' (hhead t (htask t hm).1).2.1
    last := fun y hy t hm ht hr => by
      rcases hmem y hy with hy | rfl
      · have hlt := h.pending y hy t hm (hhead t ht).1
        exact absurd hr (Nat.ne_of_lt hlt)
      · refine ⟨rfl, ?_⟩
        show (a.trace.ready status).heard =
          (a.trace.step (.reply (.readyForQuery status))).pipe.heard t
        rw [hheard t ht]
        simp [Trace.ready, show a.trace.pipe.waiting.head? = some t from ht]
    calm := by
      intro t ht hcalm
      have ht' : t ∈ a.queue ∧ a.trace.runs t = 1 ∨
          t ∈ a.trace.pipe.waiting.tail ∧ a.trace.runs t = 2 := by
        rcases ht with ht | ⟨hm, h2⟩
        · exact .inl ht
        · exact .inr ⟨hw ▸ hm, h2⟩
      have hidle : isInBlock a.trace.status = false :=
        h.calm t (ht'.imp_right fun ht => ⟨List.mem_of_mem_tail ht.1, ht.2⟩) (hcalm.earlier hg)
      cases hb : isInBlock (status.getD 'I') with
      | false => exact hb
      | true =>
        have ho : (a.trace.ready status).opens = true := by
          unfold Ready.opens Trace.ready
          rw [hidle, hb]
          rfl
        obtain ⟨u, hu, hnot⟩ := hcalm _ (List.mem_append_right _ List.mem_cons_self) ho
        obtain ⟨rest, hr⟩ := List.head?_eq_some_iff.mp (htask u hu).1
        rw [hr] at ht'
        exact absurd (h.head_between hr ht') hnot
    clean := fun t ht y hy hm => by
      rcases hmem y hy with hy | rfl
      · exact h.clean t ht y hy hm
      · exact absurd ht (hhead t (htask t hm).1).2.2
    context := by
      refine ⟨fun y hy hr => ?_, fun y hy hb t hm => ?_⟩
      · rcases hmem y hy with hy | rfl
        · exact h.context.again y hy hr
        · cases hc : a.trace.pipe.waiting.head? with
          | none => simp [Trace.ready, hc] at hr
          | some t =>
            have hrt := (htask t hc).2
            have h2 := h.twice t
            rw [hrt] at hr
            have hcalm : a.trace.Calm t := (ha.earlier hg).calm hr
            exact h.calm t (.inr ⟨(hhead t hc).1, by omega⟩) hcalm
      · rcases hmem y hy with hy | rfl
        · exact h.context.once y hy hb t hm
        · exact Nat.le_of_eq (htask t hm).2.symm }

end Orderly

variable {cfg : Config} {mayRerun : TaskId → Prop} {a b : Roster}

theorem Turn.grows (h : Turn cfg mayRerun a b) : a.trace.Grows b.trace := by
  cases h with
  | start t => exact Trace.step_grows a.trace (.start t)
  | drop => exact Trace.step_grows a.trace .drop
  | hear m => exact Trace.step_grows a.trace (.reply m)
  | ready status => exact Trace.step_grows a.trace (.reply (.readyForQuery status))
  | _ => exact .refl _

/-- **One turn keeps the roster in order**, as long as the transactions stay apart. -/
theorem Turn.orderly (h : Turn cfg mayRerun a b) (hl : Orderly a) (ha : b.trace.Apart)
    (hc : b.trace.Closing cfg mayRerun) : Orderly b := by
  cases h with
  | leave queue hq => exact hl.leave hq
  | release => exact hl.release
  | refuse => exact hl.refuse
  | create hh => exact hl.create hh
  | enqueue t hh hf => exact hl.enqueue hh hf
  | requeue t hh hm hr hs hi => exact hl.requeue hh hm hr hs hi hc
  | start t rest hq => exact hl.start hq
  | drop => exact hl.drop
  | hear m hm => exact hl.hear hm
  | ready status hh => exact hl.ready status hh ha

/-- Any number of turns. -/
abbrev Turns (cfg : Config) (mayRerun : TaskId → Prop) : Roster → Roster → Prop :=
  Relation.ReflTransGen (Turn cfg mayRerun)

theorem Turns.grows (h : Turns cfg mayRerun a b) : a.trace.Grows b.trace := by
  induction h with
  | refl => exact .refl _
  | tail _ ht ih => exact ih.trans ht.grows

theorem Turns.orderly (h : Turns cfg mayRerun a b) (hl : Orderly a) (ha : b.trace.Apart)
    (hc : b.trace.Closing cfg mayRerun) : Orderly b := by
  induction h with
  | refl => exact hl
  | tail _ ht ih => exact ht.orderly (ih (ha.earlier ht.grows) (hc.earlier ht.grows)) ha hc

end Minipg
