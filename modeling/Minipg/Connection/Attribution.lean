import Minipg.Connection.Pipeline

/-!
# Whose reply is it

The pipeline of a connection refines the one of `Fifo`: what is in flight and what each task
has heard are what `Fifo.run` makes of the ledger of starts and replies.  And a task's
record holds nothing that does not come from the replies it has heard (`Own`): its rows,
its descriptors, its tag and its error.  The exceptions are by design: a reused statement
starts with the fields that were cached for its own name and SQL, and an error may be one
that the connection raised itself while it read a reply.
-/

namespace Minipg

/-- The last reply to a task. -/
def BackendMsg.isReady : BackendMsg → Bool
  | .readyForQuery _ => true
  | _ => false

def BackendMsg.row? : BackendMsg → Option Bytes
  | .dataRow b => some b
  | _ => none

def BackendMsg.copyData? : BackendMsg → Option Bytes
  | .copyData b => some b
  | _ => none

/-- What a task has taken from replies. -/
structure Replies where
  name : Option String
  heard : List BackendMsg
  rows : List Row
  delivered : List Row
  relayed : List Bytes
  wireFrames : List BackendMsg
  fields : Option (List Field)
  paramOids : Option (List Oid)
  command : Option String
  rowCount : Option Nat
  error : Option JsError

def Task.replies (k : Task) : Replies :=
  ⟨k.name, k.heard, k.rows, k.delivered, k.relayed, k.wireFrames, k.fields, k.paramOids, k.command,
    k.rowCount, k.error⟩

/-- An error the connection raises while it reads a reply. -/
def IsLocalError (cfg : Config) (heard : List BackendMsg) (e : JsError) : Prop :=
  (∃ m fs, .rowDescription (some fs) ∈ heard ∧ cfg.mapperError m = some e) ∨
    (∃ plan body, .dataRow body ∈ heard ∧ cfg.decodeError plan body = some e) ∨
    .copyOutResponse ∈ heard ∧ e = copyOutError

/-- The fields come from the cached entry of the statement the task reused. -/
def IsReused (hist : List Moment) (name : Option String) (fs : List Field) : Prop :=
  ∃ k e isStale marker hasThrown, Moment.start k (some e) isStale marker hasThrown ∈ hist ∧
    k.name = name ∧ e.sql = k.sql ∧ e.fields = fs

/-- **Every part of a record comes from the replies its task has heard.** -/
structure Own (cfg : Config) (hist : List Moment) (r : Replies) : Prop where
  rows : (r.rows.map (·.body)).Sublist (r.heard.filterMap BackendMsg.row?)
  delivered : (r.delivered.map (·.body)).Sublist (r.heard.filterMap BackendMsg.row?)
  relayed : r.relayed.Sublist (r.heard.filterMap BackendMsg.copyData?)
  wireFrames : r.wireFrames.Sublist r.heard
  fields : ∀ fs, r.fields = some fs → .rowDescription (some fs) ∈ r.heard ∨
    .noData ∈ r.heard ∧ fs = [] ∨ IsReused hist r.name fs
  paramOids : ∀ os, r.paramOids = some os → .parameterDescription (some os) ∈ r.heard
  command : ∀ w, r.command = some w → ∃ tag, .commandComplete tag ∈ r.heard ∧ w = commandWord tag
  rowCount : ∀ n, r.rowCount = some n →
    ∃ tag, .commandComplete tag ∈ r.heard ∧ commandCount tag = some n
  error : ∀ e, r.error = some e → ∃ e', (e = e' ∨ e = e'.markLate) ∧
    (.errorResponse e' ∈ r.heard ∨ IsLocalError cfg r.heard e')

/-! ### One record -/

section Record

variable {cfg : Config} {hist : List Moment}

/-- A task that has heard nothing. -/
theorem Own.blank (name : Option String) (heard : List BackendMsg) :
    Own cfg hist ⟨name, heard, [], [], [], [], none, none, none, none, none⟩ where
  rows := List.nil_sublist _
  delivered := List.nil_sublist _
  relayed := List.nil_sublist _
  wireFrames := List.nil_sublist _
  fields := by simp
  paramOids := by simp
  command := by simp
  rowCount := by simp
  error := by simp

theorem IsLocalError.more {heard : List BackendMsg} {e : JsError} (h : IsLocalError cfg heard e)
    (m : BackendMsg) : IsLocalError cfg (heard ++ [m]) e := by
  rcases h with ⟨k, fs, hm, he⟩ | ⟨plan, body, hm, he⟩ | ⟨hm, he⟩
  · exact .inl ⟨k, fs, List.mem_append_left _ hm, he⟩
  · exact .inr (.inl ⟨plan, body, List.mem_append_left _ hm, he⟩)
  · exact .inr (.inr ⟨List.mem_append_left _ hm, he⟩)

theorem filterMap_sublist {α : Type} (f : BackendMsg → Option α) (heard : List BackendMsg)
    (m : BackendMsg) : (heard.filterMap f).Sublist ((heard ++ [m]).filterMap f) := by
  rw [List.filterMap_append]
  exact List.sublist_append_left ..

/-- One more reply is heard. -/
theorem Own.more {r : Replies} (h : Own cfg hist r) (m : BackendMsg) :
    Own cfg hist { r with heard := r.heard ++ [m] } where
  rows := h.rows.trans (filterMap_sublist _ _ m)
  delivered := h.delivered.trans (filterMap_sublist _ _ m)
  relayed := h.relayed.trans (filterMap_sublist _ _ m)
  wireFrames := h.wireFrames.trans (List.sublist_append_left ..)
  fields fs hf := by
    rcases h.fields fs hf with h' | ⟨h', hfs⟩ | h'
    · exact .inl (List.mem_append_left _ h')
    · exact .inr (.inl ⟨List.mem_append_left _ h', hfs⟩)
    · exact .inr (.inr h')
  paramOids os ho := List.mem_append_left _ (h.paramOids os ho)
  command w hw := by
    obtain ⟨tag, ht, hw⟩ := h.command w hw
    exact ⟨tag, List.mem_append_left _ ht, hw⟩
  rowCount n hn := by
    obtain ⟨tag, ht, hn⟩ := h.rowCount n hn
    exact ⟨tag, List.mem_append_left _ ht, hn⟩
  error e he := by
    obtain ⟨e', hm, he⟩ := h.error e he
    refine ⟨e', hm, ?_⟩
    rcases he with he | he
    · exact .inl (List.mem_append_left _ he)
    · exact .inr (he.more m)

/-- The history only adds to what may have been reused. -/
theorem Own.later {r : Replies} (h : Own cfg hist r) {hist' : List Moment} (hp : hist <+: hist') :
    Own cfg hist' r :=
  { h with
    fields := fun fs hf => by
      rcases h.fields fs hf with h' | h' | ⟨k, e, a, b, d, hm, hk⟩
      · exact .inl h'
      · exact .inr (.inl h')
      · exact .inr (.inr ⟨k, e, a, b, d, hp.subset hm, hk⟩) }

/-- The mark of a late cancel. -/
theorem Own.markLate {r : Replies} (h : Own cfg hist r) :
    Own cfg hist { r with error := r.error.map JsError.markLate } :=
  { h with
    error := fun e he => by
      dsimp only at he
      obtain ⟨e0, he0, rfl⟩ := Option.map_eq_some_iff.mp he
      obtain ⟨e', hm, he'⟩ := h.error e0 he0
      refine ⟨e', .inr ?_, he'⟩
      rcases hm with rfl | rfl
      · rfl
      · rfl }

/-- An error the connection raises itself. -/
theorem Own.fail {r : Replies} (h : Own cfg hist r) {e : JsError}
    (he : .errorResponse e ∈ r.heard ∨ IsLocalError cfg r.heard e) :
    Own cfg hist { r with error := some e } :=
  { h with
    error := fun e' he' => by
      obtain rfl := Option.some.inj he'
      exact ⟨e, .inl rfl, he⟩ }

theorem own_received {k : Task} (h : Own cfg hist k.replies) (m : BackendMsg) :
    Own cfg hist ({ k.keepFrame m with heard := k.heard ++ [m] } : Task).replies := by
  have hm := h.more m
  unfold Task.keepFrame
  split
  · exact { hm with
      wireFrames := h.wireFrames.append (List.Sublist.refl _) }
  · exact hm

theorem own_describeWith {k : Task} (h : Own cfg hist k.replies) {fs : List Field}
    (hm : .rowDescription (some fs) ∈ k.heard) (cols : List CodegenCol) :
    Own cfg hist (k.describeWith cfg cols).replies := by
  unfold Task.describeWith getMapper
  split
  · exact h
  · rename_i e he
    refine Own.fail h (.inr (.inl ⟨⟨cfg.resolveCols cols, k.mode⟩, fs, hm, ?_⟩))
    split at he
    · dsimp only at he
      split at he
      · rename_i e' he'
        obtain rfl := Except.error.inj he
        exact he'
      · cases he
    · cases he

theorem own_rowDescription {k : Task} (h : Own cfg hist k.replies) {fs : List Field}
    (hm : .rowDescription (some fs) ∈ k.heard) :
    Own cfg hist (k.rowDescription cfg fs).replies := by
  have hf : Own cfg hist ({ k with fields := some fs } : Task).replies :=
    { h with
      fields := fun fs' hfs => by
        obtain rfl := Option.some.inj hfs
        exact .inl hm }
  unfold Task.rowDescription
  dsimp only
  split
  · exact hf
  · split
    · split
      · exact own_describeWith hf hm _
      · exact hf
    · exact own_describeWith hf hm _

/-- A row joins the rows of its task. -/
theorem sublist_row {rows : List Row} {heard : List BackendMsg} {plan : RowPlan} {body : Bytes}
    (h : (rows.map (·.body)).Sublist (heard.filterMap BackendMsg.row?)) :
    ((rows ++ [(⟨plan, body⟩ : Row)]).map (·.body)).Sublist
      ((heard ++ [BackendMsg.dataRow body]).filterMap BackendMsg.row?) := by
  rw [List.map_append, List.filterMap_append]
  exact h.append (List.Sublist.refl _)

theorem own_dataRow {k : Task} (h : Own cfg hist k.replies) (body : Bytes) :
    Own cfg hist (({ k with heard := k.heard ++ [.dataRow body] } : Task).dataRow cfg body).replies := by
  have hk : Own cfg hist ({ k with heard := k.heard ++ [.dataRow body] } : Task).replies :=
    h.more (.dataRow body)
  unfold Task.dataRow
  dsimp only
  split
  · exact hk
  · split
    · rename_i e he
      exact Own.fail hk (.inr (.inr (.inl ⟨_, body, List.mem_append_right _ (by simp), he⟩)))
    · split
      · exact { hk with delivered := sublist_row h.delivered }
      · exact { hk with rows := sublist_row h.rows }

theorem keepFrame_of_not_wire (k : Task) {m : BackendMsg} (hw : (k.wire && m.isWire) = false) :
    k.keepFrame m = k := by
  unfold Task.keepFrame
  rw [hw]
  rfl

theorem rowDescription_heard (k : Task) (fs : List Field) :
    (k.rowDescription cfg fs).heard = k.heard := by
  have hd : ∀ k' : Task, ∀ cols, (k'.describeWith cfg cols).heard = k'.heard := by
    intro k' cols
    unfold Task.describeWith
    split
    · rfl
    · rfl
  unfold Task.rowDescription
  dsimp only
  split
  · rfl
  · split
    · split
      · exact hd _ _
      · rfl
    · exact hd _ _

theorem dataRow_heard (k : Task) (body : Bytes) : (k.dataRow cfg body).heard = k.heard := by
  unfold Task.dataRow
  dsimp only
  split
  · rfl
  · split
    · rfl
    · split
      · rfl
      · rfl

theorem hear_heard (k : Task) (m : BackendMsg) : (k.hear cfg m).heard = k.heard := by
  unfold Task.hear
  split
  · exact rowDescription_heard k _
  · rfl
  · rfl
  · split
    · rfl
    · exact dataRow_heard k _
  · split
    · rfl
    · rfl
  · rfl
  · split
    · rfl
    · rfl
  · split
    · rfl
    · rfl
  · rfl

theorem listened_heard (k : Task) (m : BackendMsg) :
    (Conn.listened cfg k m).heard = k.heard ++ [m] :=
  hear_heard _ m

/-- **One message** adds to the record of its task only what it says itself. -/
theorem own_listened {k : Task} (h : Own cfg hist k.replies) (m : BackendMsg) :
    Own cfg hist (Conn.listened cfg k m).replies := by
  have hr := own_received h m
  have hmem : m ∈ ({ k.keepFrame m with heard := k.heard ++ [m] } : Task).heard :=
    List.mem_append_right _ (List.mem_singleton_self _)
  unfold Conn.listened
  cases m with
  | rowDescription fs =>
    cases fs with
    | none => exact hr
    | some fs => exact own_rowDescription hr hmem
  | noData =>
    exact { hr with
      fields := fun fs hf => by
        obtain rfl := Option.some.inj hf
        exact .inr (.inl ⟨hmem, rfl⟩) }
  | parameterDescription os =>
    cases os with
    | none => exact hr
    | some os =>
      exact { hr with
        paramOids := fun os' ho => by
          obtain rfl := Option.some.inj ho
          exact hmem }
  | dataRow body =>
    cases hw : k.wire with
    | true =>
      have hw' : (k.keepFrame (.dataRow body)).wire = true := by
        unfold Task.keepFrame
        split
        · exact hw
        · exact hw
      unfold Task.hear
      dsimp only
      rw [if_pos hw']
      exact hr
    | false =>
      rw [keepFrame_of_not_wire k (by rw [hw]; rfl)]
      unfold Task.hear
      dsimp only
      rw [hw]
      exact own_dataRow h body
  | commandComplete tag =>
    unfold Task.hear
    dsimp only
    split
    · exact hr
    · exact { hr with
        command := fun w hw => ⟨tag, hmem, (Option.some.inj hw).symm⟩
        rowCount := fun n hn => ⟨tag, hmem, hn⟩ }
  | errorResponse e => exact hr.fail (.inl hmem)
  | copyOutResponse =>
    unfold Task.hear
    dsimp only
    split
    · exact hr.fail (.inr (.inr (.inr ⟨hmem, rfl⟩)))
    · exact hr
  | copyData b =>
    have hk := keepFrame_of_not_wire k (m := .copyData b) (Bool.and_false _)
    rw [hk] at hr ⊢
    unfold Task.hear
    dsimp only
    split
    · exact { hr with
        relayed := by
          change (k.relayed ++ [b]).Sublist ((k.heard ++ [BackendMsg.copyData b]).filterMap _)
          rw [List.filterMap_append]
          exact h.relayed.append (List.Sublist.refl _) }
    · exact hr
  | authentication | parameterStatus | backendKeyData | readyForQuery | copyInResponse
  | copyBothResponse | copyDone | emptyQuery | noticeResponse | notificationResponse
  | parseComplete | bindComplete | closeComplete | portalSuspended => exact hr

end Record

namespace Conn

variable {cfg : Config}

/-! ### The fields a task starts with -/

theorem openStatement_fields (c : Conn) (t : TaskId) :
    ((c.openStatement t).1.tasks t).fields = (c.tasks t).fields := by
  unfold openStatement
  dsimp only
  split
  · split
    · rfl
    · rfl
  · rename_i n _
    have hs : (c.closeStale t n).tasks = c.tasks := by
      unfold closeStale
      split
      · rfl
      · rfl
    have hu : ((c.closeStale t n).closeSuperseded t n).tasks = c.tasks := by
      rw [← hs]
      unfold closeSuperseded
      split
      · rfl
      · rfl
    split
    · simp [Conn.modTask, write, hs]
    · split
      · rw [hu]
      · simp [Conn.modTask, write, hu]

theorem writeBind_tasks (c : Conn) (t : TaskId) (entry : Option PreparedEntry) :
    (c.writeBind cfg t entry).1.tasks = c.tasks := by
  have hp : (c.paramPlan cfg (c.tasks t) entry).1.tasks = c.tasks := by
    unfold paramPlan
    split
    · split
      · split
        · rfl
        · rfl
      · rfl
    · rfl
  unfold writeBind
  dsimp only
  split
  · exact hp
  · exact hp

theorem assignMapper_fields (c : Conn) (t : TaskId) (cols : List CodegenCol) :
    ((c.assignMapper cfg t cols).1.tasks t).fields = (c.tasks t).fields := by
  unfold assignMapper
  split
  · simp [Conn.modTask]
  · rfl

theorem reuseStatement_fields (c : Conn) (t : TaskId) (e : PreparedEntry) :
    ((c.reuseStatement cfg t e).1.tasks t).fields = some e.fields := by
  have h : ((c.modTask t fun k => { k with fields := some e.fields }).tasks t).fields =
      some e.fields := by simp [Conn.modTask]
  unfold reuseStatement
  dsimp only
  split
  · split
    · exact (assignMapper_fields _ t _).trans h
    · exact h
  · split
    · exact (assignMapper_fields _ t _).trans h
    · split
      · generalize hr : assignMapper cfg _ t _ = r
        have hr' : (r.1.tasks t).fields = some e.fields := by
          rw [← hr]
          exact (assignMapper_fields _ t _).trans h
        obtain ⟨c', err⟩ := r
        cases err with
        | none => simpa [Conn.modTask] using hr'
        | some e => exact hr'
      · exact (assignMapper_fields _ t _).trans h

/-- A statement that is parsed leaves the fields of its task alone. -/
theorem parse_fields (d : Conn) (t : TaskId) (parsed : Option String) (key : String) :
    ((((d.openStatement t).andThen fun c => c.writeBind cfg t none).andThen fun c =>
      (c.markParse parsed key, none)).1.tasks t).fields = (d.tasks t).fields := by
  have hf := openStatement_fields d t
  generalize d.openStatement t = r at hf ⊢
  obtain ⟨c', err⟩ := r
  cases err with
  | some e => exact hf
  | none =>
    rw [Attempted.andThen_ok]
    have hw : ((c'.writeBind cfg t none).1.tasks t).fields = (d.tasks t).fields := by
      rw [writeBind_tasks]
      exact hf
    generalize c'.writeBind cfg t none = r at hw ⊢
    obtain ⟨c'', err⟩ := r
    cases err with
    | some e => exact hw
    | none =>
      rw [Attempted.andThen_ok]
      unfold markParse
      dsimp only
      split
      · exact hw
      · exact hw

/-- Serialization only ever sets the fields of a task to those of the entry it reuses. -/
theorem serialize_fields (c : Conn) (t : TaskId) :
    ((c.serialize cfg t).1.tasks t).fields = (c.tasks t).fields ∨
      ∃ e, c.reusable (c.tasks t) = some e ∧
        ((c.serialize cfg t).1.tasks t).fields = some e.fields := by
  unfold serialize
  dsimp only
  split
  · split
    · exact .inl rfl
    · exact .inl rfl
  · split
    · exact .inl rfl
    · split
      · rename_i e he
        refine .inr ⟨e, he, ?_⟩
        have hf := @reuseStatement_fields cfg c t e
        generalize c.reuseStatement cfg t e = r at hf ⊢
        obtain ⟨c', err⟩ := r
        cases err with
        | none =>
          rw [Attempted.andThen_ok, writeBind_tasks]
          exact hf
        | some e => exact hf
      · rw [parse_fields]
        left
        split
        · unfold closeRepointed
          split
          · rfl
          · rfl
        · rfl

theorem startTask_throw_fields {c : Conn} {t : TaskId} {e : JsError}
    (h : (c.serialize cfg t).2 = some e) :
    ((c.startTask cfg t).tasks t).fields = ((c.serialize cfg t).1.tasks t).fields := by
  rw [startTask_of_throw h]
  obtain ⟨ts, _, hr, ht, -⟩ := rejectTask_settles
    ({ (c.serialize cfg t).1 with outbuf := c.outbuf }.note (c.startMoment t true)) t e
  rw [hr]
  obtain ⟨_, _, _, _, hk⟩ := ht t
  dsimp only
  rw [hk]
  rfl

/-- An entry that is reused is cached under the name of the task, with its SQL. -/
theorem reusable_entry {c : Conn} {k : Task} {e : PreparedEntry} (h : c.reusable k = some e) :
    k.name.bind c.prepared = some e ∧ e.sql = k.sql := by
  unfold reusable at h
  cases hn : k.name with
  | none =>
    rw [hn] at h
    cases h
  | some n =>
    rw [hn, Option.bind_some, Option.filter_eq_some_iff] at h
    exact ⟨h.1, by simpa using h.2⟩

/-! ### The pipeline and its ledger -/

/-- **The pipeline is first in, first out**: it is what `Fifo` makes of the starts and the
replies so far, and every record is its task's own. -/
structure Attributed (cfg : Config) (c : Conn) : Prop where
  waiting : (Fifo.run BackendMsg.isReady c.ledger).waiting = c.inflight
  heard : ∀ t, (Fifo.run BackendMsg.isReady c.ledger).heard t = (c.tasks t).heard
  fresh : ∀ t, c.nextTask ≤ t → (c.tasks t).heard = []
  own : ∀ t, Own cfg c.history (c.tasks t).replies

theorem attributed_new : Attributed cfg {} where
  waiting := rfl
  heard _ := rfl
  fresh _ _ := rfl
  own _ := .blank _ _

namespace Attributed

/-- The frame rule: no reply arrives and no task starts. -/
theorem same {c c' : Conn} (ha : Attributed cfg c) (hl : c'.ledger = c.ledger)
    (hi : c'.inflight = c.inflight) (hn : c.nextTask ≤ c'.nextTask)
    (hh : c.history <+: c'.history) (ht : ∀ t, (c'.tasks t).replies = (c.tasks t).replies) :
    Attributed cfg c' where
  waiting := by rw [hl, hi, ha.waiting]
  heard t := by
    rw [hl, ha.heard t]
    exact (congrArg Replies.heard (ht t)).symm
  fresh t hlt := (congrArg Replies.heard (ht t)).trans (ha.fresh t (Nat.le_trans hn hlt))
  own t := by
    rw [ht t]
    exact (ha.own t).later hh

/-- The frame rule where a record changes without a reply. -/
theorem of_own {c c' : Conn} (ha : Attributed cfg c) (hl : c'.ledger = c.ledger)
    (hi : c'.inflight = c.inflight) (hn : c.nextTask ≤ c'.nextTask)
    (hh : ∀ t, (c'.tasks t).heard = (c.tasks t).heard)
    (ho : ∀ t, Own cfg c'.history (c'.tasks t).replies) : Attributed cfg c' where
  waiting := by rw [hl, hi, ha.waiting]
  heard t := by rw [hl, ha.heard t, hh t]
  fresh t hlt := (hh t).trans (ha.fresh t (Nat.le_trans hn hlt))
  own := ho

/-- The frame rule where the tasks stay as they are. -/
theorem rest {c c' : Conn} (ha : Attributed cfg c) (hl : c'.ledger = c.ledger)
    (hi : c'.inflight = c.inflight) (hn : c'.nextTask = c.nextTask)
    (hh : c'.history = c.history) (ht : c'.tasks = c.tasks) : Attributed cfg c' := by
  refine ha.same hl hi (Nat.le_of_eq hn.symm) ?_ fun t => by rw [ht]
  rw [hh]

/-- Assignments to one task that take nothing from replies. -/
theorem modTask {c : Conn} (ha : Attributed cfg c) {t : TaskId} {f : Task → Task}
    (hf : (f (c.tasks t)).replies = (c.tasks t).replies) : Attributed cfg (c.modTask t f) := by
  refine ha.same rfl rfl (Nat.le_refl _) List.prefix_rfl fun u => ?_
  change (Function.update c.tasks t (f (c.tasks t)) u).replies = _
  by_cases hu : u = t
  · subst hu
    rwa [Function.update_self]
  · rw [Function.update_of_ne hu]

theorem settles {c c' : Conn} (ha : Attributed cfg c) (hs : Settles c c') : Attributed cfg c' := by
  obtain ⟨ts, ps, h, ht, -⟩ := hs
  rw [h]
  refine ha.same rfl rfl (Nat.le_refl _) List.prefix_rfl fun t => ?_
  obtain ⟨_, _, _, _, hk⟩ := ht t
  dsimp only
  rw [hk]
  rfl

/-- A message is heard by the head of the pipeline, and the last one ends it. -/
theorem replied {c c' : Conn} (ha : Attributed cfg c) (m : BackendMsg)
    (hl : c'.ledger = c.ledger ++ [.reply m])
    (hi : c'.inflight = if m.isReady then c.inflight.tail else c.inflight)
    (hn : c'.nextTask = c.nextTask) (hh : c.history <+: c'.history)
    (hu : ∀ u, c.current ≠ some u → (c'.tasks u).replies = (c.tasks u).replies)
    (ht : ∀ t, c.current = some t → (c'.tasks t).heard = (c.tasks t).heard ++ [m] ∧
      Own cfg c'.history (c'.tasks t).replies)
    (hlt : ∀ t ∈ c.inflight, t < c.nextTask) : Attributed cfg c' := by
  have hheard : ∀ u, c.current ≠ some u → (c'.tasks u).heard = (c.tasks u).heard := fun u hc =>
    (congrArg Replies.heard (hu u hc) :)
  have hown : ∀ t, Own cfg c'.history (c'.tasks t).replies := by
    intro t
    by_cases hc : c.current = some t
    · exact (ht t hc).2
    · rw [hu t hc]
      exact (ha.own t).later hh
  have hfresh : ∀ t, c'.nextTask ≤ t → (c'.tasks t).heard = [] := by
    intro t hle
    rw [hn] at hle
    have hc : c.current ≠ some t := fun hc =>
      absurd (hlt t (List.mem_of_mem_head? hc)) (Nat.not_lt_of_le hle)
    rw [hheard t hc]
    exact ha.fresh t hle
  cases hw : c.inflight with
  | nil =>
    have hw' := ha.waiting
    rw [hw] at hw'
    have hcur : ∀ u, c.current ≠ some u := fun u => by
      unfold Conn.current
      rw [hw]
      simp
    refine ⟨?_, fun t => ?_, hfresh, hown⟩
    · rw [hl, Fifo.run_reply_nil _ hw', hw', hi, hw]
      split
      · rfl
      · rfl
    · rw [hl, Fifo.run_reply_nil _ hw', ha.heard t, hheard t (hcur t)]
  | cons a rest =>
    have hw' := ha.waiting
    rw [hw] at hw'
    have hcur : c.current = some a := by
      unfold Conn.current
      rw [hw]
      rfl
    refine ⟨?_, fun t => ?_, hfresh, hown⟩
    · rw [hl, Fifo.run_reply_cons _ hw', hi, hw]
      rfl
    · rw [hl, Fifo.run_reply_cons _ hw']
      dsimp only
      by_cases hta : t = a
      · subst hta
        rw [Function.update_self, ha.heard, (ht t hcur).1]
      · rw [Function.update_of_ne hta, ha.heard, hheard t]
        rw [hcur, ne_eq, Option.some.injEq]
        exact fun h => hta h.symm

theorem listen {c : Conn} (ha : Attributed cfg c) {m : BackendMsg} (hz : m.isReady = false)
    (hlt : ∀ t ∈ c.inflight, t < c.nextTask) : Attributed cfg (c.listen cfg m) := by
  obtain ⟨ts, h, hu, ht⟩ := @listen_shape cfg c m
  rw [h]
  refine ha.replied m rfl (by rw [hz]; rfl) rfl List.prefix_rfl (fun u hc => ?_) (fun t hc => ?_) hlt
  · dsimp only
    rw [hu u hc]
  · dsimp only
    rw [ht t hc]
    exact ⟨listened_heard _ m, own_listened (ha.own t) m⟩

end Attributed

/-- A task that starts or fails to starts with the fields of the entry it reuses, if any. -/
theorem startTask_own {c : Conn} {t : TaskId} {hasThrown : Bool} (ha : Attributed cfg c)
    {fields : Option (List Field)}
    (hf : fields = (c.tasks t).fields ∨
      ∃ e, c.reusable (c.tasks t) = some e ∧ fields = some e.fields) :
    Own cfg (c.history ++ [c.startMoment t hasThrown])
      { (c.tasks t).replies with fields := fields } := by
  have hk := (ha.own t).later (List.prefix_append c.history [c.startMoment t hasThrown])
  rcases hf with rfl | ⟨e, he, rfl⟩
  · exact hk
  · obtain ⟨hn, hs⟩ := reusable_entry he
    have hmem : c.startMoment t hasThrown ∈ c.history ++ [c.startMoment t hasThrown] :=
      List.mem_append_right _ (List.mem_singleton_self _)
    unfold startMoment at hmem ⊢
    dsimp only at hmem ⊢
    rw [hn] at hmem ⊢
    exact { hk with
      fields := fun fs hfs => by
        obtain rfl := Option.some.inj hfs
        exact .inr (.inr ⟨_, e, _, _, _, hmem, rfl, hs, rfl⟩) }

theorem create_attributed {c : Conn} (ha : Attributed cfg c) (r : Request) :
    Attributed cfg (c.create cfg r) := by
  have hold : ∀ t, t ≠ c.nextTask → (c.create cfg r).tasks t = c.tasks t := fun t ht =>
    Function.update_of_ne ht _ _
  have hnew : ((c.create cfg r).tasks c.nextTask).heard = [] := by
    simp [Conn.create]
  have hheard : ∀ t, ((c.create cfg r).tasks t).heard = (c.tasks t).heard := by
    intro t
    by_cases ht : t = c.nextTask
    · subst ht
      rw [hnew, ha.fresh _ (Nat.le_refl _)]
    · rw [hold t ht]
  refine ha.of_own rfl rfl (Nat.le_succ _) hheard fun t => ?_
  by_cases ht : t = c.nextTask
  · subst ht
    simp only [Conn.create, Function.update_self]
    exact .blank _ _
  · rw [hold t ht]
    exact ha.own t

theorem CancelMove.attributed {c c' : Conn} {h : Option (TaskId × ConnState)}
    (hm : CancelMove cfg c h c') (ha : Attributed cfg c) : Attributed cfg c' := by
  obtain ⟨ts, _, _, _, _, _, h, ht⟩ := hm.shape
  rw [h]
  have hheard : ∀ u, (ts u).heard = (c.tasks u).heard := by
    intro u
    rcases ht u with ht | ht
    · rw [ht]
    · rw [ht]
  refine ha.of_own rfl rfl (Nat.le_refl _) hheard fun u => ?_
  dsimp only
  rcases ht u with ht | ht
  · rw [ht]
    exact ha.own u
  · rw [ht]
    exact (ha.own u).markLate

theorem Attributed.relinks {c c' : Conn} (ha : Attributed cfg c) (hr : Relinks c c') :
    Attributed cfg c' := by
  have ht : ∀ t, (c'.tasks t).replies = (c.tasks t).replies := by
    intro t
    obtain ⟨_, _, _, _, hk⟩ := hr.tasks t
    rw [hk]
    rfl
  have hh : c.history <+: c'.history := by
    obtain ⟨_, h, -⟩ := hr.history
    rw [h]
    exact List.prefix_append ..
  rcases hr.inflight with ⟨hi, hl⟩ | ⟨hi, n, hl⟩
  · exact ha.same hl hi (Nat.le_of_eq hr.nextTask.symm) hh ht
  · refine ⟨?_, fun t => ?_, fun t hle => ?_, fun t => ?_⟩
    · rw [hl, Fifo.run_drops, hi]
    · rw [hl, Fifo.run_drops]
      exact (ha.heard t).trans (congrArg Replies.heard (ht t)).symm
    · rw [hr.nextTask] at hle
      exact (congrArg Replies.heard (ht t)).trans (ha.fresh t hle)
    · rw [ht t]
      exact (ha.own t).later hh

/-- A task starts at the back of the pipeline, or is settled without a reply. -/
theorem startTask_attributed {c : Conn} (ha : Attributed cfg c) (t : TaskId) :
    Attributed cfg (c.startTask cfg t) := by
  have hfields := @serialize_fields cfg c t
  have hup : ∀ (k : Task) (u : TaskId), k.heard = (c.tasks t).heard →
      (Function.update c.tasks t k u).heard = (c.tasks u).heard := by
    intro k u hk
    by_cases hu : u = t
    · subst hu
      rwa [Function.update_self]
    · rw [Function.update_of_ne hu]
  cases hs : (c.serialize cfg t).2 with
  | none =>
    obtain ⟨fields, _, _, _, _, _, _, _, hse, h⟩ := startTask_ok_shape hs
    rw [hse] at hfields
    simp only [Function.update_self] at hfields
    rw [h]
    refine ⟨?_, fun u => ?_, fun u hle => ?_, fun u => ?_⟩
    · rw [Fifo.run_start, ha.waiting]
    · rw [Fifo.run_start]
      refine (ha.heard u).trans (Eq.symm ?_)
      apply hup
      rfl
    · refine Eq.trans ?_ (ha.fresh u hle)
      apply hup
      rfl
    · dsimp only
      by_cases hu : u = t
      · subst hu
        rw [Function.update_self]
        exact startTask_own ha hfields
      · rw [Function.update_of_ne hu]
        exact (ha.own u).later (List.prefix_append ..)
  | some e =>
    obtain ⟨ts, ps, prepared, stale, parses, h, hu, ⟨fields, mp, rf, cn, ht⟩, -⟩ :=
      startTask_throw_shape hs
    have hft := startTask_throw_fields hs
    rw [h] at hft ⊢
    have hreplies : ∀ u, u ≠ t → (ts u).replies = (c.tasks u).replies := by
      intro u hut
      obtain ⟨_, _, _, _, hk⟩ := hu u hut
      rw [hk]
      rfl
    have hrt : (ts t).replies = { (c.tasks t).replies with fields := fields } := by
      obtain ⟨_, _, _, _, hk⟩ := ht
      rw [hk]
      rfl
    have hheard : ∀ u, (ts u).heard = (c.tasks u).heard := by
      intro u
      by_cases hut : u = t
      · subst hut
        exact (congrArg Replies.heard hrt :)
      · exact (congrArg Replies.heard (hreplies u hut) :)
    refine ha.of_own rfl rfl (Nat.le_refl _) hheard fun u => ?_
    dsimp only
    by_cases hut : u = t
    · subst hut
      rw [hrt]
      refine startTask_own ha ?_
      have hf : (ts u).fields = fields := (congrArg Replies.fields hrt :)
      rw [← hf]
      dsimp only at hft
      rw [hft]
      exact hfields
    · rw [hreplies u hut]
      exact (ha.own u).later (List.prefix_append ..)

/-- A retry starts over with an empty record. -/
theorem restart_attributed {c : Conn} (ha : Attributed cfg c) (t : TaskId) :
    Attributed cfg (c.modTask t Task.forRetry) := by
  have hup : ∀ u, (c.modTask t Task.forRetry).tasks u =
      if u = t then (c.tasks t).forRetry else c.tasks u := fun u => by
    simp [Conn.modTask, Function.update_apply]
  refine ha.of_own rfl rfl (Nat.le_refl _) (fun u => ?_) fun u => ?_
  · rw [hup]
    split
    · rename_i hu
      rw [hu]
      rfl
    · rfl
  · rw [hup]
    split
    · have hk := ha.own t
      exact { hk with
        rows := List.nil_sublist _
        fields := fun _ h => (by cases h)
        paramOids := fun _ h => (by cases h)
        command := fun _ h => (by cases h)
        rowCount := fun _ h => (by cases h)
        error := fun _ h => (by cases h) }
    · exact ha.own u

theorem settleFinished_attributed {c : Conn} (ha : Attributed cfg c) (t : TaskId) :
    Attributed cfg (c.settleFinished t) := by
  obtain ⟨ts, ps, h, hu, -, ht⟩ := settleFinished_shape c t
  rw [h]
  refine ha.same rfl rfl (Nat.le_refl _) List.prefix_rfl fun u => ?_
  dsimp only
  by_cases hut : u = t
  · subst hut
    rcases ht with ⟨-, ht⟩ | ⟨-, o, ht, -⟩
    · rw [ht]
    · rw [ht]
      rfl
  · rw [hu u hut]

theorem writeSocket_attributed {c : Conn} (ha : Attributed cfg c) (ps : List Packet) :
    Attributed cfg (c.writeSocket ps) := by
  obtain ⟨_, h, -⟩ := writeSocket_shape c ps
  rw [h]
  exact ha.rest rfl rfl rfl rfl rfl

theorem noteCopyIn_attributed {c : Conn} (ha : Attributed cfg c)
    (hlt : ∀ t ∈ c.inflight, t < c.nextTask) (t : TaskId) : Attributed cfg (c.noteCopyIn cfg t) :=
  (ha.listen (m := .copyInResponse) rfl hlt).same rfl rfl (Nat.le_refl _)
    (List.prefix_append ..) fun _ => rfl

/-- What a task that receives a message has heard. -/
theorem received_own {c : Conn} (ha : Attributed cfg c) (m : BackendMsg) :
    (∀ u, c.current ≠ some u → ((c.receive m).tasks u).replies = (c.tasks u).replies) ∧
      ∀ t, c.current = some t → ((c.receive m).tasks t).heard = (c.tasks t).heard ++ [m] ∧
        Own cfg c.history ((c.receive m).tasks t).replies := by
  obtain ⟨ts, h, hu, ht⟩ := receive_shape c m
  rw [h]
  refine ⟨fun u hc => ?_, fun t hc => ?_⟩
  · dsimp only
    rw [hu u hc]
  · dsimp only
    rw [ht t hc]
    exact ⟨rfl, own_received (ha.own t) m⟩

theorem dialing_attributed {c : Conn} {e : Event} (hd : e.isDialing = true)
    (ha : Attributed cfg c) : Attributed cfg (c.step cfg e) := by
  cases e with
  | connect => exact ha.relinks (connect_relinks c)
  | loopWake l => exact ha.relinks (loopWake_relinks c l)
  | dialed d =>
    change Attributed cfg (c.dialed d)
    obtain ⟨_, _, _, _, _, h, -⟩ := dialed_shape c d
    rw [h]
    exact ha.rest rfl rfl rfl rfl rfl
  | _ => cases hd

/-- **Replies are attributed in order**, whatever moves the connection makes: a ReadyForQuery
that ends an attempt finds nothing in flight. -/
theorem Move.attributed {l : Option BackendMsg} {c c' : Conn} {h h' : Option (TaskId × ConnState)}
    (hm : Move cfg PumpMove l (c, h) (c', h')) (hl : Linked c.link) (hb : Basic (c, h)) (hv : Live (c, h))
    (ha : Attributed cfg c) : Attributed cfg c' := by
  have hlt : ∀ t ∈ c.inflight, t < c.nextTask := fun t ht => hb.fresh t (by simp [places, ht])
  have hnot : ∀ m : BackendMsg, (∀ s, m ≠ .readyForQuery s) → m.isReady = false := by
    intro m hz
    cases m with
    | readyForQuery s => exact absurd rfl (hz s)
    | _ => rfl
  cases hm with
  | gate hm =>
    obtain ⟨_, _, _, _, _, _, _, h⟩ := hm.shape
    rw [h]
    exact ha.rest rfl rfl rfl rfl rfl
  | cancel hm => exact hm.attributed ha
  | pump hm =>
    obtain ⟨_, _, _, h, -⟩ := hm.shape
    rw [h]
    exact ha.rest rfl rfl rfl rfl rfl
  | link hm => exact ha.relinks hm.relinks
  | emit s f =>
    obtain ⟨_, h, -⟩ := writeTo_shape c s [⟨.link, f⟩]
    rw [h]
    exact ha.rest rfl rfl rfl rfl rfl
  | settles hs => exact ha.settles hs
  | refuse r => exact (create_attributed ha r).modTask rfl
  | create r => exact create_attributed ha r
  | quit t e =>
    have hq : Attributed cfg (c.modTask t fun k => { k with settled := true, timer := false }) :=
      ha.modTask rfl
    exact hq.settles (rejectTask_settles _ t e)
  | discard t => exact ha.modTask rfl
  | release | dequeue | enqueue => exact ha.rest rfl rfl rfl rfl rfl
  | @requeue _ t => exact (restart_attributed ha t).rest rfl rfl rfl rfl rfl
  | @finish _ t => exact settleFinished_attributed (ha.settles (clearTimers_settles c t)) t
  | start t rest =>
    have hq : Attributed cfg { c with queue := rest } := ha.rest rfl rfl rfl rfl rfl
    exact startTask_attributed hq t
  | flush =>
    obtain ⟨_, _, _, _, h, -⟩ := flushWrites_shape c
    rw [h]
    exact ha.rest rfl rfl rfl rfl rfl
  | listen m hz =>
    exact ha.listen (hnot m hz) hlt
  | miss m hz =>
    obtain ⟨hu, ht⟩ := received_own ha m
    obtain ⟨_, h, -⟩ := receive_shape c m
    rw [h] at hu ht ⊢
    refine ha.replied m rfl ?_ rfl List.prefix_rfl hu ht hlt
    rw [hnot m hz]
    rfl
  | cache =>
    rcases cacheCurrent_shape c with h | ⟨_, _, _, _, -, -, -, -, h⟩
    · rw [h]
      exact ha
    · rw [h]
      exact ha.same rfl rfl (Nat.le_refl _) (List.prefix_append ..) fun _ => rfl
  | attemptDone status hc =>
    have hi : c.inflight = [] := by
      have hr : c.state ≠ .ready := fun hr => hl.not_connecting hr hc
      exact (hv.quiet hr).1
    obtain ⟨hu, ht⟩ := received_own ha (.readyForQuery status)
    obtain ⟨_, h', -⟩ := receive_shape c (.readyForQuery status)
    obtain ⟨_, _, h, -⟩ := attemptDone_shape (c.receive (.readyForQuery status)) (status.getD 'I')
    rw [h] at ⊢
    rw [h'] at hu ht ⊢
    refine ha.replied (.readyForQuery status) rfl ?_ rfl List.prefix_rfl hu ht hlt
    dsimp only
    rw [hi]
    rfl
  | idle status hc hi =>
    obtain ⟨hu, ht⟩ := received_own ha (.readyForQuery status)
    obtain ⟨_, h, -⟩ := receive_shape c (.readyForQuery status)
    rw [h] at hu ht ⊢
    refine ha.replied (.readyForQuery status) rfl ?_ rfl List.prefix_rfl hu ht hlt
    dsimp only
    rw [hi]
    rfl
  | pop status t rest hc hi =>
    obtain ⟨hu, ht⟩ := received_own ha (.readyForQuery status)
    obtain ⟨_, h, -⟩ := receive_shape c (.readyForQuery status)
    rw [h] at hu ht ⊢
    refine ha.replied (.readyForQuery status) rfl ?_ rfl (List.prefix_append ..) hu
      (fun t hc => ⟨(ht t hc).1, (ht t hc).2.later (List.prefix_append ..)⟩) hlt
    rw [hi]
    rfl
  | copyNone hi =>
    obtain ⟨hu, ht⟩ := received_own ha .copyInResponse
    refine writeSocket_attributed ?_ _
    obtain ⟨_, h, -⟩ := receive_shape c .copyInResponse
    rw [h] at hu ht ⊢
    exact ha.replied .copyInResponse rfl rfl rfl List.prefix_rfl hu ht hlt
  | copyPlain t => exact writeSocket_attributed (noteCopyIn_attributed ha hlt t) _
  | copyPump t =>
    have hn := @noteCopyIn_attributed cfg _ ha hlt t
    have ho : ∀ ps n, Attributed cfg { c.noteCopyIn cfg t with pumps := ps, nextPump := n } :=
      fun _ _ => hn.rest rfl rfl rfl rfl rfl
    exact (ho _ _).modTask rfl
  | copyBoth => exact writeSocket_attributed (ha.listen rfl hlt) _
  | parseFailed =>
    obtain ⟨_, _, h⟩ := noteParseFailure_shape c _
    rw [h]
    exact ha.rest rfl rfl rfl rfl rfl
  | invalidated =>
    obtain ⟨_, _, h⟩ := dropInvalidated_shape c _
    rw [h]
    exact ha.rest rfl rfl rfl rfl rfl

end Conn

end Minipg
