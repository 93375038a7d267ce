import Minipg.Connection.Serializing
import Minipg.Connection.Settling
import Minipg.Connection.Step

/-!
# A task that fails to serialize

A throw in `startTask` rewinds the batch to its mark.  The statement records are not
rewound: an assignment made before the throw stays made.  Which assignments come before a
throw depends on the task and on what the records say about its name, and
`keepsRecords` is the exact condition under which there is none
(`startTask_throw_keeps_iff`).

A cached entry carries the parameter plan of its types from the first time it is needed.
That plan is no record of a message, and `UpToPlan` allows it to appear.
-/

namespace Minipg

/-- `p'` is `p`, except that the parameter plan of one entry may have been compiled. -/
def UpToPlan (cfg : Config) (p p' : String → Option PreparedEntry) : Prop :=
  p' = p ∨ ∃ n e oids, p n = some e ∧ e.paramOids = some oids ∧ e.plan = none ∧
    p' = Function.update p n (some { e with plan := some (Conn.compileParamPlan cfg oids) })

theorem UpToPlan.isSome {cfg : Config} {p p' : String → Option PreparedEntry}
    (h : UpToPlan cfg p p') (n : String) : (p' n).isSome = (p n).isSome := by
  rcases h with rfl | ⟨m, e, _, he, _, _, rfl⟩
  · rfl
  · by_cases hm : n = m
    · subst hm
      simp [he]
    · rw [Function.update_of_ne hm]

/-- Nothing is assigned to the records before a throw: no name is involved, or the cached
statement is reused, or the records say that the name is free or that this very Parse is
on its way. -/
def keepsRecords (k : Task) (entry : Option PreparedEntry) (isStale : Bool)
    (marker : Option String) : Bool :=
  k.copySource || k.copyOut || !k.params.isArray || k.name.isNone ||
    match entry with
    | some e => e.sql == k.sql
    | none => !isStale && (marker.isNone || marker == some (parseKey k.toRequest))

namespace Conn

/-- `c` and `c'` say the same about the statements of the server. -/
structure SameRecords (cfg : Config) (c c' : Conn) : Prop where
  prepared : UpToPlan cfg c.prepared c'.prepared
  stale : c'.staleStatements = c.staleStatements
  parses : c'.parseInflight = c.parseInflight

/-- `keepsRecords`, with what the connection finds under the name of the task. -/
def keepsRecordsOf (c : Conn) (t : TaskId) : Bool :=
  let k := c.tasks t
  keepsRecords k (k.name.bind c.prepared) (k.name.any c.staleStatements)
    (k.name.bind c.parseInflight)

variable {cfg : Config}

theorem SameRecords.of_eq {c c' : Conn} (hp : c'.prepared = c.prepared)
    (hs : c'.staleStatements = c.staleStatements) (hi : c'.parseInflight = c.parseInflight) :
    SameRecords cfg c c' :=
  ⟨.inl hp, hs, hi⟩

/-! ### Reusing a statement -/

/-- `c'` differs from `c` by the records of tasks only. -/
def OnlyTasks (c c' : Conn) : Prop := ∃ ts, c' = { c with tasks := ts }

theorem OnlyTasks.trans {c c' c'' : Conn} (h : OnlyTasks c c') (g : OnlyTasks c' c'') :
    OnlyTasks c c'' := by
  obtain ⟨_, rfl⟩ := h
  obtain ⟨ts, rfl⟩ := g
  exact ⟨ts, rfl⟩

theorem assignMapper_onlyTasks (c : Conn) (t : TaskId) (cols : List CodegenCol) :
    OnlyTasks c (c.assignMapper cfg t cols).1 := by
  unfold assignMapper
  split
  · exact ⟨_, rfl⟩
  · exact ⟨c.tasks, rfl⟩

theorem reuseStatement_onlyTasks (c : Conn) (t : TaskId) (e : PreparedEntry) :
    OnlyTasks c (c.reuseStatement cfg t e).1 := by
  have hf : OnlyTasks c (c.modTask t fun k => { k with fields := some e.fields }) := ⟨_, rfl⟩
  unfold reuseStatement
  dsimp only
  split
  · split
    · exact hf.trans (assignMapper_onlyTasks _ t _)
    · exact hf
  · split
    · exact hf.trans (assignMapper_onlyTasks _ t _)
    · split
      · have hm := @assignMapper_onlyTasks cfg
          (c.modTask t fun k => { k with fields := some e.fields }) t (cfg.resolveCols (List.map
            (fun col => { col with binary := cfg.reuseBinaryOids col.oid })
            (e.fields.map fun f => ({ name := f.name, oid := f.dataTypeOid } : CodegenCol))))
        revert hm
        generalize Conn.assignMapper cfg _ t _ = r
        intro hm
        obtain ⟨c', err⟩ := r
        cases err with
        | none => exact (hf.trans hm).trans ⟨_, rfl⟩
        | some err => exact hf.trans hm
      · exact hf.trans (assignMapper_onlyTasks _ t _)

/-- The name of the task stays, as serialization never assigns it. -/
theorem reuseStatement_name (c : Conn) (t : TaskId) (e : PreparedEntry) :
    ((c.reuseStatement cfg t e).1.tasks t).name = (c.tasks t).name := by
  obtain ⟨_, _, _, _, _, _, _, _, h⟩ := reuseStatement_writes cfg c t e
  rw [h]
  simp

/-- The plan of the parameters may be compiled into the cached entry; nothing else changes. -/
theorem paramPlan_records (c : Conn) (k : Task) {n : String} {e : PreparedEntry}
    (hn : k.name = some n) (he : c.prepared n = some e) :
    SameRecords cfg c (c.paramPlan cfg k (some e)).1 := by
  unfold paramPlan
  split
  · split
    · rename_i e' oids he' ho
      obtain rfl := Option.some.inj he'
      split
      · exact .of_eq rfl rfl rfl
      · rename_i hplan
        rw [hn]
        exact ⟨.inr ⟨n, e, oids, he, ho, hplan, rfl⟩, rfl, rfl⟩
    · exact .of_eq rfl rfl rfl
  · exact .of_eq rfl rfl rfl

/-! ### Parsing a statement

Closing what a name held before is written so that it also fits a name that held nothing. -/

theorem closeRepointed_eq (c : Conn) (t : TaskId) (n : String) : ∃ ps,
    c.closeRepointed t n =
      { c with prepared := Function.update c.prepared n none, outbuf := ps } := by
  unfold closeRepointed
  split
  · exact ⟨_, rfl⟩
  · rename_i h
    rw [Option.not_isSome_iff_eq_none] at h
    exact ⟨c.outbuf, by rw [← h, Function.update_eq_self]⟩

theorem closeStale_eq (c : Conn) (t : TaskId) (n : String) : ∃ ps,
    c.closeStale t n =
      { c with staleStatements := Function.update c.staleStatements n false, outbuf := ps } := by
  unfold closeStale
  split
  · exact ⟨_, rfl⟩
  · rename_i h
    rw [Bool.not_eq_true] at h
    exact ⟨c.outbuf, by rw [← h, Function.update_eq_self]⟩

theorem closeSuperseded_eq (c : Conn) (t : TaskId) (n : String) : ∃ ps,
    c.closeSuperseded t n =
      { c with parseInflight := Function.update c.parseInflight n none, outbuf := ps } := by
  unfold closeSuperseded
  split
  · exact ⟨_, rfl⟩
  · rename_i h
    rw [Option.not_isSome_iff_eq_none] at h
    exact ⟨c.outbuf, by rw [← h, Function.update_eq_self]⟩

/-- The records after the Parse and the Describe, or after a throw on the way. -/
theorem openStatement_records (c : Conn) (t : TaskId) {n : String}
    (hn : (c.tasks t).name = some n) :
    (c.openStatement t).1.prepared = c.prepared ∧
      (c.openStatement t).1.staleStatements = Function.update c.staleStatements n false ∧
      (c.openStatement t).1.parseInflight =
        if c.parseInflight n = some (parseKey (c.tasks t).toRequest) then c.parseInflight
        else Function.update c.parseInflight n none := by
  obtain ⟨ps, hs⟩ := closeStale_eq c t n
  unfold openStatement
  simp only [hn, hs]
  split
  · exact ⟨rfl, rfl, rfl⟩
  · obtain ⟨ps', hp⟩ := closeSuperseded_eq
      { c with staleStatements := Function.update c.staleStatements n false, outbuf := ps } t n
    rw [hp]
    split
    · exact ⟨rfl, rfl, rfl⟩
    · exact ⟨rfl, rfl, rfl⟩

theorem openStatement_unnamed (c : Conn) (t : TaskId) (hn : (c.tasks t).name = none) :
    (c.openStatement t).1.prepared = c.prepared ∧
      (c.openStatement t).1.staleStatements = c.staleStatements ∧
      (c.openStatement t).1.parseInflight = c.parseInflight := by
  unfold openStatement
  simp only [hn]
  split
  · exact ⟨rfl, rfl, rfl⟩
  · exact ⟨rfl, rfl, rfl⟩

/-- Without a cached entry a Bind leaves the records alone. -/
theorem writeBind_fresh (c : Conn) (t : TaskId) :
    ∃ ps, (c.writeBind cfg t none).1 = { c with outbuf := ps } := by
  have hp : (c.paramPlan cfg (c.tasks t) none).1 = c := by
    unfold paramPlan
    split <;> rfl
  unfold writeBind
  dsimp only
  split
  · exact ⟨c.outbuf, hp⟩
  · exact ⟨_, by rw [hp]; rfl⟩

/-- With the cached entry it leaves them alone up to the compiled plan. -/
theorem writeBind_reused (c : Conn) (t : TaskId) {n : String} {e : PreparedEntry}
    (hn : (c.tasks t).name = some n) (he : c.prepared n = some e) :
    SameRecords cfg c (c.writeBind cfg t (some e)).1 := by
  obtain ⟨hp, hs, hi⟩ := @paramPlan_records cfg c (c.tasks t) _ _ hn he
  unfold writeBind
  dsimp only
  split
  · exact ⟨hp, hs, hi⟩
  · exact ⟨hp, hs, hi⟩

/-! ### The throw -/

/-- Reusing a cached statement says nothing new about it. -/
theorem serialize_reuse_records {c : Conn} {t : TaskId} {n : String} {e : PreparedEntry}
    (hn : (c.tasks t).name = some n) (he : c.prepared n = some e) :
    SameRecords cfg c
      ((c.reuseStatement cfg t e).andThen fun c => c.writeBind cfg t (some e)).1 := by
  have hr := @reuseStatement_onlyTasks cfg c t e
  have hw := @reuseStatement_name cfg c t e
  generalize c.reuseStatement cfg t e = r at hr hw
  obtain ⟨c', err⟩ := r
  obtain ⟨ts, rfl⟩ := hr
  cases err with
  | some err => exact .of_eq rfl rfl rfl
  | none =>
    obtain ⟨hp, hs, hi⟩ := @writeBind_reused cfg { c with tasks := ts } t _ _
      (hw.trans hn) he
    exact ⟨hp, hs, hi⟩

/-- After a throw on the way to a new Parse the records are those of the opening. -/
theorem serialize_fresh_shape {c : Conn} {t : TaskId} {e : JsError} {g : Conn → Conn}
    (h : (((c.openStatement t).andThen fun c => c.writeBind cfg t none).andThen
      fun c => (g c, none)).2 = some e) :
    ∃ ps, (((c.openStatement t).andThen fun c => c.writeBind cfg t none).andThen
      fun c => (g c, none)).1 = { (c.openStatement t).1 with outbuf := ps } := by
  generalize c.openStatement t = r at h ⊢
  obtain ⟨c', err⟩ := r
  cases err with
  | some err => exact ⟨c'.outbuf, rfl⟩
  | none =>
    obtain ⟨ps, hps⟩ := @writeBind_fresh cfg c' t
    simp only [Attempted.andThen_ok] at h ⊢
    generalize Conn.writeBind cfg c' t none = r at h hps ⊢
    obtain ⟨c'', err⟩ := r
    cases err with
    | some err => exact ⟨ps, hps⟩
    | none => simp at h

theorem update_eq_iff {α : Type} {f : String → α} {n : String} {a : α} :
    Function.update f n a = f ↔ f n = a := by
  rw [Function.update_eq_iff]
  exact ⟨fun h => h.1.symm, fun h => ⟨h.symm, fun _ _ => rfl⟩⟩

/-- The records of an opening, compared with those before it. -/
theorem openStatement_same_iff {c : Conn} {t : TaskId} {n : String} (ps : List Packet)
    (hn : (c.tasks t).name = some n) :
    SameRecords cfg c { ((c.closeRepointed t n).openStatement t).1 with outbuf := ps } ↔
      c.prepared n = none ∧ c.staleStatements n = false ∧
        (c.parseInflight n = none ∨
          c.parseInflight n = some (parseKey (c.tasks t).toRequest)) := by
  obtain ⟨ps', hc⟩ := closeRepointed_eq c t n
  obtain ⟨hp, hs, hi⟩ := openStatement_records (c.closeRepointed t n) t (n := n)
    (by rw [hc]; exact hn)
  rw [hc] at hp hs hi ⊢
  dsimp only at hp hs hi
  constructor
  · rintro ⟨hprep, hstale, hparse⟩
    dsimp only at hprep hstale hparse
    rw [hs, update_eq_iff] at hstale
    rw [hi] at hparse
    refine ⟨?_, hstale, ?_⟩
    · rw [hp] at hprep
      rcases hprep with hprep | ⟨m, e, _, he, _, _, hprep⟩
      · exact update_eq_iff.mp hprep
      · have hn' := congrFun hprep n
        rw [Function.update_self] at hn'
        by_cases hm : n = m
        · subst hm
          simp at hn'
        · rwa [Function.update_of_ne hm, eq_comm] at hn'
    by_cases hm : c.parseInflight n = some (parseKey (c.tasks t).toRequest)
    · exact .inr hm
    · rw [if_neg hm, update_eq_iff] at hparse
      exact .inl hparse
  · rintro ⟨hprep, hstale, hparse⟩
    refine .of_eq ?_ ?_ ?_
    · dsimp only
      rw [hp, update_eq_iff.mpr hprep]
    · dsimp only
      rw [hs, update_eq_iff.mpr hstale]
    · dsimp only
      rw [hi]
      split
      · rfl
      · rename_i hm
        exact update_eq_iff.mpr (hparse.resolve_right hm)

/-- **Serialization that throws keeps the records exactly when `keepsRecords` says so.** -/
theorem serialize_throw_iff {c : Conn} {t : TaskId} {e : JsError}
    (h : (c.serialize cfg t).2 = some e) :
    SameRecords cfg c (c.serialize cfg t).1 ↔ c.keepsRecordsOf t = true := by
  unfold serialize at h ⊢
  unfold keepsRecordsOf keepsRecords
  dsimp only at h ⊢
  by_cases hcopy : ((c.tasks t).copySource || (c.tasks t).copyOut) = true
  · rw [if_pos hcopy]
    rw [hcopy]
    simp only [Bool.true_or, iff_true]
    split
    · exact .of_eq rfl rfl rfl
    · exact .of_eq rfl rfl rfl
  rw [if_neg hcopy] at h ⊢
  rw [Bool.not_eq_true] at hcopy
  by_cases harr : (!(c.tasks t).params.isArray) = true
  · rw [if_pos harr, hcopy, harr]
    simp only [Bool.true_or, Bool.or_true, iff_true]
    exact .of_eq rfl rfl rfl
  rw [if_neg harr] at h ⊢
  rw [Bool.not_eq_true] at harr
  rw [hcopy, harr]
  simp only [Bool.false_or]
  cases hn : (c.tasks t).name with
  | none =>
    have hr : c.reusable (c.tasks t) = none := by simp [reusable, hn]
    simp only [hr, hn] at h ⊢
    obtain ⟨ps, hps⟩ := serialize_fresh_shape h
    rw [hps]
    simp only [Option.isNone_none, Bool.true_or, iff_true]
    obtain ⟨hp, hs, hi⟩ := openStatement_unnamed c t hn
    exact .of_eq hp hs hi
  | some n =>
    cases hr : c.reusable (c.tasks t) with
    | some entry =>
      simp only [reusable, hn, Option.bind_some, Option.filter_eq_some_iff,
        decide_eq_true_eq] at hr
      simp only [Option.isNone_some, Option.bind_some, hr.1, hr.2, BEq.rfl, Bool.or_true,
        iff_true]
      exact serialize_reuse_records hn hr.1
    | none =>
      simp only [hr, hn] at h ⊢
      obtain ⟨ps, hps⟩ := serialize_fresh_shape h
      rw [hps, openStatement_same_iff ps hn]
      simp only [Option.isNone_some, Bool.false_or, Option.bind_some, Option.any_some]
      cases hpn : c.prepared n with
      | none => simp
      | some entry =>
        have hsql : entry.sql ≠ (c.tasks t).sql := by
          simpa [reusable, hn, hpn] using hr
        simp [hsql]

/-- `c'` is as `c` was for whoever comes next. -/
structure Untouched (cfg : Config) (c c' : Conn) : Prop where
  records : SameRecords cfg c c'
  inflight : c'.inflight = c.inflight
  outbuf : c'.outbuf = c.outbuf

/-- One query at a time; the first one has been described under the name `s`, and a second one
waits that takes the name over and has a NUL in its text. -/
def repointed : List Event :=
  [.connect, .dialed 0, .data 0 [.readyForQuery (some 'I')],
    .submit { sql := "select 1", name := some "s" } none,
    .data 0 [.parseComplete, .parameterDescription (some []), .rowDescription (some [])],
    .submit { sql := "select \x00", name := some "s" } none]

end Conn

end Minipg
