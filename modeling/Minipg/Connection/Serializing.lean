import Minipg.Connection.Serialize

/-!
# What serializing a task touches

`Writes t c c'` says that `c'` differs from `c` by frames of `t` at the end of the batch, by
the four fields of `t` that serialization assigns and by the statement records, whatever
they have become.  Every piece of `serialize` is of that kind, also when it throws
(`serialize_writes`), so a rewind to the mark restores the batch
(`startTask_of_throw`).
-/

namespace Minipg

namespace Conn

/-- `c'` is `c` after a piece of the serialization of `t`. -/
def Writes (t : TaskId) (c c' : Conn) : Prop :=
  ∃ fields mapper rf cacheName prepared stale parses fs,
    c' = { c with
      tasks := Function.update c.tasks t { c.tasks t with
        fields := fields, mapper := mapper, resultFormat := rf, cacheName := cacheName }
      prepared := prepared
      staleStatements := stale
      parseInflight := parses
      outbuf := c.outbuf ++ List.map (Packet.mk (.start t)) fs }

namespace Writes

variable {t : TaskId} {c c' c'' : Conn}

/-- The case in which the task stays as it is. -/
theorem of_eq (pr : String → Option PreparedEntry) (st : String → Bool)
    (pi : String → Option String) (fs : List Frame)
    (h : c' = { c with
      prepared := pr, staleStatements := st, parseInflight := pi
      outbuf := c.outbuf ++ List.map (Packet.mk (.start t)) fs }) : Writes t c c' :=
  ⟨(c.tasks t).fields, (c.tasks t).mapper, (c.tasks t).resultFormat, (c.tasks t).cacheName,
    pr, st, pi, fs, by rw [h, Function.update_eq_self]⟩

theorem refl : Writes t c c :=
  of_eq c.prepared c.staleStatements c.parseInflight [] (by simp)

theorem trans (h : Writes t c c') (g : Writes t c' c'') : Writes t c c'' := by
  obtain ⟨_, _, _, _, _, _, _, fs, rfl⟩ := h
  obtain ⟨a, b, d, e, pr, st, pi, gs, rfl⟩ := g
  exact ⟨a, b, d, e, pr, st, pi, fs ++ gs, by simp⟩

theorem frames (fs : List Frame) : Writes t c (c.write t fs) :=
  of_eq c.prepared c.staleStatements c.parseInflight fs rfl

theorem records (pr : String → Option PreparedEntry) (st : String → Bool)
    (pi : String → Option String) :
    Writes t c { c with prepared := pr, staleStatements := st, parseInflight := pi } :=
  of_eq pr st pi [] (by simp)

theorem task (a : Option (List Field)) (b : Option RowMapper) (d : Option (List Nat))
    (e : Option String) :
    Writes t c (c.modTask t fun k =>
      { k with fields := a, mapper := b, resultFormat := d, cacheName := e }) :=
  ⟨a, b, d, e, c.prepared, c.staleStatements, c.parseInflight, [], by simp [modTask]⟩

theorem andThen {r : Attempted} {f : Conn → Attempted} (hr : Writes t c r.1)
    (hf : ∀ c', Writes t c' (f c').1) : Writes t c (r.andThen f).1 := by
  obtain ⟨c', e⟩ := r
  cases e with
  | none => exact hr.trans (hf c')
  | some e => exact hr

end Writes

variable (cfg : Config)

theorem assignMapper_writes (c : Conn) (t : TaskId) (cols : List CodegenCol) :
    Writes t c (c.assignMapper cfg t cols).1 := by
  unfold assignMapper
  split
  · exact Writes.task _ _ _ _
  · exact .refl

theorem closeRepointed_writes (c : Conn) (t : TaskId) (n : String) :
    Writes t c (c.closeRepointed t n) := by
  unfold closeRepointed
  split
  · exact (Writes.frames _).trans (Writes.records _ _ _)
  · exact .refl

theorem closeStale_writes (c : Conn) (t : TaskId) (n : String) :
    Writes t c (c.closeStale t n) := by
  unfold closeStale
  split
  · exact (Writes.frames _).trans (Writes.records _ _ _)
  · exact .refl

theorem closeSuperseded_writes (c : Conn) (t : TaskId) (n : String) :
    Writes t c (c.closeSuperseded t n) := by
  unfold closeSuperseded
  split
  · exact (Writes.frames _).trans (Writes.records _ _ _)
  · exact .refl

theorem reuseStatement_writes (c : Conn) (t : TaskId) (e : PreparedEntry) :
    Writes t c (c.reuseStatement cfg t e).1 := by
  have hf : Writes t c (c.modTask t fun k => { k with fields := some e.fields }) :=
    Writes.task _ _ _ _
  unfold reuseStatement
  dsimp only
  split
  · split
    · exact hf.trans (assignMapper_writes cfg _ t _)
    · exact hf
  · split
    · exact hf.trans (assignMapper_writes cfg _ t _)
    · split
      · exact hf.trans (Writes.andThen (assignMapper_writes cfg _ t _)
          fun c' => Writes.task _ _ _ _)
      · exact hf.trans (assignMapper_writes cfg _ t _)

theorem openStatement_writes (c : Conn) (t : TaskId) : Writes t c (c.openStatement t).1 := by
  unfold openStatement
  dsimp only
  split
  · split
    · exact .refl
    · exact Writes.frames _
  · rename_i n _
    have hs := closeStale_writes c t n
    split
    · exact hs.trans ((Writes.frames _).trans (Writes.task _ _ _ _))
    · have hp := hs.trans (closeSuperseded_writes _ t n)
      split
      · exact hp
      · exact hp.trans ((Writes.frames _).trans (Writes.task _ _ _ _))

theorem paramPlan_writes (c : Conn) (t : TaskId) (k : Task) (entry : Option PreparedEntry) :
    Writes t c (c.paramPlan cfg k entry).1 := by
  unfold paramPlan
  split
  · split
    · split
      · exact .refl
      · exact Writes.records _ _ _
    · exact .refl
  · exact .refl

theorem writeBind_writes (c : Conn) (t : TaskId) (entry : Option PreparedEntry) :
    Writes t c (c.writeBind cfg t entry).1 := by
  have hp := paramPlan_writes cfg c t (c.tasks t) entry
  unfold writeBind
  dsimp only
  split
  · exact hp
  · exact hp.trans (Writes.frames _)

theorem markParse_writes (c : Conn) (t : TaskId) (parsed : Option String) (key : String) :
    Writes t c (c.markParse parsed key) := by
  unfold markParse
  split
  · exact .refl
  · exact Writes.records _ _ _

/-- **Serialization only appends frames of its task**, and assigns the row decoding and the
cache name of the task and the statement records. -/
theorem serialize_writes (c : Conn) (t : TaskId) : Writes t c (c.serialize cfg t).1 := by
  unfold serialize
  dsimp only
  split
  · split
    · exact .refl
    · exact Writes.frames _
  · split
    · exact .refl
    · split
      · exact Writes.andThen (reuseStatement_writes cfg c t _)
          fun c' => writeBind_writes cfg c' t _
      · refine Writes.andThen (Writes.andThen ?_ fun c' => writeBind_writes cfg c' t _) fun c' => ?_
        · split
          · exact (closeRepointed_writes c t _).trans (openStatement_writes _ t)
          · exact openStatement_writes c t
        · exact markParse_writes c' t _ _

/-! ### A throw -/

variable {cfg}

/-- A throw: the batch is what it was, and the task is rejected. -/
theorem startTask_of_throw {c : Conn} {t : TaskId} {e : JsError}
    (h : (c.serialize cfg t).2 = some e) :
    c.startTask cfg t =
      ({ (c.serialize cfg t).1 with outbuf := c.outbuf }.note
        (c.startMoment t true)).rejectTask t e := by
  obtain ⟨_, _, _, _, _, _, _, fs, hw⟩ := serialize_writes cfg c t
  have hb : (c.serialize cfg t).1.outbuf.take c.outbuf.length = c.outbuf := by
    rw [hw]; exact List.take_left
  unfold startTask
  dsimp only
  rw [show c.serialize cfg t = ((c.serialize cfg t).1, some e) from Prod.ext rfl h]
  simp only [hb]

/-- Without a throw the task joins the pipeline. -/
theorem startTask_of_ok {c : Conn} {t : TaskId} (h : (c.serialize cfg t).2 = none) :
    c.startTask cfg t =
      ({ (c.serialize cfg t).1 with
        inflight := (c.serialize cfg t).1.inflight ++ [t]
        ledger := (c.serialize cfg t).1.ledger ++ [Fifo.Event.start t] }.note
          (c.startMoment t false)).modTask t fun k =>
            { k with timer := k.timeout.isSome } := by
  unfold startTask
  dsimp only
  rw [show c.serialize cfg t = ((c.serialize cfg t).1, none) from Prod.ext rfl h]

end Conn

end Minipg
