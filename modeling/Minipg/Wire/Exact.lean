import Minipg.Wire.Cutting

/-!
# Wire results are byte-exact

What is read from the spans of a task is always the frames of its statement that were handled so
far (`Collecting`): a span only grows over a frame that is next to it in memory, and memory that is
held is never written again.
-/

namespace Minipg.Spans

/-! ### Segments -/

section Segment

variable {α β : Type*} {isEnd : α → Bool} {a : α} {l : List α}

/-- Another end. -/
theorem segment_end (ha : isEnd a = true) : ∀ k l,
    segment isEnd k (l ++ [a]) = segment isEnd k l := by
  intro k l
  induction l generalizing k with
  | nil => cases k <;> simp [segment, ha]
  | cons b l ih =>
    cases k with
    | zero => rw [List.cons_append, segment, segment, ih]
    | succ k => rw [List.cons_append, segment, segment, ih, ih]

/-- What comes next belongs to the segment that no end has closed. -/
theorem segment_concat (ha : isEnd a = false) : ∀ k l,
    segment isEnd k (l ++ [a]) =
      if l.countP isEnd = k then segment isEnd k l ++ [a] else segment isEnd k l := by
  intro k l
  induction l generalizing k with
  | nil => cases k <;> simp [segment, ha]
  | cons b l ih =>
    by_cases hb : isEnd b = true
    · rw [List.countP_cons_of_pos hb, List.cons_append]
      cases k with
      | zero =>
        rw [segment, segment, if_pos hb, if_pos hb, if_neg (Nat.succ_ne_zero _)]
      | succ k =>
        rw [segment, segment, if_pos hb, if_pos hb, ih]
        simp only [Nat.add_right_cancel_iff]
    · rw [List.countP_cons_of_neg hb, List.cons_append]
      cases k with
      | zero =>
        rw [segment, segment, if_neg hb, if_neg hb, ih]
        split <;> rfl
      | succ k => rw [segment, segment, if_neg hb, if_neg hb, ih]

/-- A segment that is over stays as it is. -/
theorem segment_append {k : Nat} (more : List α) (hk : k < l.countP isEnd) :
    segment isEnd k (l ++ more) = segment isEnd k l := by
  induction l generalizing k with
  | nil => exact absurd hk (Nat.not_lt_zero _)
  | cons b l ih =>
    by_cases hb : isEnd b = true
    · rw [List.countP_cons_of_pos hb] at hk
      cases k with
      | zero => rw [List.cons_append, segment, segment, if_pos hb, if_pos hb]
      | succ k =>
        rw [List.cons_append, segment, segment, if_pos hb, if_pos hb,
          ih (Nat.lt_of_succ_lt_succ hk)]
    · rw [List.countP_cons_of_neg hb] at hk
      cases k with
      | zero => rw [List.cons_append, segment, segment, if_neg hb, if_neg hb, ih hk]
      | succ k => rw [List.cons_append, segment, segment, if_neg hb, if_neg hb, ih hk]

theorem segment_map (f : β → α) : ∀ k l,
    segment isEnd k (l.map f) = (segment (fun b => isEnd (f b)) k l).map f := by
  intro k l
  induction l generalizing k with
  | nil => cases k <;> rfl
  | cons b l ih =>
    cases k with
    | zero =>
      rw [List.map_cons, segment, segment, ih]
      split <;> rfl
    | succ k =>
      rw [List.map_cons, segment, segment, ih, ih]
      split <;> rfl

end Segment

/-- The kept frames of the `k`th statement. -/
def own (k : Nat) (ms : List RawMessage) : List RawMessage :=
  (segment RawMessage.isReady k ms).filter fun m => Conn.isKept m.type

/-- How many statements are answered. -/
def answered (ms : List RawMessage) : Nat := ms.countP RawMessage.isReady

section Own

variable {ms : List RawMessage} {m : RawMessage}

theorem own_of_not_kept (hm : Conn.isKept m.type = false) (k : Nat) :
    own k (ms ++ [m]) = own k ms := by
  cases hz : m.isReady with
  | true => rw [own, own, segment_end hz]
  | false =>
    rw [own, own, segment_concat hz]
    split
    next => rw [List.filter_append, List.filter_singleton, hm]; simp
    next => rfl

theorem own_of_kept (hm : Conn.isKept m.type = true) (k : Nat) :
    own k (ms ++ [m]) = if answered ms = k then own k ms ++ [m] else own k ms := by
  have hz : m.isReady = false := by
    by_contra hz
    have htype : m.type = 'Z' := of_decide_eq_true ((Bool.not_eq_false _).mp hz)
    rw [htype] at hm
    exact absurd hm (by decide)
  rw [own, own, segment_concat hz, ← answered]
  split
  next => rw [List.filter_append, List.filter_singleton, hm]; rfl
  next => rfl

theorem own_append {k : Nat} (hk : k < answered ms) (more : List RawMessage) :
    own k (ms ++ more) = own k ms := by
  rw [own, own, segment_append more hk]

theorem answered_concat :
    answered (ms ++ [m]) = if m.isReady then answered ms + 1 else answered ms := by
  rw [answered, List.countP_append, List.countP_singleton, answered]
  split <;> rfl

end Own

/-! ### Spans -/

/-- The spans of a task, the open one last. -/
def Task.views (t : Task) : List Region := t.wire ++ t.span.toList

/-- What is read from spans. -/
def readAll (mem : Memory UInt8) (rs : List Region) : Bytes := rs.flatMap mem.read

namespace Task

variable {mem : Memory UInt8} {t : Task} {frame : Region}

/-- **A frame is added** to what the spans hold. -/
theorem readAll_collect (t : Task) (frame : Region) :
    readAll mem (t.collect frame).views = readAll mem t.views ++ mem.read frame := by
  rw [collect]
  cases hs : t.span with
  | none => simp [views, readAll, hs]
  | some v =>
    dsimp only
    split
    next hnext =>
      -- the two lie next to each other, so they are read as one
      obtain ⟨buffer, byteOffset, length⟩ := frame
      obtain ⟨hbuffer, hoffset⟩ := hnext
      dsimp only at hbuffer hoffset
      have hread : mem.read ⟨v.buffer, v.byteOffset, v.length + length⟩ =
          mem.read v ++ mem.read ⟨buffer, byteOffset, length⟩ := by
        rw [mem.read_append, hoffset, ← hbuffer, Region.stop]
      simp [views, readAll, hs, hread]
    next => simp [views, readAll, hs]

theorem holds_collect (h : ∀ r ∈ t.views, mem.Holds r) (hframe : mem.Holds frame) :
    ∀ r ∈ (t.collect frame).views, mem.Holds r := by
  rw [collect]
  cases hs : t.span with
  | none =>
    intro r hr
    rw [views, hs, Option.toList_none, List.append_nil] at h
    rcases List.mem_append.mp hr with hr | hr
    · exact h r hr
    · rw [List.mem_singleton.mp hr]
      exact hframe
  | some v =>
    rw [views, hs, Option.toList_some] at h
    have hv : mem.Holds v := h v (List.mem_append_right _ List.mem_cons_self)
    dsimp only
    split
    next hnext =>
      obtain ⟨buffer, byteOffset, length⟩ := frame
      obtain ⟨hbuffer, hoffset⟩ := hnext
      dsimp only at hbuffer hoffset
      rw [hoffset, ← hbuffer, Region.stop] at hframe
      intro r hr
      rcases List.mem_append.mp hr with hr | hr
      · exact h r (List.mem_append_left _ hr)
      · rw [List.mem_singleton.mp hr]
        exact Memory.Holds.append hv hframe
    next =>
      intro r hr
      rcases List.mem_append.mp hr with hr | hr
      · exact h r hr
      · rw [List.mem_singleton.mp hr]
        exact hframe

@[simp] theorem isWire_collect : (t.collect frame).isWire = t.isWire := by
  rw [collect]
  cases t.span with
  | none => rfl
  | some v => dsimp only; split <;> rfl

@[simp] theorem resolved_collect : (t.collect frame).resolved = t.resolved := by
  rw [collect]
  cases t.span with
  | none => rfl
  | some v => dsimp only; split <;> rfl

@[simp] theorem views_close : t.close.views = t.views := by
  rw [close]
  cases hs : t.span with
  | none => rfl
  | some v => simp [views, hs]

theorem views_eq_wire : t.close.wire = t.views := by
  rw [close]
  cases hs : t.span with
  | none => simp [views, hs]
  | some v => simp [views, hs]

@[simp] theorem isWire_close : t.close.isWire = t.isWire := by
  rw [close]
  cases t.span <;> rfl

@[simp] theorem views_finish : t.finish.views = t.views := by
  rw [finish]
  split
  next => exact views_close
  next => rfl

@[simp] theorem isWire_finish : t.finish.isWire = t.isWire := by
  rw [finish]
  split
  next => exact isWire_close
  next => rfl

/-- It resolves with all of the spans. -/
theorem resolved_finish (h : t.resolved = none) {l : List Region}
    (hl : t.finish.resolved = some l) : t.isWire = true ∧ t.views = l := by
  rw [finish] at hl
  split at hl
  next hwire =>
    simp only [Bool.and_eq_true] at hwire
    rw [← Option.some.inj hl, views_eq_wire]
    exact ⟨hwire.1.1, rfl⟩
  next =>
    rw [h] at hl
    cases hl

end Task

/-! ### What is collected -/

theorem Conn.tasks_modify_self (c : Conn) (t : TaskId) (f : Task → Task) :
    (c.modify t f).tasks t = f (c.tasks t) := Function.update_self ..

theorem Conn.tasks_modify_of_ne {c : Conn} {t u : TaskId} {f : Task → Task} (h : u ≠ t) :
    (c.modify t f).tasks u = c.tasks u := Function.update_of_ne h ..

theorem Conn.collect_same (c : Conn) (m : Message) : (c.collect m).heard = c.heard ∧
    (c.collect m).inflight = c.inflight ∧ (c.collect m).isDown = c.isDown := by
  rw [Conn.collect]
  cases c.current with
  | none => exact ⟨rfl, rfl, rfl⟩
  | some t => dsimp only; split <;> exact ⟨rfl, rfl, rfl⟩

theorem Conn.heard_finishTask (c : Conn) : c.finishTask.heard = c.heard := by
  rw [Conn.finishTask]
  split <;> rfl

theorem Conn.heard_react (c : Conn) (type : Char) : (c.react type).heard = c.heard := by
  rw [Conn.react]
  cases c.current with
  | none => rfl
  | some t =>
    dsimp only
    split
    next => rfl
    next => split <;> rfl

theorem Conn.heard_onData (c : Conn) (chunk : Bytes) (place concat : Place) :
    (c.onData chunk place concat).heard = c.heard := by
  rw [Conn.onData]
  dsimp only
  split <;> rfl

/-- The spans of the tasks hold the frames of their statements that were handled; `head` is the
statement at the head of the pipeline. -/
structure CollectingAt (head : TaskId) (c : Conn) : Prop where
  buf : c.mem.Holds c.buf
  cut : ∀ m ∈ c.messages, IsCut c.mem m
  held : ∀ t, ∀ r ∈ (c.tasks t).views, c.mem.Holds r
  kept : ∀ t, (c.tasks t).isWire = true →
    readAll c.mem (c.tasks t).views = (own t c.heard).flatMap frameBytes
  unstarted : ∀ t, c.nextTask ≤ t → own t c.heard = []
  resolved : ∀ t l, (c.tasks t).resolved = some l →
    (c.tasks t).isWire = true ∧ (c.tasks t).views = l ∧ t < head
  pipeline : c.isDown = false → ∃ n, c.inflight = List.range' head n ∧ c.nextTask = head + n
  down : c.isDown = true → c.inflight = [] ∧ c.messages = []
  heard : ∃ more, (Parser.messages.drain c.stream).1 =
      c.heard ++ c.messages.map (Message.raw c.mem) ++ more ∧
    (c.isDown = false → more = [] ∧ c.mem.read c.buf = (Parser.messages.drain c.stream).2)

abbrev Collecting (c : Conn) : Prop := CollectingAt (answered c.heard) c

namespace CollectingAt

variable {c : Conn} {head : TaskId}

/-- A task may change besides its spans. -/
theorem modify (h : CollectingAt head c) {t : TaskId} {f : Task → Task}
    (hviews : (f (c.tasks t)).views = (c.tasks t).views)
    (hwire : (f (c.tasks t)).isWire = (c.tasks t).isWire)
    (hresolved : (f (c.tasks t)).resolved = (c.tasks t).resolved) :
    CollectingAt head (c.modify t f) := by
  have hsame : ∀ u, ((c.modify t f).tasks u).views = (c.tasks u).views ∧
      ((c.modify t f).tasks u).isWire = (c.tasks u).isWire ∧
      ((c.modify t f).tasks u).resolved = (c.tasks u).resolved := by
    intro u
    by_cases hu : u = t
    · subst hu
      rw [Conn.tasks_modify_self]
      exact ⟨hviews, hwire, hresolved⟩
    · rw [Conn.tasks_modify_of_ne hu]
      exact ⟨rfl, rfl, rfl⟩
  refine ⟨h.buf, h.cut, ?_, ?_, h.unstarted, ?_, h.pipeline, h.down, h.heard⟩
  · intro u
    rw [(hsame u).1]
    exact h.held u
  · intro u
    rw [(hsame u).1, (hsame u).2.1]
    exact h.kept u
  · intro u l
    rw [(hsame u).1, (hsame u).2.1, (hsame u).2.2]
    exact h.resolved u l

theorem settle (h : CollectingAt head c) (t : TaskId) : CollectingAt head (c.settle t) :=
  h.modify rfl rfl rfl

theorem react (h : CollectingAt head c) (type : Char) : CollectingAt head (c.react type) := by
  rw [Conn.react]
  cases c.current with
  | none => exact h
  | some t =>
    dsimp only
    split
    next => exact h.modify rfl rfl rfl
    next =>
      split
      next => exact h.modify rfl rfl rfl
      next => exact h

theorem startTask (h : CollectingAt head c) (hlive : c.isDown = false) (isWire : Bool) :
    CollectingAt head (c.startTask isWire) := by
  obtain ⟨n, hinflight, hnext⟩ := h.pipeline hlive
  have hsame : ∀ u, u ≠ c.nextTask → (c.startTask isWire).tasks u = c.tasks u := fun u hu =>
    Function.update_of_ne hu _ _
  have hnew : (c.startTask isWire).tasks c.nextTask = { isWire := isWire } :=
    Function.update_self _ _ _
  refine ⟨h.buf, h.cut, ?_, ?_, ?_, ?_, ?_, ?_, h.heard⟩
  · intro u
    by_cases hu : u = c.nextTask
    · rw [hu, hnew]
      exact fun r hr => absurd hr List.not_mem_nil
    · rw [hsame u hu]
      exact h.held u
  · intro u
    by_cases hu : u = c.nextTask
    · rw [hu, hnew]
      intro _
      show [] = (own c.nextTask c.heard).flatMap frameBytes
      rw [h.unstarted c.nextTask (Nat.le_refl _), List.flatMap_nil]
    · rw [hsame u hu]
      exact h.kept u
  · exact fun u hu => h.unstarted u (Nat.le_of_succ_le hu)
  · intro u l
    by_cases hu : u = c.nextTask
    · rw [hu, hnew]
      exact fun hl => nomatch hl
    · rw [hsame u hu]
      exact h.resolved u l
  · intro _
    refine ⟨n + 1, ?_, ?_⟩
    · show c.inflight ++ [c.nextTask] = _
      rw [hinflight, hnext, List.range'_1_concat]
    · show c.nextTask + 1 = _
      rw [hnext]
      rfl
  · intro hdown
    rw [show (c.startTask isWire).isDown = c.isDown from rfl, hlive] at hdown
    cases hdown

/-- **A message is collected**, if it is one of the current statement. -/
theorem collect (h : CollectingAt (answered c.heard) c) {m : Message} {rest : List Message}
    (hm : c.messages = m :: rest)
    (hanswers : Conn.isKept m.type = true ∨ m.type = 'Z' → c.inflight ≠ []) :
    CollectingAt (answered c.heard)
      ({ c with messages := rest, heard := c.heard ++ [m.raw c.mem] }.collect m) := by
  have hcut : IsCut c.mem m := h.cut m (hm ▸ List.mem_cons_self)
  have hlive : c.isDown = false := by
    by_contra hdown
    have hnil := (h.down ((Bool.not_eq_false _).mp hdown)).2
    rw [hm] at hnil
    cases hnil
  obtain ⟨n, hinflight, hnext⟩ := h.pipeline hlive
  obtain ⟨more, hdrain, hrest⟩ := h.heard
  have hheard : (Parser.messages.drain c.stream).1 =
      (c.heard ++ [m.raw c.mem]) ++ rest.map (Message.raw c.mem) ++ more := by
    rw [hdrain, hm, List.map_cons]
    simp
  have hcuts : ∀ m ∈ rest, IsCut c.mem m := fun m' hm' =>
    h.cut m' (hm ▸ List.mem_cons_of_mem m hm')
  have hdown : c.isDown = true → c.inflight = [] ∧ rest = [] := by
    intro hdown
    rw [hlive] at hdown
    cases hdown
  rw [Conn.collect]
  cases hk : Conn.isKept m.type with
  | false =>
    -- it is none of a statement's frames
    have hown : ∀ t, own t (c.heard ++ [m.raw c.mem]) = own t c.heard :=
      own_of_not_kept (m := m.raw c.mem) hk
    have hsame : CollectingAt (answered c.heard)
        { c with messages := rest, heard := c.heard ++ [m.raw c.mem] } := by
      refine ⟨h.buf, hcuts, h.held, fun t ht => ?_, fun t ht => ?_, h.resolved, h.pipeline, hdown,
        more, hheard, hrest⟩
      · dsimp only
        rw [hown]
        exact h.kept t ht
      · dsimp only
        rw [hown]
        exact h.unstarted t ht
    split
    next =>
      rw [Bool.and_false, if_neg Bool.false_ne_true]
      exact hsame
    next => exact hsame
  | true =>
    obtain ⟨n, rfl⟩ : ∃ k, n = k + 1 := by
      cases n with
      | zero => exact absurd hinflight (hanswers (.inl hk))
      | succ n => exact ⟨n, rfl⟩
    have hown : ∀ t, own t (c.heard ++ [m.raw c.mem]) =
        if answered c.heard = t then own t c.heard ++ [m.raw c.mem] else own t c.heard :=
      own_of_kept (m := m.raw c.mem) hk
    have hunstarted : ∀ t, c.nextTask ≤ t → own t (c.heard ++ [m.raw c.mem]) = [] := by
      intro t ht
      have hlt : answered c.heard < c.nextTask := hnext ▸ Nat.lt_add_of_pos_right n.succ_pos
      rw [hown, if_neg (Nat.lt_of_lt_of_le hlt ht).ne]
      exact h.unstarted t ht
    have hcurrent : c.inflight.head? = some (answered c.heard) := by
      rw [hinflight, List.range'_succ]
      rfl
    rw [Conn.current]
    dsimp only
    rw [hcurrent]
    dsimp only
    rw [Bool.and_true]
    by_cases hwire : (c.tasks (answered c.heard)).isWire = true
    · rw [if_pos hwire]
      generalize hhead : answered c.heard = head at hwire hown hcurrent
      have hself := Conn.tasks_modify_self
        { c with messages := rest, heard := c.heard ++ [m.raw c.mem] } head (·.collect m.frame)
      have hother : ∀ t, t ≠ head → _ := fun t ht => Conn.tasks_modify_of_ne
        (c := { c with messages := rest, heard := c.heard ++ [m.raw c.mem] })
        (f := (·.collect m.frame)) ht
      refine ⟨h.buf, hcuts, fun t => ?_, fun t ht => ?_, hunstarted, fun t l hl => ?_,
        hhead ▸ h.pipeline, hdown, more, hheard, hrest⟩
      · by_cases ht : t = head
        · rw [ht, hself]
          exact Task.holds_collect (h.held head) hcut.held
        · rw [hother t ht]
          exact h.held t
      · show readAll c.mem _ = (own t (c.heard ++ [m.raw c.mem])).flatMap frameBytes
        by_cases heq : t = head
        · rw [heq, hself, Task.readAll_collect, hcut.bytes, hown, if_pos rfl, List.flatMap_append,
            List.flatMap_singleton, ← h.kept head hwire]
        · rw [hother t heq] at ht ⊢
          rw [hown, if_neg (Ne.symm heq)]
          exact h.kept t ht
      · by_cases heq : t = head
        · rw [heq, hself, Task.resolved_collect] at hl
          exact absurd (h.resolved head l hl).2.2 (hhead ▸ Nat.lt_irrefl _)
        · rw [hother t heq] at hl ⊢
          exact hhead ▸ h.resolved t l hl
    · rw [if_neg hwire]
      refine ⟨h.buf, hcuts, h.held, fun t ht => ?_, hunstarted, h.resolved, h.pipeline, hdown,
        more, hheard, hrest⟩
      have hne : answered c.heard ≠ t := fun heq => hwire (heq ▸ ht)
      dsimp only
      rw [hown, if_neg hne]
      exact h.kept t ht

/-- Nothing goes on once the socket is down. -/
theorem onSocketDown (h : CollectingAt head c) {head' : TaskId} (hle : head ≤ head') :
    CollectingAt head' c.onSocketDown := by
  obtain ⟨more, hdrain, -⟩ := h.heard
  refine ⟨h.buf, nofun, h.held, h.kept, h.unstarted, fun t l hl => ?_, nofun,
    fun _ => ⟨rfl, rfl⟩, c.messages.map (Message.raw c.mem) ++ more, ?_, nofun⟩
  · obtain ⟨hwire, hviews, hlt⟩ := h.resolved t l hl
    exact ⟨hwire, hviews, Nat.lt_of_lt_of_le hlt hle⟩
  · refine hdrain.trans ?_
    simp [Conn.onSocketDown]

/-- **The head is finished**, and the next statement is the head. -/
theorem finishTask (h : CollectingAt head c) (hlive : c.isDown = false) (hne : c.inflight ≠ []) :
    CollectingAt (head + 1) c.finishTask := by
  obtain ⟨n, hinflight, hnext⟩ := h.pipeline hlive
  cases n with
  | zero => exact absurd hinflight hne
  | succ n =>
    have hfinish : c.finishTask = { c.modify head Task.finish with
        inflight := List.range' (head + 1) n } := by
      rw [Conn.finishTask, hinflight, List.range'_succ]
    have hself := Conn.tasks_modify_self c head Task.finish
    have hother : ∀ t, t ≠ head → _ := fun t ht =>
      Conn.tasks_modify_of_ne (c := c) (f := Task.finish) ht
    have hopen : (c.tasks head).resolved = none := by
      rw [Option.eq_none_iff_forall_ne_some]
      exact fun l hl => Nat.lt_irrefl _ (h.resolved head l hl).2.2
    rw [hfinish]
    refine ⟨h.buf, h.cut, fun t => ?_, fun t ht => ?_, h.unstarted, fun t l hl => ?_, ?_, ?_,
      h.heard⟩
    · by_cases heq : t = head
      · show ∀ r ∈ ((c.modify head Task.finish).tasks t).views, c.mem.Holds r
        rw [heq, hself, Task.views_finish]
        exact h.held head
      · show ∀ r ∈ ((c.modify head Task.finish).tasks t).views, c.mem.Holds r
        rw [hother t heq]
        exact h.held t
    · show readAll c.mem ((c.modify head Task.finish).tasks t).views = _
      by_cases heq : t = head
      · rw [heq] at ht ⊢
        rw [hself, Task.views_finish]
        exact h.kept head (by rwa [hself, Task.isWire_finish] at ht)
      · rw [hother t heq]
        exact h.kept t (by rwa [hother t heq] at ht)
    · show ((c.modify head Task.finish).tasks t).isWire = true ∧
        ((c.modify head Task.finish).tasks t).views = l ∧ t < head + 1
      by_cases heq : t = head
      · rw [heq] at hl ⊢
        obtain ⟨hwire, hviews⟩ := Task.resolved_finish hopen (by rwa [hself] at hl)
        rw [hself, Task.isWire_finish, Task.views_finish]
        exact ⟨hwire, hviews, Nat.lt_succ_self _⟩
      · rw [hother t heq]
        obtain ⟨hwire, hviews, hlt⟩ := h.resolved t l (by rwa [hother t heq] at hl)
        exact ⟨hwire, hviews, Nat.lt_succ_of_lt hlt⟩
    · exact fun _ => ⟨n, rfl, by show c.nextTask = _; rw [hnext, Nat.add_right_comm]; rfl⟩
    · intro hdown
      have hdown : c.isDown = true := hdown
      rw [hlive] at hdown
      cases hdown

theorem handle {throws : Option TaskId → RawMessage → Bool} (h : Collecting c)
    (hanswers : Answers c .handle) : Collecting (c.handle throws) := by
  rw [Conn.handle]
  cases hm : c.messages with
  | nil => exact h
  | cons m rest =>
    have hhead : Conn.isKept m.type = true ∨ m.type = 'Z' → c.inflight ≠ [] :=
      hanswers m (by rw [hm]; rfl)
    have hlive : c.isDown = false := by
      by_contra hdown
      have hnil := (h.down ((Bool.not_eq_false _).mp hdown)).2
      rw [hm] at hnil
      cases hnil
    have hcollect := h.collect hm hhead
    obtain ⟨hheard, hinflight, hdown⟩ := Conn.collect_same
      { c with messages := rest, heard := c.heard ++ [m.raw c.mem] } m
    dsimp only at hheard hinflight hdown ⊢
    generalize Conn.collect { c with messages := rest, heard := c.heard ++ [m.raw c.mem] } m = kept
      at hcollect hheard hinflight hdown ⊢
    have hanswered : answered kept.heard =
        if (m.raw c.mem).isReady then answered c.heard + 1 else answered c.heard := by
      rw [hheard, answered_concat]
    split
    next =>
      refine hcollect.onSocketDown ?_
      show _ ≤ answered kept.heard
      rw [hanswered]
      split
      next => exact Nat.le_succ _
      next => exact Nat.le_refl _
    next =>
      split
      next hz =>
        have hready : (m.raw c.mem).isReady = true := decide_eq_true hz
        have hfinish := hcollect.finishTask (hdown.trans hlive)
          (hinflight ▸ hhead (.inr hz))
        rw [Collecting, Conn.heard_finishTask, hanswered, if_pos hready]
        exact hfinish
      next hz =>
        have hready : ¬(m.raw c.mem).isReady = true := fun htrue => hz (of_decide_eq_true htrue)
        rw [Collecting, Conn.heard_react, hanswered, if_neg hready]
        exact hcollect.react m.type

/-! ### A chunk -/

/-- Writing where nothing is leaves all that is held. -/
theorem put (h : CollectingAt head c) {buffer byteOffset : Nat} {xs : Bytes}
    (hfree : c.mem.isFree ⟨buffer, byteOffset, xs.length⟩ = true) :
    CollectingAt head { c with mem := c.mem.put buffer byteOffset xs } := by
  have hmap : c.messages.map (Message.raw (c.mem.put buffer byteOffset xs)) =
      c.messages.map (Message.raw c.mem) :=
    List.map_congr_left fun m hm => ((h.cut m hm).put hfree).2
  refine ⟨h.buf.put, fun m hm => ((h.cut m hm).put hfree).1, fun t r hr => (h.held t r hr).put,
    fun t ht => ?_, h.unstarted, h.resolved, h.pipeline, h.down, ?_⟩
  · rw [← h.kept t ht, readAll, readAll]
    exact List.flatMap_congr fun r hr => Memory.read_put (h.held t r hr) hfree
  · obtain ⟨more, hdrain, hrest⟩ := h.heard
    refine ⟨more, ?_, fun hlive => ?_⟩
    · dsimp only
      rw [hmap]
      exact hdrain
    · obtain ⟨hmore, hread⟩ := hrest hlive
      exact ⟨hmore, (Memory.read_put h.buf hfree).trans hread⟩

/-- What is left of the stream and the chunk lie in one buffer. -/
theorem joined (h : CollectingAt head c) {chunk : Bytes} {place concat : Place}
    (hroom : c.hasRoom chunk place concat = true) : ∃ mem buf,
    joined (c.mem.put place.buffer place.byteOffset chunk) c.buf (place.region chunk.length)
        concat = (mem, buf) ∧
      CollectingAt head { c with mem := mem } ∧ mem.Holds buf ∧
      mem.read buf = c.mem.read c.buf ++ chunk := by
  obtain ⟨hplace, hconcat⟩ := Bool.and_eq_true_iff.mp hroom
  have hstored := h.put hplace
  have hchunk : (c.mem.put place.buffer place.byteOffset chunk).read
      (place.region chunk.length) = chunk := Memory.read_put_self
  have hbuf : (c.mem.put place.buffer place.byteOffset chunk).read c.buf = c.mem.read c.buf :=
    Memory.read_put h.buf hplace
  rw [Spans.joined, hchunk, hbuf]
  split
  next =>
    have hlen : (c.mem.read c.buf ++ chunk).length = c.buf.length + chunk.length := by
      rw [List.length_append, Memory.length_read]
    have hregion : concat.region (c.buf.length + (place.region chunk.length).length) =
        ⟨concat.buffer, concat.byteOffset, (c.mem.read c.buf ++ chunk).length⟩ := by
      rw [hlen]
      rfl
    refine ⟨_, _, rfl, hstored.put ?_, ?_, ?_⟩
    · rw [hlen]
      exact hconcat
    · rw [hregion]
      exact Memory.holds_put
    · rw [hregion]
      exact Memory.read_put_self
  next hempty =>
    refine ⟨_, _, rfl, hstored, Memory.holds_put, ?_⟩
    rw [hchunk, Memory.read_empty (not_not.mp hempty), List.nil_append]

theorem onData (h : CollectingAt head c) (hlive : c.isDown = false) (hnil : c.messages = [])
    {chunk : Bytes} {place concat : Place} (hroom : c.hasRoom chunk place concat = true) :
    CollectingAt head (c.onData chunk place concat) := by
  obtain ⟨mem, buf, hjoined, h', hbuf, hread⟩ := h.joined hroom
  obtain ⟨more, hdrain, hrest⟩ := h.heard
  obtain ⟨rfl, hleft⟩ := hrest hlive
  rw [hnil, List.map_nil, List.append_nil, List.append_nil] at hdrain
  have hstream : Parser.messages.drain (c.stream ++ chunk) =
      (c.heard ++ (Parser.messages.drain (mem.read buf)).1,
        (Parser.messages.drain (mem.read buf)).2) := by
    rw [Reader.drain_append, hdrain, ← hleft, ← hread]
  rw [Conn.onData]
  dsimp only
  rw [hjoined]
  dsimp only
  cases hloop : pushLoop mem buf buf.length 0 [] with
  | error e =>
    refine ⟨hbuf, nofun, h'.held, h'.kept, h'.unstarted, h'.resolved, nofun,
      fun _ => ⟨rfl, rfl⟩, (Parser.messages.drain (mem.read buf)).1, ?_, nofun⟩
    show (Parser.messages.drain (c.stream ++ chunk)).1 = c.heard ++ [] ++ _
    rw [hstream, List.append_nil]
  | ok p =>
    obtain ⟨off, out⟩ := p
    obtain ⟨hcut, hoff, hall⟩ := pushLoop_all hbuf hloop
    have hlen : (mem.read buf).length = buf.length := mem.length_read buf
    rw [hall] at hstream
    refine ⟨?_, hcut, h'.held, h'.kept, h'.unstarted, h'.resolved, h'.pipeline, ?_, [], ?_,
      fun _ => ⟨rfl, ?_⟩⟩
    · show mem.Holds (if off = buf.length then emptyBuffer else buf.sub off buf.length)
      split
      next => exact Memory.holds_empty rfl
      next => exact hbuf.sub (Nat.le_refl _)
    · intro hdown
      have hdown : c.isDown = true := hdown
      rw [hlive] at hdown
      cases hdown
    · show (Parser.messages.drain (c.stream ++ chunk)).1 = _
      rw [hstream, List.append_nil]
    · show mem.read (if off = buf.length then emptyBuffer else buf.sub off buf.length) =
        (Parser.messages.drain (c.stream ++ chunk)).2
      rw [hstream]
      split
      next heq =>
        rw [Memory.read_empty rfl, heq, ← hlen, List.drop_length]
      next =>
        rw [read_sub_eq hoff (Nat.le_refl _), subarray, ← hlen, List.take_length]

end CollectingAt

/-! ### Every run -/

theorem collecting {throws : Option TaskId → RawMessage → Bool} {c : Conn}
    (h : (machine throws).Reach Answers Start c) : Collecting c := by
  refine h.invariant (I := Collecting) ?_ ?_
  · rintro c ⟨mem, rfl⟩
    have hnone : Parser.messages.drain [] = ([], []) := Reader.drain_none rfl
    refine ⟨Memory.holds_empty rfl, fun _ hm => absurd hm List.not_mem_nil,
      fun _ _ hr => absurd hr List.not_mem_nil, nofun, fun t _ => ?_, nofun,
      fun _ => ⟨0, rfl, rfl⟩, nofun, [], ?_, fun _ => ⟨rfl, ?_⟩⟩
    · cases t <;> rfl
    · rw [hnone]
      rfl
    · rw [hnone]
      rfl
  · intro c e h he hok
    cases e with
    | start isWire => exact h.startTask (by simpa [machine] using he) isWire
    | data chunk place concat =>
      simp only [machine, Bool.and_eq_true, Bool.not_eq_true', List.isEmpty_iff] at he
      obtain ⟨⟨hlive, hnil⟩, hroom⟩ := he
      show CollectingAt (answered (c.onData chunk place concat).heard) _
      rw [Conn.heard_onData]
      exact h.onData hlive hnil hroom
    | handle => exact h.handle hok
    | settle t => exact h.settle t
    | down => exact h.onSocketDown (Nat.le_refl _)

theorem frameBytes_raw (m : WireMessage) : frameBytes m.raw = m.encode := by
  have htag : UInt8.ofNat (Char.ofNat m.type.toNat).toNat = m.type := by
    rw [toNat_ofNat m.type.toNat_lt, UInt8.ofNat_toNat]
  show UInt8.ofNat (Char.ofNat m.type.toNat).toNat :: (_ ++ _) = m.type :: (_ ++ _)
  rw [htag]
  rfl

/-- The bytes of the frames of a statement. -/
theorem own_raw (t : TaskId) (ms : List WireMessage) :
    (own t (ms.map WireMessage.raw)).flatMap frameBytes =
      (frames t ms).flatMap WireMessage.encode := by
  rw [own, segment_map, List.filter_map, List.flatMap_map, frames]
  exact List.flatMap_congr fun m _ => frameBytes_raw m

/-- **Wire results are byte-exact.**  Whatever chunks the messages come in and wherever these and
what is joined from them lie, a task resolves with spans of which the frames of its own statement
are read, and so it does with the spans of a task in flight, once the messages are handled. -/
theorem wire_exact {throws : Option TaskId → RawMessage → Bool} {c : Conn}
    (h : (machine throws).Reach Answers Start c) {t : TaskId}
    (hwire : (c.tasks t).isWire = true) {ms : List WireMessage} {tail : Bytes}
    (hstream : c.stream = ms.flatMap WireMessage.encode ++ tail)
    (htail : WireMessage.IsPartial tail) :
    (∀ spans, (c.tasks t).resolved = some spans →
        readAll c.mem spans = (frames t ms).flatMap WireMessage.encode) ∧
      (c.isDown = false → c.messages = [] →
        readAll c.mem (c.tasks t).views = (frames t ms).flatMap WireMessage.encode) := by
  have hcollecting := collecting h
  obtain ⟨more, hdrain, hrest⟩ := hcollecting.heard
  have hall : Parser.messages.drain c.stream = (ms.map WireMessage.raw, tail) := by
    rw [hstream]
    exact Reader.drain_items (fun m _ more => m.next_encode more) htail.next.1
  rw [hall] at hdrain
  dsimp only at hdrain
  refine ⟨fun spans hspans => ?_, fun hlive hnil => ?_⟩
  · obtain ⟨-, hviews, hlt⟩ := hcollecting.resolved t spans hspans
    rw [← hviews, hcollecting.kept t hwire, ← own_raw, hdrain, List.append_assoc, own_append hlt]
  · rw [hcollecting.kept t hwire, ← own_raw, hdrain, hnil, (hrest hlive).1, List.map_nil,
      List.append_nil, List.append_nil]

/-- A CommandComplete and a ReadyForQuery. -/
def completed : List WireMessage := [⟨0x43, [0x58, 0], by decide⟩, ⟨0x5A, [0x49], by decide⟩]

/-- The first message is cut in two. -/
def completing : List Event :=
  [.start true, .data [0x43, 0, 0, 0, 6, 0x58] ⟨1, 3⟩ ⟨2, 0⟩,
    .data [0, 0x5A, 0, 0, 0, 5, 0x49] ⟨1, 9⟩ ⟨2, 8⟩, .handle, .handle]

def blank : Conn where
  mem := ⟨fun _ _ => 0, []⟩

theorem wire_exact_completing :
    readAll ((machine fun _ _ => false).exec blank completing).mem [⟨2, 8, 7⟩] =
      (frames 0 completed).flatMap WireMessage.encode := by
  have hstart : (machine fun _ _ => false).Reach Answers Start blank := .start ⟨_, rfl⟩
  have hruns : (machine fun _ _ => false).Runs Answers blank completing := by decide +kernel
  have hwire : (((machine fun _ _ => false).exec blank completing).tasks 0).isWire = true := by
    decide +kernel
  have hstream : ((machine fun _ _ => false).exec blank completing).stream =
      completed.flatMap WireMessage.encode ++ [] := by decide +kernel
  have htail : WireMessage.IsPartial [] := ⟨⟨0x5A, [], by decide⟩, _, rfl, by decide⟩
  exact (wire_exact (hstart.exec hruns) hwire hstream htail).1 _ (by decide +kernel)

end Minipg.Spans
