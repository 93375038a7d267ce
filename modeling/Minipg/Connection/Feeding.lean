import Minipg.Connection.Transcript

/-!
# A pump and its source

`yielded` are the bytes that the source of a task has yielded in a run, and `Feeding` relates
them to the frames that were written for the task: what a pump has written and what waits in
its open frame is what its source has yielded, until it writes the terminator.  The pump of a
task that is over drops the rest of its source and writes CopyFail.

`acts` is the rule for whatever one pump does; the functions of the pump follow the code.
-/

namespace Minipg

open Transcript

namespace Conn

variable {cfg : Config}

/-! ### What a run gives to a copy -/

/-- The bytes a callback brings for the copy of a task. -/
def yields (c : Conn) (t : TaskId) : Event → Bytes
  | .pumpNext p (.chunk b) => if (c.pumps p).task = t then b else []
  | _ => []

/-- The bytes that the source of a task has yielded. -/
def yielded (c : Conn) (t : TaskId) (es : List Event) : Bytes := es.flatMap (c.yields t)

/-- The source of a task came to its end while the task was neither settled nor failed nor
canceled. -/
def EndedWell (cfg : Config) (es : List Event) (t : TaskId) : Prop :=
  ∃ p es₁ es₂, es = es₁ ++ .pumpNext p .done :: es₂ ∧ ((run cfg es₁).pumps p).task = t ∧
    isOver ((run cfg es₁).tasks t) = false

theorem EndedWell.append {es : List Event} {t : TaskId} (h : EndedWell cfg es t)
    (es' : List Event) : EndedWell cfg (es ++ es') t := by
  obtain ⟨p, es₁, es₂, he, ht, ho⟩ := h
  refine ⟨p, es₁, es₂ ++ es', ?_, ht, ho⟩
  rw [he, List.append_assoc, List.cons_append]

theorem yielded_append (c : Conn) (t : TaskId) (es es' : List Event) :
    c.yielded t (es ++ es') = c.yielded t es ++ c.yielded t es' := List.flatMap_append

/-- What a run has given depends on the tasks of the pumps that it gave to. -/
theorem yielded_congr {c c' : Conn} {t : TaskId} {es : List Event}
    (h : ∀ p b, .pumpNext p (.chunk b) ∈ es →
      ((c'.pumps p).task = t ↔ (c.pumps p).task = t)) : c'.yielded t es = c.yielded t es := by
  apply List.flatMap_congr
  intro e he
  unfold yields
  split
  · rename_i p b
    simp only [h p b he]
  · rfl

theorem yielded_nil {c : Conn} {t : TaskId} {es : List Event}
    (h : ∀ p b, .pumpNext p (.chunk b) ∈ es → (c.pumps p).task ≠ t) : c.yielded t es = [] := by
  unfold yielded
  rw [List.flatMap_eq_nil_iff]
  intro e he
  unfold yields
  split
  · rename_i p b
    rw [if_neg (h p b he)]
  · rfl

/-! ### One pump -/

/-- A copy that no pump goes on with. -/
structure Closed (fs : List Frame) (given : Bytes) (endedWell : Prop) : Prop where
  closes : Transcript.Closes isTerminator fs
  sent : payload fs <+: given
  whole : .copyDone ∈ fs → endedWell ∧ payload fs = given

/-- The frames `fs` of a copy are right for where its pump is suspended. -/
def Sound (c : Conn) (fs : List Frame) (given : Bytes) (endedWell : Prop) (q : Pump) : Prop :=
  match q.phase with
  | .awaiting => IsOpen isTerminator fs ∧ payload fs ++ q.pending = given
  | .resumed false => IsOpen isTerminator fs ∧ q.pending = [] ∧ payload fs = given
  -- a socket that was destroyed before the write takes no bytes, and never drains
  | .draining s false => IsOpen isTerminator fs ∧ q.pending = [] ∧ payload fs <+: given ∧
      (c.destroyed s = false → payload fs = given)
  | .failed _ => IsOpen isTerminator fs ∧ payload fs <+: given ∨
      Closed fs given endedWell ∧ c.isOnline = false
  | .draining _ true | .resumed true | .ended => Closed fs given endedWell

theorem copyDone_not_mem {fs : List Frame} (h : IsOpen isTerminator fs) : .copyDone ∉ fs :=
  fun hm => absurd (h _ hm) (by decide)

/-- A copy without a terminator. -/
theorem Closed.of_open {fs : List Frame} {given : Bytes} {w : Prop}
    (h : IsOpen isTerminator fs) (hs : payload fs <+: given) : Closed fs given w where
  closes := h.closes
  sent := hs
  whole hm := absurd hm (copyDone_not_mem h)

/-- A copy that ends with CopyFail. -/
theorem Closed.of_fail {fs : List Frame} {given : Bytes} {w : Prop} {reason : String}
    (h : IsOpen isTerminator fs) (hs : payload fs <+: given) :
    Closed (fs ++ [.copyFail reason]) given w where
  closes := h.append_closes (fun _ hx => by cases hx)
  sent := by
    rw [payload_append]
    simpa [payload, Frame.payload] using hs
  whole hm := by
    rcases List.mem_append.mp hm with hm | hm
    · exact absurd hm (copyDone_not_mem h)
    · simp at hm

theorem Sound.mono {c c' : Conn} {fs : List Frame} {given : Bytes} {w w' : Prop} {q q' : Pump}
    (h : Sound c fs given w q) (hw : w → w')
    (hd : ∀ s, c'.destroyed s = false → c.destroyed s = false)
    (ho : c'.isOnline = true → c.isOnline = true) (hq : q.Halts q') :
    Sound c' fs given w' q' := by
  have hclosed : Closed fs given w → Closed fs given w' := fun hc =>
    { hc with whole := fun hm => ⟨hw (hc.whole hm).1, (hc.whole hm).2⟩ }
  have hphase : q'.phase = q.phase ∧ q'.pending = q.pending := by
    rcases hq with rfl | rfl
    · exact ⟨rfl, rfl⟩
    · exact ⟨rfl, rfl⟩
  unfold Sound at h ⊢
  rw [hphase.1, hphase.2]
  split at h
  · exact h
  · exact h
  · exact ⟨h.1, h.2.1, h.2.2.1, fun hs => h.2.2.2 (hd _ hs)⟩
  · refine h.imp_right fun hc => ⟨hclosed hc.1, ?_⟩
    rw [← Bool.not_eq_true]
    intro hon
    exact absurd (ho hon) (by simp [hc.2])
  · exact hclosed h
  · exact hclosed h
  · exact hclosed h

/-! ### All pumps -/

/-- **The invariant of copies.**  Every pump is sound, no two feed one task, and what was written
for a copy is on sockets that the connection has adopted, none of them newer than the current
one. -/
structure Feeding (cfg : Config) (es : List Event) (c : Conn) : Prop where
  unborn : ∀ p, c.nextPump ≤ p → (c.pumps p).phase = .ended
  single : ∀ p q, p < c.nextPump → q < c.nextPump → (c.pumps p).task = (c.pumps q).task → p = q
  given : ∀ p b, .pumpNext p (.chunk b) ∈ es → p < c.nextPump
  current : ∀ s, c.socket = some s →
    s < c.nextSocket ∧ ∀ k, s < k → ∀ t, copyFrames t (c.sent k) = []
  unsent : ∀ s, c.nextSocket ≤ s → ∀ t, copyFrames t (c.sent s) = []
  outbuf : ∀ t, copyFrames t c.outbuf = []
  unfed : ∀ t, (∀ p < c.nextPump, (c.pumps p).task ≠ t) → c.copied t = []
  sound : ∀ p < c.nextPump, Sound c (c.copied (c.pumps p).task) (c.yielded (c.pumps p).task es)
    (EndedWell cfg es (c.pumps p).task) (c.pumps p)

theorem feeding_new : Feeding cfg [] {} where
  unborn _ _ := rfl
  single p _ hp := absurd hp (Nat.not_lt_zero p)
  given _ _ hm := absurd hm List.not_mem_nil
  current _ hs := nomatch hs
  unsent _ _ _ := rfl
  outbuf _ := rfl
  unfed _ _ := rfl
  sound p hp := absurd hp (Nat.not_lt_zero p)

theorem Halts_task {q q' : Pump} (h : q.Halts q') : q'.task = q.task ∧ q'.phase = q.phase := by
  rcases h with rfl | rfl
  · exact ⟨rfl, rfl⟩
  · exact ⟨rfl, rfl⟩

section Frame

variable {es : List Event} {c c' : Conn}

theorem SparesPumps.copied (h : SparesPumps c c') (ho : ∀ t, copyFrames t c.outbuf = [])
    (hs : Stays c c') (t : TaskId) : c'.copied t = c.copied t := by
  unfold Conn.copied
  rw [hs.nextSocket]
  exact List.flatMap_congr fun k _ => h.sent ho k t

theorem SparesPumps.yielded (h : SparesPumps c c') (t : TaskId) (es : List Event) :
    c'.yielded t es = c.yielded t es :=
  yielded_congr fun p b _ => by rw [(Halts_task (h.pumps p)).1]

/-- **The frame rule.** -/
theorem Feeding.spared (h : Feeding cfg es c) (hp : SparesPumps c c') (hs : Stays c c') :
    Feeding cfg es c' where
  unborn p hn := by
    rw [(Halts_task (hp.pumps p)).2]
    exact h.unborn p (Nat.le_trans (Nat.le_of_eq hp.nextPump.symm) hn)
  single p q hp' hq' ht := by
    rw [hp.nextPump] at hp' hq'
    rw [(Halts_task (hp.pumps p)).1, (Halts_task (hp.pumps q)).1] at ht
    exact h.single p q hp' hq' ht
  given p b hm := by
    rw [hp.nextPump]
    exact h.given p b hm
  current s hk := by
    rcases hs.socket with hk' | hk'
    · obtain ⟨hlt, hlater⟩ := h.current s (hk'.symm.trans hk)
      refine ⟨Nat.lt_of_lt_of_eq hlt hs.nextSocket.symm, fun k hsk t => ?_⟩
      rw [hp.sent h.outbuf]
      exact hlater k hsk t
    · exact absurd (hk'.symm.trans hk) (by simp)
  unsent s hn t := by
    rw [hp.sent h.outbuf]
    exact h.unsent s (Nat.le_trans (Nat.le_of_eq hs.nextSocket.symm) hn) t
  outbuf := hp.outbuf h.outbuf
  unfed t ht := by
    rw [hp.copied h.outbuf hs]
    refine h.unfed t fun p hlt => ?_
    rw [← (Halts_task (hp.pumps p)).1]
    exact ht p (Nat.lt_of_lt_of_eq hlt hp.nextPump.symm)
  sound p hlt := by
    rw [hp.nextPump] at hlt
    rw [(Halts_task (hp.pumps p)).1, hp.copied h.outbuf hs, hp.yielded]
    exact (h.sound p hlt).mono id (fun _ => hs.live) hs.isOnline (hp.pumps p)

/-- A callback in which no source yields. -/
theorem Feeding.event (h : Feeding cfg es c) {e : Event} (he : ∀ p b, e ≠ .pumpNext p (.chunk b)) :
    Feeding cfg (es ++ [e]) c := by
  have hnone : ∀ t, c.yielded t [e] = [] := by
    intro t
    apply yielded_nil
    intro p b hm
    exact absurd (List.mem_singleton.mp hm).symm (he p b)
  refine { h with given := fun p b hm => ?_, sound := fun p hp => ?_ }
  · rcases List.mem_append.mp hm with hm | hm
    · exact h.given p b hm
    · exact absurd (List.mem_singleton.mp hm).symm (he p b)
  · rw [yielded_append, hnone, List.append_nil]
    exact (h.sound p hp).mono (fun hw => hw.append _) (fun _ hd => hd) id (.inl rfl)

end Frame

/-! ### What one pump does -/

/-- Pump `p` goes on, and writes `fs` for its copy. -/
structure Acts (c : Conn) (p : PumpId) (fs : List Frame) (c' : Conn) : Prop where
  others : ∀ r, r ≠ p → c'.pumps r = c.pumps r
  task : (c'.pumps p).task = (c.pumps p).task
  nextPump : c'.nextPump = c.nextPump
  socket : c'.socket = c.socket
  nextSocket : c'.nextSocket = c.nextSocket
  destroyed : c'.destroyed = c.destroyed
  outbuf : c'.outbuf = c.outbuf
  sent : c'.sent = c.sent ∧ fs = [] ∨ ∃ s, c.socket = some s ∧
    c'.sent = Function.update c.sent s (c.sent s ++ fs.map (Packet.mk (.pump (c.pumps p).task)))

section Acts

variable {es es' : List Event} {c c' : Conn} {p : PumpId} {fs : List Frame}

theorem copyFrames_of_ne {t u : TaskId} (h : t ≠ u) (fs : List Frame) :
    copyFrames t (fs.map (Packet.mk (.pump u))) = [] := by
  apply copyFrames_other
  intro q hq
  obtain ⟨f, -, rfl⟩ := List.mem_map.mp hq
  simpa using Ne.symm h

theorem Acts.pumpTask (ha : Acts c p fs c') (r : PumpId) :
    (c'.pumps r).task = (c.pumps r).task := by
  by_cases hr : r = p
  · rw [hr]
    exact ha.task
  · rw [ha.others r hr]

theorem Acts.sent_other (ha : Acts c p fs c') {t : TaskId} (ht : t ≠ (c.pumps p).task)
    (k : SocketId) : copyFrames t (c'.sent k) = copyFrames t (c.sent k) := by
  rcases ha.sent with ⟨hs, -⟩ | ⟨s, -, hs⟩
  · rw [hs]
  · by_cases hk : k = s
    · rw [hs, hk, Function.update_self, copyFrames_append, copyFrames_of_ne ht, List.append_nil]
    · rw [hs, Function.update_of_ne hk]

theorem Acts.copied_other (ha : Acts c p fs c') {t : TaskId} (ht : t ≠ (c.pumps p).task) :
    c'.copied t = c.copied t := by
  unfold copied
  rw [ha.nextSocket]
  exact List.flatMap_congr fun k _ => ha.sent_other ht k

theorem Acts.copied_self (ha : Acts c p fs c') (h : Feeding cfg es c) :
    c'.copied (c.pumps p).task = c.copied (c.pumps p).task ++ fs := by
  unfold copied
  rw [ha.nextSocket]
  rcases ha.sent with ⟨hs, hfs⟩ | ⟨s, hk, hs⟩
  · rw [hs, hfs, List.append_nil]
  · obtain ⟨hlt, hlater⟩ := h.current s hk
    rw [← flatMap_range_update (fun k hsk => hlater k hsk _) c.nextSocket hlt]
    apply List.flatMap_congr
    intro k _
    rw [hs]
    by_cases hk : k = s
    · rw [hk, Function.update_self, Function.update_self, copyFrames_append, copyFrames_pump]
    · rw [Function.update_of_ne hk, Function.update_of_ne hk]

theorem Acts.isOnline (ha : Acts c p fs c') : c'.isOnline = c.isOnline := by
  unfold Conn.isOnline
  rw [ha.socket, ha.destroyed]

/-- A socket other than the current one gets nothing. -/
theorem Acts.sent_of_ne (ha : Acts c p fs c') {k : SocketId} (hk : c.socket ≠ some k) :
    c'.sent k = c.sent k := by
  rcases ha.sent with ⟨hs, -⟩ | ⟨s, hs', hs⟩
  · rw [hs]
  · rw [hs, Function.update_of_ne]
    rintro rfl
    exact hk hs'

/-- **The rule for one pump**: it is sound again, after callbacks in which no source but its own
has yielded. -/
theorem Feeding.acts (h : Feeding cfg es c) (hp : p < c.nextPump) (ha : Acts c p fs c')
    (hes : ∀ q b, .pumpNext q (.chunk b) ∈ es' → q = p)
    (hs : Sound c (c.copied (c.pumps p).task ++ fs) (c.yielded (c.pumps p).task (es ++ es'))
      (EndedWell cfg (es ++ es') (c.pumps p).task) (c'.pumps p)) :
    Feeding cfg (es ++ es') c' where
  unborn r hr := by
    rw [ha.nextPump] at hr
    rw [ha.others r (Nat.ne_of_gt (Nat.lt_of_lt_of_le hp hr))]
    exact h.unborn r hr
  single q r hq hr ht := by
    rw [ha.nextPump] at hq hr
    rw [ha.pumpTask, ha.pumpTask] at ht
    exact h.single q r hq hr ht
  given q b hm := by
    rw [ha.nextPump]
    rcases List.mem_append.mp hm with hm | hm
    · exact h.given q b hm
    · rwa [hes q b hm]
  current s hk := by
    rw [ha.socket] at hk
    obtain ⟨hlt, hlater⟩ := h.current s hk
    refine ⟨Nat.lt_of_lt_of_eq hlt ha.nextSocket.symm, fun k hsk t => ?_⟩
    rw [ha.sent_of_ne]
    · exact hlater k hsk t
    · rw [hk]
      intro hks
      exact absurd (Option.some.inj hks) (Nat.ne_of_lt hsk)
  unsent s hn t := by
    rw [ha.nextSocket] at hn
    rw [ha.sent_of_ne]
    · exact h.unsent s hn t
    · intro hk
      exact absurd (h.current s hk).1 (Nat.not_lt.mpr hn)
  outbuf t := by
    rw [ha.outbuf]
    exact h.outbuf t
  unfed t ht := by
    rw [ha.copied_other]
    · refine h.unfed t fun r hr => ?_
      rw [← ha.pumpTask]
      exact ht r (Nat.lt_of_lt_of_eq hr ha.nextPump.symm)
    · rw [← ha.task]
      exact Ne.symm (ht p (Nat.lt_of_lt_of_eq hp ha.nextPump.symm))
  sound r hr := by
    rw [ha.nextPump] at hr
    have hyield : ∀ t es, c'.yielded t es = c.yielded t es := fun t es =>
      yielded_congr fun q b _ => by rw [ha.pumpTask]
    have hd : ∀ s, c'.destroyed s = false → c.destroyed s = false := by
      intro s hs'
      rwa [← ha.destroyed]
    rw [ha.pumpTask, hyield]
    by_cases hrp : r = p
    · rw [hrp, ha.copied_self h]
      exact hs.mono id hd (fun ho => ha.isOnline ▸ ho) (.inl rfl)
    · have hne : (c.pumps r).task ≠ (c.pumps p).task := fun ht => hrp (h.single r p hr hp ht)
      have hnone : c.yielded (c.pumps r).task es' = [] := by
        apply yielded_nil
        intro q b hm
        rw [hes q b hm]
        exact Ne.symm hne
      rw [ha.copied_other hne, yielded_append, hnone, List.append_nil, ha.others r hrp]
      exact (h.sound r hr).mono (fun hw => hw.append _) hd (fun ho => ha.isOnline ▸ ho) (.inl rfl)

end Acts

/-! ### The functions of a pump -/

/-- What a flush writes, and where the pump is suspended then. -/
inductive Flushed (c : Conn) (fs : List Frame) (isLast : Bool) : List Frame → PumpPhase → Prop
  | lost (e : JsError) (ho : c.isOnline = false) : Flushed c fs isLast [] (.failed e)
  | refused (s : SocketId) (ho : c.isOnline = false) (hd : c.destroyed s = true) :
      Flushed c fs isLast [] (.draining s isLast)
  | taken (ho : c.isOnline = true) : Flushed c fs isLast fs (.resumed isLast)
  | buffered (s : SocketId) (ho : c.isOnline = true) :
      Flushed c fs isLast fs (.draining s isLast)

section Pumps

variable {es es' : List Event} {c : Conn} {p : PumpId}

/-- One pump changes and writes to the current socket, or to none. -/
theorem update_acts {q : Pump} {sent : SocketId → List Packet} {room : Nat} {fs : List Frame}
    (hq : q.task = (c.pumps p).task)
    (hs : sent = c.sent ∧ fs = [] ∨ ∃ s, c.socket = some s ∧ sent =
      Function.update c.sent s (c.sent s ++ fs.map (Packet.mk (.pump (c.pumps p).task)))) :
    Acts c p fs { c with
      pumps := Function.update c.pumps p q, sent := sent, sockRoom := room } where
  others _ hr := Function.update_of_ne hr _ _
  task := by
    dsimp only
    rwa [Function.update_self]
  nextPump := rfl
  socket := rfl
  nextSocket := rfl
  destroyed := rfl
  outbuf := rfl
  sent := hs

theorem pumpFlush_acts (c : Conn) (p : PumpId) (fs : List Frame) (isLast : Bool) :
    ∃ fs' phase, Flushed c fs isLast fs' phase ∧ Acts c p fs' (c.pumpFlush p fs isLast) ∧
      (c.pumpFlush p fs isLast).pumps p =
        { c.pumps p with pending := [], phase := phase } := by
  cases hk : c.socket with
  | none =>
    have ho : c.isOnline = false := by simp [isOnline, hk]
    refine ⟨[], _, .lost closedError ho, ?_⟩
    have heq : c.pumpFlush p fs isLast = { c with
        pumps := Function.update c.pumps p
          { c.pumps p with pending := [], phase := .failed closedError } } := by
      simp [pumpFlush, modPump, hk]
    rw [heq]
    exact ⟨update_acts rfl (.inl ⟨rfl, rfl⟩), Function.update_self ..⟩
  | some s =>
    by_cases hd : c.destroyed s = true
    · have ho : c.isOnline = false := by simp [isOnline, hk, hd]
      refine ⟨[], _, .refused s ho hd, ?_⟩
      have heq : c.pumpFlush p fs isLast = { c with
          pumps := Function.update c.pumps p
            { c.pumps p with pending := [], phase := .draining s isLast } } := by
        simp [pumpFlush, modPump, writeChecked, hk, hd]
      rw [heq]
      exact ⟨update_acts rfl (.inl ⟨rfl, rfl⟩), Function.update_self ..⟩
    · rw [Bool.not_eq_true] at hd
      have ho : c.isOnline = true := by simp [isOnline, hk, hd]
      have hsent : ∀ phase, (phase = if 0 < c.sockRoom then .resumed isLast else .draining s isLast) →
          c.pumpFlush p fs isLast = { c with
            pumps := Function.update c.pumps p { c.pumps p with pending := [], phase := phase }
            sent := Function.update c.sent s
              (c.sent s ++ fs.map (Packet.mk (.pump (c.pumps p).task)))
            sockRoom := c.sockRoom - 1 } := by
        rintro _ rfl
        simp [pumpFlush, modPump, writeChecked, writeTo, hk, hd]
      by_cases hr : 0 < c.sockRoom
      · refine ⟨fs, _, .taken ho, ?_⟩
        rw [hsent (.resumed isLast) (by rw [if_pos hr])]
        exact ⟨update_acts rfl (.inr ⟨s, hk, rfl⟩), Function.update_self ..⟩
      · refine ⟨fs, _, .buffered s ho, ?_⟩
        rw [hsent (.draining s isLast) (by rw [if_neg hr])]
        exact ⟨update_acts rfl (.inr ⟨s, hk, rfl⟩), Function.update_self ..⟩

theorem pumpCatch_acts (c : Conn) (p : PumpId) (e : JsError) : ∃ fs,
    (fs = [] ∨ c.isOnline = true ∧ fs = [.copyFail ("COPY aborted: " ++ e.message)]) ∧
      Acts c p fs (c.pumpCatch p e) ∧
      (c.pumpCatch p e).pumps p = { c.pumps p with phase := .ended } := by
  obtain ⟨sent, h, hs⟩ := pumpCatch_shape c p e
  rw [h]
  rcases hs with hs | ⟨s, hk, hd, hs⟩
  · exact ⟨[], .inl rfl, update_acts rfl (.inl ⟨hs, rfl⟩), Function.update_self ..⟩
  · exact ⟨_, .inr ⟨isOnline_iff.mpr ⟨s, hk, hd⟩, rfl⟩, update_acts rfl (.inr ⟨s, hk, hs⟩),
      Function.update_self ..⟩

/-- A flush in the loop. -/
theorem Flushed.sound {fs fs' done : List Frame} {phase : PumpPhase} {q : Pump} {given : Bytes}
    {w : Prop} (hf : Flushed c fs false fs' phase) (hopen : IsOpen isTerminator (done ++ fs))
    (heq : payload (done ++ fs) = given) :
    Sound c (done ++ fs') given w { q with pending := [], phase := phase } := by
  have hdone : IsOpen isTerminator done := fun f hm => hopen f (List.mem_append_left _ hm)
  have hpre : payload done <+: given := by
    rw [← heq, payload_append]
    exact List.prefix_append ..
  cases hf with
  | lost e ho =>
    rw [List.append_nil]
    exact .inl ⟨hdone, hpre⟩
  | refused s ho hd =>
    rw [List.append_nil]
    exact ⟨hdone, rfl, hpre, fun hl => absurd (hd.symm.trans hl) (by simp)⟩
  | taken ho => exact ⟨hopen, rfl, heq⟩
  | buffered s ho => exact ⟨hopen, rfl, heq ▸ List.prefix_rfl, fun _ => heq⟩

/-- The last flush. -/
theorem Flushed.sound_last {fs fs' done : List Frame} {phase : PumpPhase} {q : Pump}
    {given : Bytes} {w : Prop} (hf : Flushed c fs true fs' phase)
    (hopen : IsOpen isTerminator done) (hpre : payload done <+: given)
    (hout : c.isOnline = true → Closed (done ++ fs) given w) :
    Sound c (done ++ fs') given w { q with pending := [], phase := phase } := by
  cases hf with
  | lost e ho =>
    rw [List.append_nil]
    exact .inl ⟨hopen, hpre⟩
  | refused s ho hd =>
    rw [List.append_nil]
    exact .of_open hopen hpre
  | taken ho => exact hout ho
  | buffered s ho => exact hout ho

theorem Feeding.flush (h : Feeding cfg es c) (hp : p < c.nextPump)
    (hes : ∀ q b, .pumpNext q (.chunk b) ∈ es' → q = p)
    (hopen : IsOpen isTerminator (c.copied (c.pumps p).task)) {b : Bytes}
    (heq : payload (c.copied (c.pumps p).task) ++ b = c.yielded (c.pumps p).task (es ++ es')) :
    Feeding cfg (es ++ es') (c.pumpFlush p [.copyData b] false) := by
  obtain ⟨fs', phase, hf, ha, hpump⟩ := pumpFlush_acts c p [.copyData b] false
  refine h.acts hp ha hes ?_
  rw [hpump]
  apply hf.sound
  · exact hopen.append (by simp [Transcript.IsOpen, isTerminator])
  · simpa [payload, Frame.payload] using heq

/-- The code after the loop.  A copy is completed only if the source has ended well. -/
theorem Feeding.finish (h : Feeding cfg es c) (hp : p < c.nextPump)
    (hes : ∀ q b, .pumpNext q (.chunk b) ∈ es' → q = p)
    (hopen : IsOpen isTerminator (c.copied (c.pumps p).task))
    (hpre : payload (c.copied (c.pumps p).task) <+: c.yielded (c.pumps p).task (es ++ es'))
    (hwell : isOver (c.tasks (c.pumps p).task) = false → c.isOnline = true →
      EndedWell cfg (es ++ es') (c.pumps p).task ∧
        payload (c.copied (c.pumps p).task) ++ (c.pumps p).pending =
          c.yielded (c.pumps p).task (es ++ es')) :
    Feeding cfg (es ++ es') (c.pumpFinish p) := by
  have hlast : ∀ fs, (c.isOnline = true → Closed (c.copied (c.pumps p).task ++ fs)
        (c.yielded (c.pumps p).task (es ++ es')) (EndedWell cfg (es ++ es') (c.pumps p).task)) →
      Feeding cfg (es ++ es') (c.pumpFlush p fs true) := by
    intro fs hout
    obtain ⟨fs', phase, hf, ha, hpump⟩ := pumpFlush_acts c p fs true
    refine h.acts hp ha hes ?_
    rw [hpump]
    exact hf.sound_last hopen hpre hout
  unfold pumpFinish
  dsimp only
  split
  · exact hlast _ fun _ => .of_fail hopen hpre
  · rename_i hover
    rw [Bool.not_eq_true] at hover
    split
    · rename_i hempty
      rw [List.isEmpty_iff] at hempty
      apply hlast
      intro ho
      obtain ⟨hw, heq⟩ := hwell hover ho
      have hall : payload (c.copied (c.pumps p).task ++ [.copyDone]) =
          c.yielded (c.pumps p).task (es ++ es') := by
        simpa [payload, Frame.payload, hempty] using heq
      exact {
        closes := hopen.append_closes (fun _ hx => by cases hx)
        sent := hall ▸ List.prefix_rfl
        whole := fun _ => ⟨hw, hall⟩ }
    · apply hlast
      intro ho
      obtain ⟨hw, heq⟩ := hwell hover ho
      have hall : payload (c.copied (c.pumps p).task ++ [.copyData (c.pumps p).pending, .copyDone]) =
          c.yielded (c.pumps p).task (es ++ es') := by
        simpa [payload, Frame.payload] using heq
      exact {
        closes := hopen.append_closes (by simp [Transcript.Closes, Transcript.IsOpen, isTerminator])
        sent := hall ▸ List.prefix_rfl
        whole := fun _ => ⟨hw, hall⟩ }

/-- The top of the loop. -/
theorem Feeding.loop (h : Feeding cfg es c) (hp : p < c.nextPump)
    (hes : ∀ q b, .pumpNext q (.chunk b) ∈ es' → q = p)
    (hopen : IsOpen isTerminator (c.copied (c.pumps p).task))
    (heq : payload (c.copied (c.pumps p).task) ++ (c.pumps p).pending =
      c.yielded (c.pumps p).task (es ++ es')) :
    Feeding cfg (es ++ es') (c.pumpLoop p) := by
  unfold pumpLoop
  split
  · rename_i hset
    refine h.finish hp hes hopen (heq ▸ List.prefix_append ..) fun hover => ?_
    simp [isOver, hset] at hover
  · refine h.acts hp (update_acts rfl (.inl ⟨rfl, rfl⟩)) hes ?_
    rw [List.append_nil]
    show Sound c _ _ _ (Function.update c.pumps p { c.pumps p with phase := .awaiting } p)
    rw [Function.update_self]
    exact ⟨hopen, heq⟩

/-- The `catch` of a pump: it has not written a terminator, or nothing takes a second one. -/
theorem Feeding.catches (h : Feeding cfg es c) (hp : p < c.nextPump)
    (hes : ∀ q b, .pumpNext q (.chunk b) ∈ es' → q = p) (e : JsError)
    (hs : IsOpen isTerminator (c.copied (c.pumps p).task) ∧
        payload (c.copied (c.pumps p).task) <+: c.yielded (c.pumps p).task (es ++ es') ∨
      Closed (c.copied (c.pumps p).task) (c.yielded (c.pumps p).task (es ++ es'))
        (EndedWell cfg (es ++ es') (c.pumps p).task) ∧ c.isOnline = false) :
    Feeding cfg (es ++ es') (c.pumpCatch p e) := by
  obtain ⟨fs, hfs, ha, hpump⟩ := pumpCatch_acts c p e
  refine h.acts hp ha hes ?_
  rw [hpump]
  show Closed _ _ _
  rcases hfs with rfl | ⟨ho, rfl⟩
  · rw [List.append_nil]
    rcases hs with ⟨hopen, hpre⟩ | ⟨hclosed, -⟩
    · exact .of_open hopen hpre
    · exact hclosed
  · rcases hs with ⟨hopen, hpre⟩ | ⟨-, hoff⟩
    · exact .of_fail hopen hpre
    · exact absurd (hoff.symm.trans ho) (by simp)

end Pumps

end Conn

end Minipg
