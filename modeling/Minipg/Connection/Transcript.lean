import Minipg.Connection.Sockets

/-!
# What the copy of a task has written

`copied` are the frames that pumps have written for one task, socket after socket: a
connection only writes to the newest socket that it has adopted.  A transcript `Closes` if
only its last frame may be a terminator, and `IsOpen` says that there is none yet.

Only the callbacks of a pump itself, and a CopyInResponse, write such frames: every other
move `SparesPumps`, which leaves the pumps where they are, told to stop perhaps.
-/

namespace Minipg

/-! ### Transcripts -/

namespace Transcript

variable {α : Type*} {isEnd : α → Bool}

/-- No end among them. -/
def IsOpen (isEnd : α → Bool) (xs : List α) : Prop := ∀ x ∈ xs, isEnd x = false

/-- At most one end, and nothing after it. -/
def Closes (isEnd : α → Bool) (xs : List α) : Prop := IsOpen isEnd xs.dropLast

theorem IsOpen.closes {xs : List α} (h : IsOpen isEnd xs) : Closes isEnd xs :=
  fun x hx => h x (List.mem_of_mem_dropLast hx)

theorem IsOpen.append {xs ys : List α} (h : IsOpen isEnd xs) (g : IsOpen isEnd ys) :
    IsOpen isEnd (xs ++ ys) := by
  intro x hx
  rcases List.mem_append.mp hx with hx | hx
  · exact h x hx
  · exact g x hx

/-- Data, and then one more frame, whichever it is. -/
theorem IsOpen.append_closes {xs ys : List α} (h : IsOpen isEnd xs) (g : Closes isEnd ys) :
    Closes isEnd (xs ++ ys) := by
  rcases List.eq_nil_or_concat ys with rfl | ⟨ys, y, rfl⟩
  · rw [List.append_nil]
    exact h.closes
  · have hys : IsOpen isEnd ys := by
      have := g
      rwa [Closes, List.concat_eq_append, List.dropLast_concat] at this
    unfold Closes
    rw [List.concat_eq_append, ← List.append_assoc, List.dropLast_concat]
    exact h.append hys

/-- Parts one after the other, of which one gets longer and all later ones are empty. -/
theorem flatMap_range_update {β : Type*} {f : ℕ → List β} {s : ℕ} {xs : List β}
    (hlater : ∀ k, s < k → f k = []) :
    ∀ n, s < n → (List.range n).flatMap (Function.update f s (f s ++ xs)) =
      (List.range n).flatMap f ++ xs := by
  intro n
  induction n with
  | zero =>
    intro h
    omega
  | succ n ih =>
    intro hs
    rw [List.range_succ, List.flatMap_append, List.flatMap_append, List.flatMap_singleton,
      List.flatMap_singleton]
    by_cases h : s = n
    · subst h
      have hbefore : (List.range s).flatMap (Function.update f s (f s ++ xs)) =
          (List.range s).flatMap f := by
        apply List.flatMap_congr
        intro k hk
        rw [Function.update_of_ne (Nat.ne_of_lt (List.mem_range.mp hk))]
      rw [hbefore, Function.update_self, List.append_assoc]
    · rw [ih (by omega), Function.update_of_ne (Ne.symm h), hlater n (by omega),
        List.append_nil, List.append_nil]

end Transcript

open Transcript

/-! ### The frames of a copy -/

def isTerminator : Frame → Bool
  | .copyDone | .copyFail _ => true
  | _ => false

/-- The bytes that a frame carries for the copy. -/
def Frame.payload : Frame → Bytes
  | .copyData b => b
  | _ => []

/-- The bytes of all CopyData frames. -/
def payload (fs : List Frame) : Bytes := fs.flatMap Frame.payload

@[simp] theorem payload_append (fs gs : List Frame) :
    payload (fs ++ gs) = payload fs ++ payload gs := List.flatMap_append

/-- The frames that pumps of a task have written among others. -/
def copyFrames (t : TaskId) (ps : List Packet) : List Frame :=
  (ps.filter fun p => p.origin = .pump t).map Packet.frame

theorem copyFrames_append (t : TaskId) (ps qs : List Packet) :
    copyFrames t (ps ++ qs) = copyFrames t ps ++ copyFrames t qs := by
  simp [copyFrames]

theorem copyFrames_pump (t : TaskId) (fs : List Frame) :
    copyFrames t (fs.map (Packet.mk (.pump t))) = fs := by
  induction fs with
  | nil => rfl
  | cons f fs ih =>
    have hrest := ih
    simp only [copyFrames, List.map_cons] at hrest ⊢
    simp [hrest]

/-- Packets that come from elsewhere. -/
theorem copyFrames_other {t : TaskId} {ps : List Packet} (h : ∀ p ∈ ps, p.origin ≠ .pump t) :
    copyFrames t ps = [] := by
  unfold copyFrames
  rw [List.map_eq_nil_iff, List.filter_eq_nil_iff]
  intro p hp
  simpa using h p hp

namespace Conn

/-- All that pumps have written for a task. -/
def copied (c : Conn) (t : TaskId) : List Frame :=
  (List.range c.nextSocket).flatMap fun s => copyFrames t (c.sent s)

/-- A write reaches the server. -/
def isOnline (c : Conn) : Bool :=
  match c.socket with
  | none => false
  | some s => !c.destroyed s

theorem isOnline_iff {c : Conn} :
    c.isOnline = true ↔ ∃ s, c.socket = some s ∧ c.destroyed s = false := by
  unfold isOnline
  split
  · rename_i h
    simp [h]
  · rename_i s h
    simp [h]

/-- No socket is adopted, and a socket that was destroyed stays so. -/
structure Stays (c c' : Conn) : Prop where
  nextSocket : c'.nextSocket = c.nextSocket
  socket : c'.socket = c.socket ∨ c'.socket = none
  destroyed : ∀ s, c.destroyed s = true → c'.destroyed s = true

namespace Stays

theorem of_keeps {c c' : Conn} (h : c.wires.Keeps c'.wires) : Stays c c' where
  nextSocket := h.nextSocket
  socket := h.socket.imp_right And.left
  destroyed := h.destroyed

theorem of_relinks {c c' : Conn} (h : Relinks c c') : Stays c c' where
  nextSocket := h.nextSocket
  socket := h.socket
  destroyed := h.destroyed

theorem live {c c' : Conn} (h : Stays c c') {s : SocketId} (hs : c'.destroyed s = false) :
    c.destroyed s = false := by
  cases hd : c.destroyed s with
  | false => rfl
  | true => exact absurd (h.destroyed s hd) (by simp [hs])

/-- A connection that lets go of its socket does not come back by itself. -/
theorem isOnline {c c' : Conn} (h : Stays c c') (ho : c'.isOnline = true) : c.isOnline = true := by
  rw [isOnline_iff] at ho ⊢
  obtain ⟨s, hs, hd⟩ := ho
  rcases h.socket with hk | hk
  · exact ⟨s, hk.symm.trans hs, h.live hd⟩
  · exact absurd (hk.symm.trans hs) (by simp)

end Stays

/-! ### Moves that write nothing for a copy -/

/-- No step of a pump counts as a move. -/
def NoPump : Conn → Conn → Prop := fun _ _ => False

/-- The pumps stay where they are, told to stop perhaps, and nothing is written for a copy; the
batch holds nothing of a copy. -/
structure SparesPumps (c c' : Conn) : Prop where
  nextPump : c'.nextPump = c.nextPump
  pumps : ∀ p, (c.pumps p).Halts (c'.pumps p)
  sent : (∀ t, copyFrames t c.outbuf = []) →
    ∀ s t, copyFrames t (c'.sent s) = copyFrames t (c.sent s)
  outbuf : (∀ t, copyFrames t c.outbuf = []) → ∀ t, copyFrames t c'.outbuf = []

namespace SparesPumps

theorem refl (c : Conn) : SparesPumps c c where
  nextPump := rfl
  pumps _ := .inl rfl
  sent _ _ _ := rfl
  outbuf h := h

theorem trans {c c' c'' : Conn} (h : SparesPumps c c') (g : SparesPumps c' c'') :
    SparesPumps c c'' where
  nextPump := g.nextPump.trans h.nextPump
  pumps p := (h.pumps p).trans (g.pumps p)
  sent hb s t := (g.sent (h.outbuf hb) s t).trans (h.sent hb s t)
  outbuf hb := g.outbuf (h.outbuf hb)

/-- Nothing of all that is touched. -/
theorem same {c c' : Conn} (hn : c'.nextPump = c.nextPump)
    (hp : ∀ p, (c.pumps p).Halts (c'.pumps p)) (hs : c'.sent = c.sent)
    (ho : c'.outbuf = c.outbuf) : SparesPumps c c' where
  nextPump := hn
  pumps := hp
  sent _ s t := by rw [hs]
  outbuf h := by rwa [ho]

/-- Packets that are not of a copy, on one socket. -/
theorem write {c : Conn} {sent : SocketId → List Packet} {ps : List Packet}
    (hps : ∀ t, copyFrames t ps = [])
    (h : sent = c.sent ∨ ∃ s, sent = Function.update c.sent s (c.sent s ++ ps)) :
    SparesPumps c { c with sent := sent } where
  nextPump := rfl
  pumps _ := .inl rfl
  sent _ k t := by
    show copyFrames t (sent k) = copyFrames t (c.sent k)
    rcases h with h | ⟨s, h⟩
    · rw [h]
    · by_cases hk : k = s
      · rw [h, hk, Function.update_self, copyFrames_append, hps, List.append_nil]
      · rw [h, Function.update_of_ne hk]
  outbuf h := h

theorem of_settles {c c' : Conn} (h : Settles c c') : SparesPumps c c' := by
  obtain ⟨_, _, h, -, hp⟩ := h
  rw [h]
  exact same rfl hp rfl rfl

theorem of_relinks {c c' : Conn} (h : Relinks c c') : SparesPumps c c' where
  nextPump := h.nextPump
  pumps := h.pumps
  sent _ s t := by
    obtain ⟨n, hs, -⟩ := h.sent s
    have hend : copyFrames t (List.replicate n ⟨.link, .terminate⟩) = [] := by
      apply copyFrames_other
      intro p hp
      rw [(List.mem_replicate.mp hp).2]
      simp
    rw [hs, copyFrames_append, hend, List.append_nil]
  outbuf hb t := by
    rcases h.outbuf with ho | ho
    · rw [ho]
      exact hb t
    · rw [ho]
      rfl

end SparesPumps

variable {cfg : Config}

theorem writeSocket_spares (c : Conn) {ps : List Packet} (hps : ∀ t, copyFrames t ps = []) :
    SparesPumps c (c.writeSocket ps) := by
  obtain ⟨sent, h, hs⟩ := writeSocket_shape c ps
  rw [h]
  refine .write hps ?_
  rcases hs with hs | ⟨s, -, -, hs⟩
  · exact .inl hs
  · exact .inr ⟨s, hs⟩

theorem copyFrames_abort (t : TaskId) (u : Option TaskId) (f g : Frame) :
    copyFrames t [⟨.abort u, f⟩, ⟨.abort u, g⟩] = [] :=
  copyFrames_other (by simp)

theorem receive_spares (c : Conn) (m : BackendMsg) : SparesPumps c (c.receive m) := by
  obtain ⟨_, h, -⟩ := receive_shape c m
  rw [h]
  exact .same rfl (fun _ => .inl rfl) rfl rfl

theorem listen_spares (c : Conn) (m : BackendMsg) : SparesPumps c (c.listen cfg m) := by
  obtain ⟨_, h, -⟩ := @listen_shape cfg c m
  rw [h]
  exact .same rfl (fun _ => .inl rfl) rfl rfl

theorem noteCopyIn_spares (c : Conn) (t : TaskId) : SparesPumps c (c.noteCopyIn cfg t) := by
  obtain ⟨_, _, h, -⟩ := @noteCopyIn_shape cfg c t
  rw [h]
  exact .same rfl (fun _ => .inl rfl) rfl rfl

theorem startTask_spares (c : Conn) (t : TaskId) : SparesPumps c (c.startTask cfg t) := by
  cases hs : (c.serialize cfg t).2 with
  | none =>
    obtain ⟨_, _, _, _, _, _, _, fs, -, h⟩ := startTask_ok_shape hs
    rw [h]
    refine { SparesPumps.refl c with outbuf := fun hb u => ?_, pumps := fun _ => .inl rfl }
    show copyFrames u (c.outbuf ++ fs.map (Packet.mk (.start t))) = []
    rw [copyFrames_append, hb, copyFrames_other (by simp)]
    rfl
  | some e =>
    obtain ⟨_, _, _, _, _, h, -, -, -, hp⟩ := startTask_throw_shape hs
    rw [h]
    exact .same rfl hp rfl rfl

theorem flushWrites_spares (c : Conn) : SparesPumps c c.flushWrites := by
  obtain ⟨sent, _, _, _, h, hs⟩ := flushWrites_shape c
  rw [h]
  refine { SparesPumps.refl c with
    pumps := fun _ => .inl rfl, sent := fun hb k t => ?_, outbuf := fun _ _ => rfl }
  show copyFrames t (sent k) = copyFrames t (c.sent k)
  rcases hs with ⟨hs, -⟩ | ⟨s, -, -, hs⟩
  · rw [hs]
  · by_cases hk : k = s
    · rw [hs, hk, Function.update_self, copyFrames_append, hb, List.append_nil]
    · rw [hs, Function.update_of_ne hk]

/-- **A move that is no step of a pump and answers no CopyInResponse spares the pumps.** -/
theorem Move.spares {l : Option BackendMsg} {p q : Point} (hm : Move cfg NoPump l p q)
    (hl : l ≠ some .copyInResponse) : SparesPumps p.1 q.1 := by
  cases hm with
  | gate hm =>
    obtain ⟨_, _, _, _, _, _, _, h⟩ := hm.shape
    rw [h]
    exact .same rfl (fun _ => .inl rfl) rfl rfl
  | cancel hm =>
    obtain ⟨_, _, _, _, _, _, h, -⟩ := hm.shape
    rw [h]
    exact .same rfl (fun _ => .inl rfl) rfl rfl
  | pump hm => exact hm.elim
  | link hm => exact .of_relinks hm.relinks
  | @emit c h s f =>
    obtain ⟨sent, h, hw⟩ := writeTo_shape c s [⟨.link, f⟩]
    show SparesPumps c (c.writeTo s [⟨.link, f⟩])
    rw [h]
    have hps : ∀ t, copyFrames t [⟨.link, f⟩] = [] := fun t => copyFrames_other (by simp)
    refine .write hps ?_
    rcases hw with ⟨-, hw⟩ | ⟨-, hw⟩
    · exact .inl hw
    · exact .inr ⟨s, hw⟩
  | settles hs => exact .of_settles hs
  | refuse | create | discard | release | dequeue | enqueue | requeue =>
    exact .same rfl (fun _ => .inl rfl) rfl rfl
  | @quit c h t e =>
    have hset : SparesPumps c (c.modTask t fun k => { k with settled := true, timer := false }) :=
      .same rfl (fun _ => .inl rfl) rfl rfl
    exact hset.trans (.of_settles (rejectTask_settles _ t e))
  | @finish c t =>
    obtain ⟨_, _, h, -, hp, -⟩ := settleFinished_shape (c.clearTimers t) t
    show SparesPumps c ((c.clearTimers t).settleFinished t)
    rw [h]
    exact .same rfl hp rfl rfl
  | @start c h t rest =>
    have hq : SparesPumps c { c with queue := rest } := .same rfl (fun _ => .inl rfl) rfl rfl
    exact hq.trans (startTask_spares _ t)
  | @flush c => exact flushWrites_spares c
  | @listen c h m => exact listen_spares c m
  | @miss c h m => exact receive_spares c m
  | @cache c =>
    show SparesPumps c c.cacheCurrent
    rcases cacheCurrent_shape c with h | ⟨_, _, _, _, -, -, -, -, h⟩
    · rw [h]
      exact .refl c
    · rw [h]
      exact .same rfl (fun _ => .inl rfl) rfl rfl
  | @attemptDone c status =>
    obtain ⟨_, _, ha, -⟩ := attemptDone_shape (c.receive (.readyForQuery status)) (status.getD 'I')
    show SparesPumps c ((c.receive (.readyForQuery status)).attemptDone (status.getD 'I'))
    rw [ha]
    exact (receive_spares c (.readyForQuery status)).trans
      (.same rfl (fun _ => .inl rfl) rfl rfl)
  | @idle c status | @pop c status =>
    exact (receive_spares c (.readyForQuery status)).trans
      (.same rfl (fun _ => .inl rfl) rfl rfl)
  | copyNone | copyPlain | copyPump => exact absurd rfl hl
  | @copyBoth c =>
    exact (listen_spares c .copyBothResponse).trans
      (writeSocket_spares _ fun t => copyFrames_abort t _ _ _)
  | @parseFailed c t =>
    obtain ⟨_, _, h⟩ := noteParseFailure_shape c t
    show SparesPumps c (c.noteParseFailure t)
    rw [h]
    exact .same rfl (fun _ => .inl rfl) rfl rfl
  | @invalidated c t =>
    obtain ⟨_, _, h⟩ := dropInvalidated_shape c t
    show SparesPumps c (c.dropInvalidated t)
    rw [h]
    exact .same rfl (fun _ => .inl rfl) rfl rfl

theorem Moves.spares {ms : List BackendMsg} {p q : Point} (h : Moves cfg NoPump ms p q)
    (hms : .copyInResponse ∉ ms) : SparesPumps p.1 q.1 := by
  induction h with
  | refl => exact .refl _
  | tail _ hm ih =>
    rw [List.mem_append, not_or] at hms
    refine (ih hms.1).trans (hm.spares ?_)
    intro hl
    apply hms.2
    rw [hl]
    simp

end Conn

end Minipg
