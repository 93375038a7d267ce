import Minipg.Connection.Feeding

/-!
# COPY FROM STDIN through whole runs

`sends_faithfully`: in an orderly run, what was written for the copy of a task is a prefix of
what its source has yielded, with at most one terminator, at the end, and a CopyDone only when
all of the source was sent.

A run is orderly if it stays clear of what the pump does not look after.  A second
CopyInResponse for a task starts a second pump over the source.  A pump that was told to stop
by a rejection finds no flag of its task set and writes CopyDone.  And the `catch` of a pump
writes to the socket that is current by then, even after the terminator.
-/

namespace Minipg

open Transcript

/-- The flush of the terminator waits for this socket. -/
def Pump.awaitsEnd (q : Pump) (s : SocketId) : Bool := q.phase == .draining s true

/-- A flush was rejected, and the pump is about to catch it. -/
def Pump.hasFailed (q : Pump) : Bool :=
  match q.phase with
  | .failed _ => true
  | _ => false

namespace Conn

variable {cfg : Config}

/-- What was written for the copy of a task is what its source has yielded, or the beginning of
it; a CopyDone says that it is all of it, up to the end of the source, and the task was not over
then. -/
structure SendsFaithfully (cfg : Config) (es : List Event) (t : TaskId) : Prop where
  sent : payload ((run cfg es).copied t) <+: (run cfg es).yielded t es
  whole : .copyDone ∈ (run cfg es).copied t → EndedWell cfg es t ∧
    payload ((run cfg es).copied t) = (run cfg es).yielded t es
  closes : Transcript.Closes isTerminator ((run cfg es).copied t)

/-! ### Orderly runs -/

/-- A pump was started for the task. -/
def hasPump (c : Conn) (t : TaskId) : Bool :=
  (List.range c.nextPump).any fun p => (c.pumps p).task == t

/-- The message starts another pump for a task. -/
def restartsCopy (c : Conn) : BackendMsg → Bool
  | .copyInResponse =>
    match c.current with
    | none => false
    | some t => (c.tasks t).copySource && c.hasPump t
  | _ => false

/-- No message of the chunk does, up to one that throws. -/
def copiesOnce (cfg : Config) : Conn → List BackendMsg → Bool
  | _, [] => true
  | c, m :: ms =>
    !c.restartsCopy m &&
      match c.handle cfg m with
      | (c', none) => copiesOnce cfg c' ms
      | (_, some _) => true

def orderly (cfg : Config) (c : Conn) : Event → Bool
  | .data _ chunk => copiesOnce cfg c chunk
  | .pumpNext p .stopped => isOver (c.tasks (c.pumps p).task) || !c.isOnline
  | .socketError s | .socketClose s _ =>
    c.socket == some s || !c.isOnline ||
      (List.range c.nextPump).all fun p => !(c.pumps p).awaitsEnd s
  | .dialed _ => !c.connecting || (List.range c.nextPump).all fun p => !(c.pumps p).hasFailed
  | _ => true

/-- The callbacks of an orderly run. -/
def Orderly (cfg : Config) (c : Conn) (e : Event) : Prop := orderly cfg c e = true

instance (cfg : Config) (c : Conn) (e : Event) : Decidable (Orderly cfg c e) :=
  inferInstanceAs (Decidable (_ = true))

section Callbacks

variable {es : List Event} {c c' : Conn}

/-! ### The callbacks of a pump -/

theorem yielded_chunk (c : Conn) (p : PumpId) (b : Bytes) :
    c.yielded (c.pumps p).task [.pumpNext p (.chunk b)] = b := by
  simp [yielded, yields]

theorem yielded_mute (c : Conn) (t : TaskId) {e : Event}
    (he : ∀ p b, e ≠ .pumpNext p (.chunk b)) : c.yielded t [e] = [] := by
  apply yielded_nil
  intro p b hm
  exact absurd (List.mem_singleton.mp hm).symm (he p b)

/-- A pump that waits for its source has written all but its open frame. -/
theorem Feeding.awaiting (h : Feeding cfg es c) {p : PumpId} (hp : p < c.nextPump)
    (hq : (c.pumps p).phase = .awaiting) : IsOpen isTerminator (c.copied (c.pumps p).task) ∧
      payload (c.copied (c.pumps p).task) ++ (c.pumps p).pending =
        c.yielded (c.pumps p).task es := by
  have hs := h.sound p hp
  unfold Sound at hs
  rwa [hq] at hs

/-- The end of the loop body, once a chunk has joined the open frame. -/
theorem Feeding.joined (h : Feeding cfg es c) {p : PumpId} (hp : p < c.nextPump)
    (hq : (c.pumps p).phase = .awaiting) (e : JsError) : Feeding cfg es
      (if copyChunk ≤ (Frame.copyData (c.pumps p).pending).size then
        if maxFrameLength < (c.pumps p).pending.length + 4 then c.pumpCatch p e
        else c.pumpFlush p [.copyData (c.pumps p).pending] false
      else c.pumpLoop p) := by
  obtain ⟨hopen, heq⟩ := h.awaiting hp hq
  have hes : ∀ q b, .pumpNext q (.chunk b) ∈ ([] : List Event) → q = p :=
    fun _ _ hm => absurd hm List.not_mem_nil
  rw [← List.append_nil es] at heq ⊢
  split
  · split
    · exact h.catches hp hes e (.inl ⟨hopen, heq ▸ List.prefix_append ..⟩)
    · exact h.flush hp hes hopen heq
  · exact h.loop hp hes hopen heq

/-- **The next step of a source.** -/
theorem Feeding.next (h : Feeding cfg es c) (hc : c = run cfg es) {p : PumpId} {step : SourceStep}
    (he : c.enabled (.pumpNext p step) = true) (ho : Orderly cfg c (.pumpNext p step)) :
    Feeding cfg (es ++ [.pumpNext p step]) (c.pumpNext p step) := by
  simp only [enabled, Bool.and_eq_true, beq_iff_eq] at he
  have hp : p < c.nextPump := by
    by_contra hn
    have hend := h.unborn p (Nat.not_lt.mp hn)
    exact absurd (he.1.symm.trans hend) (by simp)
  have hes : ∀ q b, .pumpNext q (.chunk b) ∈ [Event.pumpNext p step] → q = p := by
    intro q b hm
    have := List.mem_singleton.mp hm
    injection this
  obtain ⟨hopen, heq⟩ := h.awaiting hp he.1
  have hpre : payload (c.copied (c.pumps p).task) <+:
      c.yielded (c.pumps p).task (es ++ [.pumpNext p step]) := by
    rw [yielded_append, ← heq, List.append_assoc]
    exact List.prefix_append ..
  cases step with
  | threw e => exact h.catches hp hes e (.inl ⟨hopen, hpre⟩)
  | stopped =>
    refine h.finish hp hes hopen hpre fun hover hon => ?_
    have hor : (isOver (c.tasks (c.pumps p).task) || !c.isOnline) = true := ho
    rw [hover, hon] at hor
    cases hor
  | done =>
    refine h.finish hp hes hopen hpre fun hover _ => ⟨?_, ?_⟩
    · exact ⟨p, es, [], rfl, by rw [← hc], by rw [← hc]; exact hover⟩
    · rw [yielded_append, yielded_mute _ _ (by simp), List.append_nil]
      exact heq
  | chunk b =>
    have hall : payload (c.copied (c.pumps p).task) ++ ((c.pumps p).pending ++ b) =
        c.yielded (c.pumps p).task (es ++ [.pumpNext p (.chunk b)]) := by
      rw [yielded_append, yielded_chunk, ← List.append_assoc, heq]
    unfold pumpNext
    dsimp only
    split
    · rename_i hover
      refine h.finish hp hes hopen hpre fun hno => ?_
      exact absurd (hover.symm.trans hno) (by simp)
    · split
      · rename_i hempty
        obtain rfl := List.isEmpty_iff.mp hempty
        rw [List.append_nil] at hall
        exact h.loop hp hes hopen hall
      · -- the chunk joins the open frame, which may be flushed then
        have ha : Acts c p [] (c.modPump p fun q => { q with pending := q.pending ++ b }) :=
          update_acts rfl (.inl ⟨rfl, rfl⟩)
        have hpump : (c.modPump p fun q => { q with pending := q.pending ++ b }).pumps p =
            { c.pumps p with pending := (c.pumps p).pending ++ b } := Function.update_self ..
        have hjoin := h.acts hp ha hes (by
          rw [List.append_nil, hpump]
          unfold Sound
          dsimp only
          rw [he.1]
          exact ⟨hopen, hall⟩)
        refine hjoin.joined hp ?_ _
        rw [hpump]
        exact he.1

/-- A pump goes on after a flush. -/
theorem Feeding.resume (h : Feeding cfg es c) {p : PumpId}
    (he : c.enabled (.pumpResume p) = true) : Feeding cfg es (c.pumpResume p) := by
  have hp : p < c.nextPump := by
    by_contra hn
    have hend := h.unborn p (Nat.not_lt.mp hn)
    simp [enabled, hend] at he
  have hs := h.sound p hp
  have hes : ∀ q b, .pumpNext q (.chunk b) ∈ ([] : List Event) → q = p :=
    fun _ _ hm => absurd hm List.not_mem_nil
  unfold Sound at hs
  rw [← List.append_nil es] at hs ⊢
  unfold pumpResume
  split
  · rename_i hq
    rw [hq] at hs
    refine h.loop hp hes hs.1 ?_
    rw [hs.2.1, List.append_nil]
    exact hs.2.2
  · rename_i hq
    rw [hq] at hs
    refine h.acts hp (update_acts rfl (.inl ⟨rfl, rfl⟩)) hes ?_
    rw [List.append_nil]
    show Sound c _ _ _ (Function.update c.pumps p { c.pumps p with phase := .ended } p)
    rw [Function.update_self]
    exact hs
  · rename_i e hq
    rw [hq] at hs
    exact h.catches hp hes e hs
  · rw [List.append_nil]
    exact h

/-- The listeners of a socket wake its pumps, each of which is sound where it is then. -/
theorem Feeding.wake (h : Feeding cfg es c) (s : SocketId) (f : Bool → PumpPhase)
    (hf : ∀ p < c.nextPump, ∀ isLast, (c.pumps p).phase = .draining s isLast →
      Sound c (c.copied (c.pumps p).task) (c.yielded (c.pumps p).task es)
        (EndedWell cfg es (c.pumps p).task) { c.pumps p with phase := f isLast }) :
    Feeding cfg es (c.wakePumps s f) := by
  obtain ⟨ps, heq, hps⟩ := wakePumps_shape c s f
  have htask : ∀ p, (ps p).task = (c.pumps p).task := by
    intro p
    rcases hps p with hp | ⟨_, -, hp⟩
    · rw [hp]
    · rw [hp]
  rw [heq]
  exact {
    unborn := fun p hn => by
      have hend := h.unborn p hn
      rcases hps p with hp | ⟨_, hd, -⟩
      · show (ps p).phase = .ended
        rw [hp]
        exact hend
      · exact absurd (hd.symm.trans hend) (by simp)
    single := fun p q hp hq ht => by
      have ht : (ps p).task = (ps q).task := ht
      rw [htask, htask] at ht
      exact h.single p q hp hq ht
    given := h.given
    current := h.current
    unsent := h.unsent
    outbuf := h.outbuf
    unfed := fun t ht => h.unfed t fun p hp => by
      rw [← htask]
      exact ht p hp
    sound := fun p hp => by
      have hy : ∀ t, ({ c with pumps := ps } : Conn).yielded t es = c.yielded t es := fun t =>
        yielded_congr fun q b _ => by
          show (ps q).task = t ↔ _
          rw [htask]
      show Sound c (c.copied (ps p).task) _ _ (ps p)
      rw [hy, htask]
      rcases hps p with hp' | ⟨isLast, hd, hp'⟩
      · rw [hp']
        exact h.sound p hp
      · rw [hp']
        exact hf p hp isLast hd }

/-- A socket that drains wakes pumps that wrote to it while it was there. -/
theorem Feeding.drained (h : Feeding cfg es c) (hp : SparesPumps c c') (hs : Stays c c')
    {s : SocketId} (hlive : c.destroyed s = false) :
    Feeding cfg es (c'.wakePumps s .resumed) := by
  refine (h.spared hp hs).wake s _ fun p hlt isLast hd => ?_
  rw [hp.nextPump] at hlt
  obtain ⟨ht, hph⟩ := Halts_task (hp.pumps p)
  have hs' := h.sound p hlt
  rw [hph] at hd
  rw [ht, hp.copied h.outbuf hs, hp.yielded]
  have hpend : (c'.pumps p).pending = (c.pumps p).pending := by
    rcases hp.pumps p with h' | h'
    · rw [h']
    · rw [h']
  unfold Sound at hs' ⊢
  rw [hd] at hs'
  cases isLast with
  | false =>
    dsimp only at hs' ⊢
    rw [hpend]
    exact ⟨hs'.1, hs'.2.1, hs'.2.2.2 hlive⟩
  | true => exact hs'

/-- A socket that ends fails the pumps that wait for it. -/
theorem Feeding.undrained (h : Feeding cfg es c) {s : SocketId} {e : JsError}
    (ho : c.isOnline = false ∨ ∀ p < c.nextPump, (c.pumps p).phase ≠ .draining s true) :
    Feeding cfg es (c.wakePumps s fun _ => .failed e) := by
  refine h.wake s _ fun p hlt isLast hd => ?_
  have hs := h.sound p hlt
  unfold Sound at hs ⊢
  rw [hd] at hs
  cases isLast with
  | false => exact .inl ⟨hs.1, hs.2.2.1⟩
  | true =>
    rcases ho with ho | ho
    · exact .inr ⟨hs, ho⟩
    · exact absurd hd (ho p hlt)

/-! ### Messages -/

theorem hasPump_eq_false {c : Conn} {t : TaskId} (h : c.hasPump t = false) :
    ∀ p < c.nextPump, (c.pumps p).task ≠ t := by
  intro p hp ht
  simp only [hasPump, List.any_eq_false, List.mem_range, beq_iff_eq] at h
  exact h p hp ht

/-- A pump of a task that had none. -/
theorem Feeding.opened (h : Feeding cfg es c) {t : TaskId}
    (ht : ∀ p < c.nextPump, (c.pumps p).task ≠ t) : Feeding cfg es (c.openPump t) := by
  have hnew : (c.openPump t).pumps c.nextPump = { task := t, phase := .awaiting } :=
    Function.update_self ..
  have hold : ∀ p, p ≠ c.nextPump → (c.openPump t).pumps p = c.pumps p :=
    fun p hp => Function.update_of_ne hp _ _
  have hlt : ∀ p, p < c.nextPump → (c.openPump t).pumps p = c.pumps p :=
    fun p hp => hold p (Nat.ne_of_lt hp)
  have hcases : ∀ p, p < (c.openPump t).nextPump → p < c.nextPump ∨ p = c.nextPump :=
    fun p hp => Nat.lt_succ_iff_lt_or_eq.mp hp
  have hy : ∀ u, (c.openPump t).yielded u es = c.yielded u es := fun u =>
    yielded_congr fun q b hm => by rw [hlt q (h.given q b hm)]
  have hmute : c.yielded t es = [] := yielded_nil fun q b hm => ht q (h.given q b hm)
  exact {
    unborn := fun p hp => by
      have hp : c.nextPump < p := hp
      rw [hold p (Nat.ne_of_gt hp)]
      exact h.unborn p (Nat.le_of_lt hp)
    single := fun p q hp hq he => by
      rcases hcases p hp with hp | rfl
      · rcases hcases q hq with hq | rfl
        · rw [hlt p hp, hlt q hq] at he
          exact h.single p q hp hq he
        · rw [hlt p hp, hnew] at he
          exact absurd he (ht p hp)
      · rcases hcases q hq with hq | rfl
        · rw [hlt q hq, hnew] at he
          exact absurd he.symm (ht q hq)
        · rfl
    given := fun p b hm => Nat.lt_succ_of_lt (h.given p b hm)
    current := h.current
    unsent := h.unsent
    outbuf := h.outbuf
    unfed := fun u hu => h.unfed u fun p hp => by
      rw [← hlt p hp]
      exact hu p (Nat.lt_succ_of_lt hp)
    sound := fun p hp => by
      rw [hy]
      rcases hcases p hp with hp | rfl
      · rw [hlt p hp]
        exact h.sound p hp
      · rw [hnew]
        show IsOpen isTerminator (c.copied t) ∧ payload (c.copied t) ++ [] = c.yielded t es
        rw [h.unfed t ht, hmute]
        exact ⟨fun _ hx => absurd hx List.not_mem_nil, rfl⟩ }

theorem stays_of_wires (h : c'.wires = c.wires) : Stays c c' := .of_keeps (.of_eq h)

/-- A CopyInResponse starts a pump, unless the task has one. -/
theorem Feeding.copyIn (h : Feeding cfg es c) (hr : c.restartsCopy .copyInResponse = false) :
    Feeding cfg es (c.handle cfg .copyInResponse).1 := by
  unfold handle
  dsimp only
  rw [receive_current]
  split
  · refine h.spared ((receive_spares c _).trans (writeSocket_spares _ fun t =>
      copyFrames_abort t none _ _)) (.of_keeps ?_)
    have hw := writeSocket_keeps (c.receive .copyInResponse)
      [⟨.abort none, .copyFail copyFromReason⟩, ⟨.abort none, .sync⟩]
    rwa [receive_wires] at hw
  · rename_i t hi
    change Feeding cfg es (ite (((c.noteCopyIn cfg t).tasks t).copySource = true)
      ((c.noteCopyIn cfg t).pumpCopy t, none) _ : Attempted).1
    rw [noteCopyIn_copySource hi]
    have hnote := h.spared (noteCopyIn_spares c t) (stays_of_wires (@noteCopyIn_wires cfg c t))
    split
    · rename_i hk
      have hno : c.hasPump t = false := by
        simpa [restartsCopy, hi, hk] using hr
      have hnone : ∀ p < (c.noteCopyIn cfg t).nextPump,
          ((c.noteCopyIn cfg t).pumps p).task ≠ t := by
        intro p hp
        have hsp := @noteCopyIn_spares cfg c t
        rw [(Halts_task (hsp.pumps p)).1]
        exact hasPump_eq_false hno p (Nat.lt_of_lt_of_eq hp hsp.nextPump)
      have hopen := hnote.opened hnone
      have hnew : ((c.noteCopyIn cfg t).openPump t).pumps (c.noteCopyIn cfg t).nextPump =
          { task := t, phase := .awaiting } := Function.update_self ..
      have hlt : (c.noteCopyIn cfg t).nextPump < ((c.noteCopyIn cfg t).openPump t).nextPump :=
        Nat.lt_succ_self _
      obtain ⟨hop, heq⟩ := hopen.awaiting hlt (by rw [hnew])
      have hes : ∀ q b, .pumpNext q (.chunk b) ∈ ([] : List Event) →
          q = (c.noteCopyIn cfg t).nextPump := fun _ _ hm => absurd hm List.not_mem_nil
      rw [← List.append_nil es] at heq ⊢
      exact hopen.loop hlt hes hop heq
    · refine hnote.spared (writeSocket_spares _ fun u => copyFrames_abort u _ _ _) (.of_keeps ?_)
      exact writeSocket_keeps _ _

theorem noPump_keeps {ms : List BackendMsg} {h h' : Option (TaskId × ConnState)}
    (hm : Moves cfg NoPump ms (c, h) (c', h')) : Stays c c' :=
  .of_keeps (hm.mono fun _ _ hf => hf.elim).keeps

/-- **One message.** -/
theorem Feeding.handle (h : Feeding cfg es c) (hb : Basic (c, none)) {m : BackendMsg}
    (hr : c.restartsCopy m = false) : Feeding cfg es (c.handle cfg m).1 := by
  by_cases hg : m = .copyInResponse
  · rw [hg] at hr ⊢
    exact h.copyIn hr
  · have hm : Moves cfg NoPump [m] (c, none) ((c.handle cfg m).1, none) :=
      heard_moves (fun _ _ hf => hf.elim) hb hg
    refine h.spared (hm.spares ?_) (noPump_keeps hm)
    intro hmem
    exact hg (List.mem_singleton.mp hmem).symm

theorem Feeding.takeDown (h : Feeding cfg es c) (e : JsError) :
    Feeding cfg es (c.takeDown cfg e) :=
  h.spared (.of_relinks (takeDown_relinks c e)) (.of_relinks (takeDown_relinks c e))

/-- **One chunk.** -/
theorem Feeding.onData (ms : List BackendMsg) : ∀ {c : Conn}, Feeding cfg es c →
    Basic (c, none) → copiesOnce cfg c ms = true → Feeding cfg es (c.onData cfg ms) := by
  induction ms with
  | nil => exact fun h _ _ => h
  | cons m ms ih =>
    intro c h hb ho
    simp only [copiesOnce, Bool.and_eq_true, Bool.not_eq_true'] at ho
    have hh := h.handle hb ho.1
    have hb' := (@handle_moves cfg _ hb m).basic hb
    unfold Conn.onData
    cases hr : c.handle cfg m with
    | mk c' err =>
      rw [hr] at hh hb' ho
      cases err with
      | none => exact ih hh hb' ho.2
      | some e => exact hh.takeDown e

/-! ### Sockets -/

/-- A new socket is adopted only when no pump is about to catch. -/
theorem Feeding.dialed (h : Feeding cfg es c) (d : DialId) (ho : Orderly cfg c (.dialed d)) :
    Feeding cfg es (c.dialed d) := by
  obtain ⟨_, socket, _, destroyed, sent, heq, hcase⟩ := dialed_shape c d
  have hsent : ∀ k t, copyFrames t (sent k) = copyFrames t (c.sent k) := by
    have hstart : ∀ t, copyFrames t [⟨.link, .startup⟩] = [] := fun t => copyFrames_other (by simp)
    have hw : ∀ sent, (sent = c.sent ∨ sent = Function.update c.sent c.nextSocket
        (c.sent c.nextSocket ++ [⟨.link, .startup⟩])) →
        ∀ k t, copyFrames t (sent k) = copyFrames t (c.sent k) := by
      intro sent hs k t
      have hsp : SparesPumps c { c with sent := sent } :=
        .write hstart (hs.imp_right fun hs => ⟨_, hs⟩)
      exact hsp.sent h.outbuf k t
    rcases hcase with ⟨-, -, hs, -⟩ | ⟨-, -, -, hs⟩
    · exact hw sent (.inl hs)
    · exact hw sent hs
  have hcopied : ∀ t, (c.dialed d).copied t = c.copied t := by
    intro t
    rw [heq]
    unfold copied
    dsimp only
    rw [List.range_succ, List.flatMap_append, List.flatMap_singleton, hsent,
      h.unsent _ (Nat.le_refl _), List.append_nil]
    exact List.flatMap_congr fun k _ => hsent k t
  have hlive : ∀ s, destroyed s = false → c.destroyed s = false := by
    intro s hs
    rcases hcase with ⟨-, -, -, hd⟩ | ⟨-, -, hd, -⟩
    · by_cases hk : s = c.nextSocket
      · rw [hd, hk, Function.update_self] at hs
        cases hs
      · rwa [hd, Function.update_of_ne hk] at hs
    · rwa [hd] at hs
  exact {
    unborn := by
      rw [heq]
      exact h.unborn
    single := by
      rw [heq]
      exact h.single
    given := by
      rw [heq]
      exact h.given
    outbuf := by
      rw [heq]
      exact h.outbuf
    unsent := fun s hn t => by
      rw [heq] at hn ⊢
      have hn : c.nextSocket + 1 ≤ s := hn
      exact (hsent s t).trans (h.unsent s (Nat.le_of_succ_le hn) t)
    current := fun s hs => by
      rw [heq] at hs ⊢
      have hs : socket = some s := hs
      rcases hcase with ⟨-, hk, -⟩ | ⟨-, hk, -⟩
      · obtain ⟨hlt, hlater⟩ := h.current s (hk.symm.trans hs)
        exact ⟨Nat.lt_succ_of_lt hlt, fun k hsk t => (hsent k t).trans (hlater k hsk t)⟩
      · obtain rfl : c.nextSocket = s := Option.some.inj (hk.symm.trans hs)
        exact ⟨Nat.lt_succ_self _, fun k hsk t =>
          (hsent k t).trans (h.unsent k (Nat.le_of_lt hsk) t)⟩
    unfed := fun t ht => by
      rw [hcopied]
      rw [heq] at ht
      exact h.unfed t ht
    sound := fun p hp => by
      rw [hcopied]
      rw [heq] at hp ⊢
      have hs := h.sound p hp
      show Sound _ _ (c.yielded (c.pumps p).task es) _ (c.pumps p)
      by_cases hf : (c.pumps p).hasFailed = true
      · -- an adopted socket finds no such pump, and one that is not adopted changes nothing
        rcases hcase with ⟨hc, hk, -, hd⟩ | ⟨hc, -⟩
        · refine hs.mono id hlive (fun hon => ?_) (.inl rfl)
          rw [isOnline_iff] at hon ⊢
          obtain ⟨s, hsk, hsd⟩ := hon
          exact ⟨s, hk.symm.trans hsk, hlive s hsd⟩
        · have hall : (!c.connecting || (List.range c.nextPump).all fun p =>
              !(c.pumps p).hasFailed) = true := ho
          rw [hc, Bool.not_true, Bool.false_or, List.all_eq_true] at hall
          have := hall p (List.mem_range.mpr hp)
          simp [hf] at this
      · unfold Sound at hs ⊢
        split at hs
        · exact hs
        · exact hs
        · rename_i hph
          exact ⟨hs.1, hs.2.1, hs.2.2.1, fun hl => hs.2.2.2 (hlive _ hl)⟩
        · rename_i e hph
          exact absurd (by simp [Pump.hasFailed, hph]) hf
        · exact hs
        · exact hs
        · exact hs }

/-- A socket that has ended takes no more bytes. -/
theorem offline_of_ended {s : SocketId} (hs : Stays c c') (hd : c'.destroyed s = true)
    (ho : c.socket == some s || !c.isOnline) : c'.isOnline = false := by
  rw [← Bool.not_eq_true]
  intro hon
  rw [Bool.or_eq_true, beq_iff_eq, Bool.not_eq_true'] at ho
  rcases ho with ho | ho
  · obtain ⟨k, hk, hl⟩ := isOnline_iff.mp hon
    rcases hs.socket with hk' | hk'
    · obtain rfl : s = k := Option.some.inj (ho.symm.trans (hk'.symm.trans hk))
      exact absurd (hd.symm.trans hl) (by simp)
    · exact absurd (hk'.symm.trans hk) (by simp)
  · exact absurd (ho.symm.trans (hs.isOnline hon)) (by simp)

theorem awaitsEnd_iff {q : Pump} {s : SocketId} :
    q.awaitsEnd s = true ↔ q.phase = .draining s true := beq_iff_eq

/-- The end of a socket reaches the pumps. -/
theorem Feeding.lost (h : Feeding cfg es c) {s : SocketId} {e : JsError}
    (hm : Moves cfg NoPump [] (c, none) (c', none)) (hd : c'.destroyed s = true)
    (ho : (c.socket == some s || !c.isOnline ||
      (List.range c.nextPump).all fun p => !(c.pumps p).awaitsEnd s) = true) :
    Feeding cfg es (c'.wakePumps s fun _ => .failed e) := by
  have hsp : SparesPumps c c' := hm.spares List.not_mem_nil
  have hst := noPump_keeps hm
  apply (h.spared hsp hst).undrained
  rcases (Bool.or_eq_true _ _).mp ho with ho | ho
  · exact .inl (offline_of_ended hst hd ho)
  · refine .inr fun p hp hph => ?_
    rw [(Halts_task (hsp.pumps p)).2] at hph
    rw [List.all_eq_true] at ho
    have := ho p (List.mem_range.mpr (Nat.lt_of_lt_of_eq hp hsp.nextPump))
    simp [awaitsEnd_iff.mpr hph] at this

/-- **One callback** of an orderly run. -/
theorem Feeding.step (h : Feeding cfg es c) (hc : c = run cfg es) (hb : Basic (c, none))
    {e : Event} (he : c.enabled e = true) (ho : Orderly cfg c e) :
    Feeding cfg (es ++ [e]) (c.step cfg e) := by
  have hcalm : ∀ {c'}, Moves cfg NoPump [] (c, none) (c', none) → Feeding cfg es c' :=
    fun hm => h.spared (hm.spares List.not_mem_nil) (noPump_keeps hm)
  cases e with
  | connect =>
    exact (h.spared (.of_relinks (connect_relinks c)) (.of_relinks (connect_relinks c))).event
      (by simp)
  | loopWake l =>
    exact (h.spared (.of_relinks (loopWake_relinks c l)) (.of_relinks (loopWake_relinks c l))).event
      (by simp)
  | dialed d => exact (h.dialed d ho).event (by simp)
  | data s chunk => exact (h.onData chunk hb ho).event (by simp)
  | drain s =>
    have hm : Moves cfg NoPump [] (c, none) (c.resumeWrites cfg s, none) := resumeWrites_moves c s
    have hlive : c.destroyed s = false := by
      simp only [enabled, isLive, Bool.and_eq_true, Bool.not_eq_true'] at he
      exact he.2
    exact (h.drained (hm.spares List.not_mem_nil) (noPump_keeps hm) hlive).event (by simp)
  | socketError s =>
    have hlt : s < c.nextSocket := by simpa [enabled] using he
    have hd : ((c.destroy s).stopWrites s).destroyed s = true := by
      rw [stopWrites_destroyed]
      exact Function.update_self ..
    exact (h.lost (socketFailed_moves hlt) hd ho).event (by simp)
  | socketClose s e =>
    have hlt : s < c.nextSocket := by simpa [enabled] using he
    exact (h.lost (socketGone_moves hlt e) (socketGone_destroyed c s e) ho).event (by simp)
  | pumpNext p step => exact h.next hc he ho
  | pumpResume p => exact (h.resume he).event (by simp)
  | _ => exact (hcalm (calm_moves rfl rfl he)).event (by simp)

end Callbacks

/-- **Copies are sent faithfully** in an orderly run: whatever the source yields and wherever it
throws, whenever the socket backs up, and whenever the server or the caller ends the task. -/
theorem sends_faithfully {es : List Event} (h : (machine cfg).Runs (Orderly cfg) {} es)
    (t : TaskId) : SendsFaithfully cfg es t := by
  have hrun : Basic (run cfg es, none) ∧ Feeding cfg es (run cfg es) := by
    refine h.invariant (I := fun es => Basic (run cfg es, none) ∧ Feeding cfg es (run cfg es))
      ⟨basic_new, feeding_new⟩ ?_
    rintro es e ⟨hb, hf⟩ he ho
    have hlast : run cfg (es ++ [e]) = (run cfg es).step cfg e := Machine.exec_concat ..
    rw [hlast]
    exact ⟨step_basic hb he, hf.step rfl hb he ho⟩
  obtain ⟨-, hf⟩ := hrun
  have hclosed : Closed ((run cfg es).copied t) ((run cfg es).yielded t es)
      (EndedWell cfg es t) := by
    by_cases ht : ∀ p < (run cfg es).nextPump, ((run cfg es).pumps p).task ≠ t
    · rw [hf.unfed t ht]
      exact .of_open (fun _ hx => absurd hx List.not_mem_nil) List.nil_prefix
    · push Not at ht
      obtain ⟨p, hp, rfl⟩ := ht
      have hs := hf.sound p hp
      unfold Sound at hs
      split at hs
      · exact .of_open hs.1 (hs.2 ▸ List.prefix_append ..)
      · exact .of_open hs.1 (hs.2.2 ▸ List.prefix_rfl)
      · exact .of_open hs.1 hs.2.2.1
      · rcases hs with hs | hs
        · exact .of_open hs.1 hs.2
        · exact hs.1
      · exact hs
      · exact hs
      · exact hs
  exact ⟨hclosed.sent, hclosed.whole, hclosed.closes⟩

/-- A source that yields one line, for one COPY. -/
def oneCopy : List Event :=
  [.sockRoom 8, .connect, .dialed 0, .data 0 [.readyForQuery (some 'I')],
    .submit { sql := "COPY a FROM STDIN", copySource := true } none, .flush,
    .data 0 [.copyInResponse], .pumpNext 0 (.chunk [0x31, 0x0a]), .pumpNext 0 .done,
    .pumpResume 0, .data 0 [.commandComplete "COPY 1", .readyForQuery (some 'I')]]

theorem sends_faithfully_oneCopy :
    (run {} oneCopy).copied 0 = [.copyData [0x31, 0x0a], .copyDone] ∧
      SendsFaithfully {} oneCopy 0 :=
  ⟨by decide, sends_faithfully (by decide) 0⟩

/-- The SQL holds two COPY statements, and the second one answers with a CopyInResponse of its
own: another pump reads the array from the beginning. -/
def twoCopies : List Event :=
  [.sockRoom 8, .connect, .dialed 0, .data 0 [.readyForQuery (some 'I')],
    .submit { sql := "COPY a FROM STDIN; COPY b FROM STDIN", copySource := true } none, .flush,
    .data 0 [.copyInResponse], .pumpNext 0 (.chunk [0x31, 0x0a]), .pumpNext 0 .done,
    .pumpResume 0, .data 0 [.commandComplete "COPY 1", .copyInResponse],
    .pumpNext 1 (.chunk [0x31, 0x0a]), .pumpNext 1 .done, .pumpResume 1,
    .data 0 [.commandComplete "COPY 1", .readyForQuery (some 'I')]]

set_option maxRecDepth 2000 in
theorem copy_repeated : ¬ ∀ (cfg : Config) (es : List Event),
    (machine cfg).Runs Machine.Free {} es → ∀ t, SendsFaithfully cfg es t := by
  intro h
  have hcopied : (run {} twoCopies).copied 0 = [.copyData [0x31, 0x0a], .copyDone,
      .copyData [0x31, 0x0a], .copyDone] := by decide
  have hcloses := (h {} twoCopies (by decide) 0).closes
  rw [hcopied] at hcloses
  exact absurd (hcloses .copyDone (by simp)) (by decide)

end Conn

end Minipg
