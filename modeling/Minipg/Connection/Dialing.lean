import Minipg.Connection.Sockets

/-!
# One live socket for a connection

Every attempt asks a transport for a socket, and a transport answers when it likes: a dial
may resolve long after its attempt was given up.  `establish` destroys a socket that comes
while no attempt runs, so that only the socket of the current attempt or session is alive
and talks to the parser.  `Dialing` keeps, next to the connection, which dial made each
socket, which sockets came when their attempt was over, and which sockets were heard.

The check of `establish` asks whether an attempt runs, not whose.  `oneSocket` says of
every callback what it takes: no dial of another attempt resolves while an attempt runs,
and no attempt begins on a connection that still has a live socket.  In `lateDial` the
first of the two fails.
-/

namespace Minipg

namespace Conn

/-- The attempt that runs is the one that made this dial. -/
def isCurrent (c : Conn) (d : DialId) : Bool := c.connecting && c.connTimer == some d

/-- The connection has a socket that is alive. -/
def hasLive (c : Conn) : Bool := c.socket.any c.isLive

/-- The callback begins an attempt. -/
def begins (c : Conn) : Event → Bool
  | .connect => !c.connectCalled
  | .loopWake l => match c.loops l with
    | .sleeping _ _ => !(c.ended || c.state == .closed)
    | _ => false
  | _ => false

/-- No socket of another attempt comes while an attempt runs, and no attempt begins while a
socket is alive. -/
def isTimely (c : Conn) (e : Event) : Bool :=
  match e with
  | .dialed d => !c.connecting || c.isCurrent d
  | e => !(c.begins e && c.hasLive)

end Conn

/-- A connection, with the dial that made each socket, the sockets that came when the attempt of
their dial was over, and those whose data was read. -/
structure Dialing where
  conn : Conn := {}
  maker : SocketId → DialId := fun _ => 0
  isLate : SocketId → Bool := fun _ => false
  isHeard : SocketId → Bool := fun _ => false

namespace Dialing

variable {cfg : Config}

def step (cfg : Config) (s : Dialing) (e : Event) : Dialing :=
  let c := s.conn.step cfg e
  match e with
  | .dialed d =>
    { s with
      conn := c
      maker := Function.update s.maker s.conn.nextSocket d
      isLate := Function.update s.isLate s.conn.nextSocket (!s.conn.isCurrent d) }
  | .data k _ | .badFrame k _ =>
    { s with conn := c, isHeard := Function.update s.isHeard k true }
  | _ => { s with conn := c }

def machine (cfg : Config) : Machine Dialing Event := ⟨fun s => s.conn.enabled, step cfg⟩

/-- The states that timely callbacks lead to. -/
def Timely (cfg : Config) : Dialing → Prop :=
  (machine cfg).Reach (fun s e => s.conn.isTimely e = true) (· = {})

/-- A socket that is alive belongs to the current attempt or session; one that came late is
destroyed, was sent nothing and was never heard. -/
structure OneSocket (s : Dialing) : Prop where
  live : ∀ k, s.conn.isLive k = true → s.conn.socket = some k ∧ s.maker k + 1 = s.conn.nextDial
  late : ∀ k, s.isLate k = true →
    s.conn.destroyed k = true ∧ s.conn.sent k = [] ∧ s.isHeard k = false

@[simp] theorem step_conn (s : Dialing) (e : Event) : (s.step cfg e).conn = s.conn.step cfg e := by
  cases e with
  | _ => rfl

end Dialing

/-! ### The sockets of the attempts -/

/-- Only the socket of the latest dial can be alive. -/
structure Wires.Alone (maker : SocketId → DialId) (w : Wires) : Prop where
  live : ∀ k, k < w.nextSocket → w.destroyed k = false →
    w.socket = some k ∧ maker k + 1 = w.nextDial
  known : ∀ k, w.socket = some k → k < w.nextSocket
  dead : ∀ k, w.destroyed k = true → k < w.nextSocket
  unsent : ∀ k, w.nextSocket ≤ k → w.sent k = []
  timer : ∀ d, w.connTimer = some d → d + 1 = w.nextDial
  pending : ∀ d ∈ w.dials, d < w.nextDial
  once : w.dials.Nodup
  waiting : ∀ d k, w.connecting = true → w.connTimer = some d → d ∈ w.dials →
    k < w.nextSocket → w.destroyed k = true

namespace Wires

variable {maker : SocketId → DialId} {w w' : Wires}

theorem Alone.keeps (ha : w.Alone maker) (hk : w.Keeps w') : w'.Alone maker where
  live k hlt hd := by
    have hlt' : k < w.nextSocket := Nat.lt_of_lt_of_eq hlt hk.nextSocket
    have hd' : w.destroyed k = false := by
      rw [← Bool.not_eq_true] at hd ⊢
      exact fun h => hd (hk.destroyed k h)
    obtain ⟨hs, hm⟩ := ha.live k hlt' hd'
    refine ⟨?_, hm.trans hk.nextDial.symm⟩
    rcases hk.socket with h | ⟨-, h⟩
    · exact h.trans hs
    · rw [h k hs] at hd
      cases hd
  known k hs := by
    rw [hk.nextSocket]
    rcases hk.socket with h | ⟨h, -⟩
    · exact ha.known k (h.symm.trans hs)
    · rw [h] at hs
      cases hs
  dead k hd := by
    rw [hk.nextSocket]
    rcases hk.dead k hd with h | h | h
    · exact ha.dead k h
    · exact h
    · exact ha.known k h
  unsent k hle := by
    rw [hk.nextSocket] at hle
    have hne : w.socket ≠ some k := by
      intro hs
      exact absurd (ha.known k hs) (Nat.not_lt.mpr hle)
    rw [hk.sent k hne]
    exact ha.unsent k hle
  timer d hd := by
    rw [hk.connTimer] at hd
    rw [hk.nextDial]
    exact ha.timer d hd
  pending d hd := by
    rw [hk.nextDial]
    exact ha.pending d (hk.dials.subset hd)
  once := ha.once.sublist hk.dials
  waiting d k hc ht hd hlt := by
    rw [hk.connTimer] at ht
    rw [hk.nextSocket] at hlt
    exact hk.destroyed k (ha.waiting d k (hk.connecting hc) ht (hk.dials.subset hd) hlt)

/-- An attempt that begins when all sockets are dead. -/
theorem Alone.begin (ha : w.Alone maker) (hd : ∀ k, k < w.nextSocket → w.destroyed k = true) :
    Alone maker { w with
      connecting := true, connTimer := some w.nextDial, dials := w.dials ++ [w.nextDial]
      nextDial := w.nextDial + 1 } where
  live k hlt hk := by
    rw [hd k hlt] at hk
    cases hk
  known := ha.known
  dead := ha.dead
  unsent := ha.unsent
  timer d h := by
    have h : w.nextDial = d := Option.some.inj h
    rw [h]
  pending d h := by
    rcases List.mem_append.mp h with h | h
    · exact Nat.lt_succ_of_lt (ha.pending d h)
    · rw [List.mem_singleton.mp h]
      exact Nat.lt_succ_self _
  once := by
    refine List.nodup_append.mpr ⟨ha.once, List.pairwise_singleton _ _, fun a hm b hb => ?_⟩
    rw [List.mem_singleton.mp hb]
    exact Nat.ne_of_lt (ha.pending a hm)
  waiting _ k _ _ _ hlt := hd k hlt

/-- A socket that comes too late is destroyed at once. -/
theorem Alone.refuse (ha : w.Alone maker) (d : DialId) (hc : w.connecting = false) :
    Alone (Function.update maker w.nextSocket d) { w with
      nextSocket := w.nextSocket + 1, dials := w.dials.erase d
      destroyed := Function.update w.destroyed w.nextSocket true } where
  live k hlt hk := by
    by_cases hn : k = w.nextSocket
    · rw [hn] at hk
      exact absurd hk (by simp)
    · have hlt : k < w.nextSocket + 1 := hlt
      have hk : Function.update w.destroyed w.nextSocket true k = false := hk
      rw [Function.update_of_ne hn] at hk ⊢
      exact ha.live k (Nat.lt_of_le_of_ne (Nat.lt_succ_iff.mp hlt) hn) hk
  known k hs := Nat.lt_succ_of_lt (ha.known k hs)
  dead k hk := by
    show k < w.nextSocket + 1
    by_cases hn : k = w.nextSocket
    · rw [hn]
      exact Nat.lt_succ_self _
    · have hk : Function.update w.destroyed w.nextSocket true k = true := hk
      rw [Function.update_of_ne hn] at hk
      exact Nat.lt_succ_of_lt (ha.dead k hk)
  unsent k hle := ha.unsent k (Nat.le_of_succ_le hle)
  timer := ha.timer
  pending a h := ha.pending a (List.mem_of_mem_erase h)
  once := ha.once.erase d
  waiting _ _ h := by
    rw [hc] at h
    cases h

/-- The dial of the attempt that runs gets the connection its socket: no other is alive. -/
theorem Alone.adopt (ha : w.Alone maker) {d : DialId} (hc : w.connecting = true)
    (ht : w.connTimer = some d) (hd : d ∈ w.dials) (ps : List Packet) :
    Alone (Function.update maker w.nextSocket d) { w with
      nextSocket := w.nextSocket + 1, dials := w.dials.erase d, socket := some w.nextSocket
      sent := Function.update w.sent w.nextSocket ps } where
  live k hlt hk := by
    by_cases hn : k = w.nextSocket
    · rw [hn, Function.update_self]
      exact ⟨rfl, ha.timer d ht⟩
    · have hlt : k < w.nextSocket + 1 := hlt
      have hk : w.destroyed k = false := hk
      rw [ha.waiting d k hc ht hd (Nat.lt_of_le_of_ne (Nat.lt_succ_iff.mp hlt) hn)] at hk
      cases hk
  known k hs := by
    rw [← Option.some.inj hs]
    exact Nat.lt_succ_self _
  dead k hk := Nat.lt_succ_of_lt (ha.dead k hk)
  unsent k hle := by
    have hle : w.nextSocket + 1 ≤ k := hle
    show Function.update w.sent w.nextSocket ps k = []
    rw [Function.update_of_ne (Nat.ne_of_gt hle)]
    exact ha.unsent k (Nat.le_of_succ_le hle)
  timer := ha.timer
  pending a h := ha.pending a (List.mem_of_mem_erase h)
  once := ha.once.erase d
  waiting a k _ hta hda := by
    have hta : w.connTimer = some a := hta
    rw [ht] at hta
    rw [← Option.some.inj hta] at hda
    exact absurd hda ha.once.not_mem_erase

/-- A socket that came late. -/
structure Refused (w : Wires) (k : SocketId) : Prop where
  destroyed : w.destroyed k = true
  notCurrent : w.socket ≠ some k
  unsent : w.sent k = []

theorem Refused.keeps {k : SocketId} (hr : w.Refused k) (hk : w.Keeps w') : w'.Refused k where
  destroyed := hk.destroyed k hr.destroyed
  notCurrent := hk.not_current hr.notCurrent
  unsent := (hk.sent k hr.notCurrent).trans hr.unsent

end Wires

namespace Conn

variable {cfg : Config}

/-! ### What a callback does to the sockets -/

theorem begins_wires {c : Conn} {e : Event} (hb : c.begins e = true) :
    (c.step cfg e).wires = { c.wires with
      connecting := true, connTimer := some c.nextDial, dials := c.dials ++ [c.nextDial]
      nextDial := c.nextDial + 1 } := by
  cases e with
  | connect =>
    simp only [begins, Bool.not_eq_true'] at hb
    simp [step, connect, hb, establish, wires]
  | loopWake l =>
    unfold begins at hb
    dsimp only at hb
    split at hb
    · rename_i a e hl
      rw [Bool.not_eq_true'] at hb
      simp [step, loopWake, hl, hb, establish, wires]
    · cases hb
  | _ => cases hb

/-- A callback that begins no attempt and brings no socket. -/
theorem step_keeps {c : Conn} {e : Event} (hB : Basic (c, none)) (he : c.enabled e = true)
    (hd : ∀ d, e ≠ .dialed d) (hb : c.begins e = false) : c.wires.Keeps (c.step cfg e).wires := by
  cases hq : e.isDialing with
  | false =>
    obtain ⟨_, -, hm⟩ := @step_moves cfg _ _ hq hB he
    exact hm.keeps
  | true =>
    cases e with
    | connect =>
      simp only [begins, Bool.not_eq_false'] at hb
      simp only [step, connect, hb, if_true]
      exact .refl _
    | loopWake l =>
      have hkeep : c.wires.Keeps (c.loopWake l).wires := by
        unfold loopWake
        cases hl : c.loops l with
        | sleeping a e =>
          simp only [begins, hl, Bool.not_eq_false'] at hb
          simp only [hb, if_true]
          exact .refl _
        | establishing | failed | ended => exact .refl _
      exact hkeep
    | dialed d => exact absurd rfl (hd d)
    | _ => cases hq

theorem refused_wires {c : Conn} (d : DialId) (hc : c.connecting = false) :
    (c.dialed d).wires = { c.wires with
      nextSocket := c.nextSocket + 1, dials := c.dials.erase d
      destroyed := Function.update c.destroyed c.nextSocket true } := by
  simp [dialed, hc, destroy, wires]

theorem adopted_wires {c : Conn} (d : DialId) (hc : c.connecting = true)
    (hn : c.destroyed c.nextSocket = false) : (c.dialed d).wires = { c.wires with
      nextSocket := c.nextSocket + 1, dials := c.dials.erase d, socket := some c.nextSocket
      sent := Function.update c.sent c.nextSocket
        (c.sent c.nextSocket ++ [⟨.link, .startup⟩]) } := by
  simp [dialed, hc, hn, writeTo, wires]

theorem isTimely_eq {c : Conn} {e : Event} (hd : ∀ d, e ≠ .dialed d) :
    c.isTimely e = !(c.begins e && c.hasLive) := by
  cases e with
  | dialed d => exact absurd rfl (hd d)
  | _ => rfl

end Conn

namespace Dialing

open Conn Wires

variable {cfg : Config}

/-- What timely callbacks keep. -/
structure Good (s : Dialing) : Prop where
  alone : s.conn.wires.Alone s.maker
  refused : ∀ k, s.isLate k = true → s.conn.wires.Refused k ∧ s.isHeard k = false
  unheard : ∀ k, s.conn.nextSocket ≤ k → s.isHeard k = false

theorem good_new : Good {} where
  alone := {
    live := fun _ h => absurd h (Nat.not_lt_zero _)
    known := by intro _ h; cases h
    dead := by intro _ h; cases h
    unsent := fun _ _ => rfl
    timer := by intro _ h; cases h
    pending := by intro _ h; cases h
    once := List.nodup_nil
    waiting := by intro _ _ h; cases h }
  refused := by intro _ h; cases h
  unheard := fun _ _ => rfl

theorem Good.ordered {s : Dialing} (hg : Good s) : OneSocket s where
  live k hk := by
    simp only [isLive, Bool.and_eq_true, decide_eq_true_eq, Bool.not_eq_true'] at hk
    exact hg.alone.live k hk.1 hk.2
  late k hk := by
    obtain ⟨hr, hh⟩ := hg.refused k hk
    exact ⟨hr.destroyed, hr.unsent, hh⟩

/-- Only a socket that resolves is recorded, and only a live socket is heard. -/
theorem step_records {s : Dialing} {e : Event} (he : s.conn.enabled e = true)
    (hd : ∀ d, e ≠ .dialed d) : (s.step cfg e).maker = s.maker ∧
      (s.step cfg e).isLate = s.isLate ∧
      ∀ k, s.conn.isLive k = false → (s.step cfg e).isHeard k = s.isHeard k := by
  have hheard : ∀ k, s.conn.isLive k = true → ∀ k', s.conn.isLive k' = false →
      Function.update s.isHeard k true k' = s.isHeard k' := by
    intro k hk k' hk'
    refine Function.update_of_ne ?_ _ _
    rintro rfl
    rw [hk] at hk'
    cases hk'
  cases e with
  | dialed d => exact absurd rfl (hd d)
  | data k ms => exact ⟨rfl, rfl, hheard k he⟩
  | badFrame k err => exact ⟨rfl, rfl, hheard k he⟩
  | _ => exact ⟨rfl, rfl, fun _ _ => rfl⟩

/-- Sockets that came late stay as they are while none comes. -/
theorem Good.stays {s : Dialing} {e : Event} (hg : Good s) (he : s.conn.enabled e = true)
    (hd : ∀ d, e ≠ .dialed d) (ha : (s.step cfg e).conn.wires.Alone s.maker)
    (hn : (s.step cfg e).conn.wires.nextSocket = s.conn.nextSocket)
    (hk : ∀ k, s.conn.wires.Refused k → (s.step cfg e).conn.wires.Refused k) :
    Good (s.step cfg e) := by
  obtain ⟨hm, hl, hh⟩ := @step_records cfg _ _ he hd
  refine ⟨by rwa [hm], fun k hlate => ?_, fun k hle => ?_⟩
  · rw [hl] at hlate
    obtain ⟨hr, hheard⟩ := hg.refused k hlate
    have hr' : s.conn.destroyed k = true := hr.destroyed
    exact ⟨hk k hr, (hh k (by simp [isLive, hr'])).trans hheard⟩
  · have hle : s.conn.nextSocket ≤ k := Nat.le_trans (Nat.le_of_eq hn.symm) hle
    have hdead : s.conn.isLive k = false := by
      simp [isLive, Nat.not_lt.mpr hle]
    exact (hh k hdead).trans (hg.unheard k hle)

/-- Without a live current socket no socket is alive. -/
theorem Good.all_dead {s : Dialing} (hg : Good s) (hl : s.conn.hasLive = false) :
    ∀ k, k < s.conn.nextSocket → s.conn.destroyed k = true := by
  intro k hlt
  cases hd : s.conn.destroyed k with
  | true => rfl
  | false =>
    have hs : s.conn.socket = some k := (hg.alone.live k hlt hd).1
    simp [hasLive, hs, isLive, hlt, hd] at hl

/-- The sockets that came before, when one more comes. -/
theorem Good.comes {s : Dialing} (hg : Good s) {d : DialId}
    (ha : (s.conn.dialed d).wires.Alone (Function.update s.maker s.conn.nextSocket d))
    (hnew : s.conn.isCurrent d = false → (s.conn.dialed d).wires.Refused s.conn.nextSocket)
    (hold : ∀ k, k ≠ s.conn.nextSocket → s.conn.wires.Refused k →
      (s.conn.dialed d).wires.Refused k)
    (hn : (s.conn.dialed d).wires.nextSocket = s.conn.nextSocket + 1) :
    Good (s.step cfg (.dialed d)) where
  alone := ha
  refused k hk := by
    by_cases hkn : k = s.conn.nextSocket
    · have hk : Function.update s.isLate s.conn.nextSocket (!s.conn.isCurrent d) k = true := hk
      rw [hkn, Function.update_self, Bool.not_eq_true'] at hk
      rw [hkn]
      exact ⟨hnew hk, hg.unheard _ (Nat.le_refl _)⟩
    · have hk : Function.update s.isLate s.conn.nextSocket (!s.conn.isCurrent d) k = true := hk
      rw [Function.update_of_ne hkn] at hk
      exact ⟨hold k hkn (hg.refused k hk).1, (hg.refused k hk).2⟩
  unheard k hle := by
    have hle : s.conn.nextSocket + 1 ≤ k := Nat.le_trans (Nat.le_of_eq hn.symm) hle
    exact hg.unheard k (Nat.le_of_succ_le hle)

/-- A new socket has not been destroyed, and nothing was sent to it. -/
theorem Good.new_socket {s : Dialing} (hg : Good s) :
    s.conn.destroyed s.conn.nextSocket = false := by
  rw [← Bool.not_eq_true]
  exact fun hd => Nat.lt_irrefl _ (hg.alone.dead _ hd)

theorem Good.refuses {s : Dialing} (hg : Good s) (d : DialId) (hc : s.conn.connecting = false) :
    Good (s.step cfg (.dialed d)) := by
  have hw := refused_wires d hc
  have hne : s.conn.socket ≠ some s.conn.nextSocket := by
    intro hs
    exact Nat.lt_irrefl _ (hg.alone.known _ hs)
  refine hg.comes ?_ (fun _ => ?_) (fun k hk hr => ?_) ?_
  · rw [hw]
    exact hg.alone.refuse d hc
  · rw [hw]
    exact ⟨Function.update_self .., hne, hg.alone.unsent _ (Nat.le_refl _)⟩
  · rw [hw]
    exact ⟨(Function.update_of_ne hk _ _).trans hr.destroyed, hr.notCurrent, hr.unsent⟩
  · rw [hw]

theorem Good.adopts {s : Dialing} (hg : Good s) {d : DialId} (hd : d ∈ s.conn.dials)
    (hc : s.conn.connecting = true) (ht : s.conn.connTimer = some d) :
    Good (s.step cfg (.dialed d)) := by
  have hw := adopted_wires d hc hg.new_socket
  refine hg.comes ?_ (fun hcur => ?_) (fun k hk hr => ?_) ?_
  · rw [hw]
    exact hg.alone.adopt hc ht hd _
  · simp [isCurrent, hc, ht] at hcur
  · rw [hw]
    refine ⟨hr.destroyed, ?_, (Function.update_of_ne hk _ _).trans hr.unsent⟩
    intro hs
    exact hk (Option.some.inj hs).symm
  · rw [hw]

/-- **One callback**: a timely one keeps the sockets in order. -/
theorem Good.step {s : Dialing} {e : Event} (hg : Good s) (hb : Basic (s.conn, none))
    (he : s.conn.enabled e = true) (ht : s.conn.isTimely e = true) : Good (s.step cfg e) := by
  by_cases hd : ∃ d, e = .dialed d
  · obtain ⟨d, rfl⟩ := hd
    have hmem : d ∈ s.conn.dials := by simpa [enabled] using he
    cases hc : s.conn.connecting with
    | false => exact hg.refuses d hc
    | true =>
      simp only [isTimely, isCurrent, hc, Bool.not_true, Bool.false_or, Bool.true_and,
        beq_iff_eq] at ht
      exact hg.adopts hmem hc ht
  · have hd : ∀ d, e ≠ .dialed d := fun d h => hd ⟨d, h⟩
    cases hbeg : s.conn.begins e with
    | false =>
      have hk : s.conn.wires.Keeps (s.step cfg e).conn.wires := by
        rw [step_conn]
        exact step_keeps hb he hd hbeg
      exact hg.stays he hd (hg.alone.keeps hk) hk.nextSocket fun k hr => hr.keeps hk
    | true =>
      rw [isTimely_eq hd, hbeg, Bool.true_and, Bool.not_eq_true'] at ht
      have hw := @begins_wires cfg _ _ hbeg
      rw [← step_conn] at hw
      refine hg.stays he hd ?_ ?_ fun k hr => ?_
      · rw [hw]
        exact hg.alone.begin (hg.all_dead ht)
      · rw [hw]
        rfl
      · rw [hw]
        exact ⟨hr.destroyed, hr.notCurrent, hr.unsent⟩

/-- A callback that is not timely breaks the order. -/
theorem Good.untimely {s : Dialing} {e : Event} (hg : Good s) (he : s.conn.enabled e = true)
    (ht : s.conn.isTimely e = false) : ¬ OneSocket (s.step cfg e) := by
  intro h
  by_cases hd : ∃ d, e = .dialed d
  · obtain ⟨d, rfl⟩ := hd
    simp only [isTimely, Bool.or_eq_false_iff, Bool.not_eq_false'] at ht
    have hlate : (s.step cfg (.dialed d)).isLate s.conn.nextSocket = true := by
      show Function.update s.isLate s.conn.nextSocket (!s.conn.isCurrent d) _ = true
      rw [Function.update_self, ht.2]
      rfl
    have hdead : (s.conn.dialed d).wires.destroyed s.conn.nextSocket = true :=
      (h.late _ hlate).1
    rw [adopted_wires d ht.1 hg.new_socket] at hdead
    have hdead : s.conn.destroyed s.conn.nextSocket = true := hdead
    rw [hg.new_socket] at hdead
    cases hdead
  · have hd : ∀ d, e ≠ .dialed d := fun d h => hd ⟨d, h⟩
    rw [isTimely_eq hd, Bool.not_eq_false', Bool.and_eq_true] at ht
    obtain ⟨hbeg, hlive⟩ := ht
    have hw := @begins_wires cfg _ _ hbeg
    rw [← step_conn] at hw
    unfold hasLive at hlive
    cases hs : s.conn.socket with
    | none => simp [hs] at hlive
    | some k =>
      rw [hs] at hlive
      have hlive : s.conn.isLive k = true := hlive
      have hlive' : (s.step cfg e).conn.isLive k = true := by
        have hn : (s.step cfg e).conn.nextSocket = s.conn.nextSocket := congrArg Wires.nextSocket hw
        have hdes : (s.step cfg e).conn.destroyed = s.conn.destroyed := congrArg Wires.destroyed hw
        unfold isLive
        rw [hn, hdes]
        exact hlive
      have hnew := (h.live k hlive').2
      have hold := (hg.ordered.live k hlive).2
      obtain ⟨hm, -, -⟩ := @step_records cfg _ _ he hd
      have hdial : (s.step cfg e).conn.nextDial = s.conn.nextDial + 1 := congrArg Wires.nextDial hw
      rw [hm, hdial, hold] at hnew
      exact Nat.succ_ne_self _ hnew.symm

theorem timely_good {s : Dialing} (h : Timely cfg s) : Good s ∧ Basic (s.conn, none) := by
  refine Machine.Reach.invariant (I := fun s => Good s ∧ Basic (s.conn, none)) ?_ ?_ h
  · rintro _ rfl
    exact ⟨good_new, basic_new⟩
  · rintro s e ⟨hg, hb⟩ he ht
    have he : s.conn.enabled e = true := he
    refine ⟨hg.step hb he ht, ?_⟩
    show Basic ((s.step cfg e).conn, none)
    rw [step_conn]
    exact step_basic hb he

/-- **One live socket per connection** in every run of timely callbacks, and no other callback
keeps it so. -/
theorem oneSocket {s : Dialing} (h : Timely cfg s) :
    OneSocket s ∧ ∀ e, s.conn.enabled e = true →
      (OneSocket (s.step cfg e) ↔ s.conn.isTimely e = true) := by
  obtain ⟨hg, hb⟩ := timely_good h
  refine ⟨hg.ordered, fun e he => ⟨fun ho => ?_, fun ht => (hg.step hb he ht).ordered⟩⟩
  rw [← Bool.not_eq_false]
  exact fun ht => hg.untimely he ht ho

/-- The state of a new connection after a list of callbacks. -/
def run (cfg : Config) (es : List Event) : Dialing := (machine cfg).exec {} es

/-- A connection that keeps trying to reconnect. -/
def patient : Config := { reconnect := true, depth_pos := Nat.zero_lt_succ 99 }

/-- A session ends, the next attempt times out before its dial resolves, and another begins. -/
def secondTry : List Event :=
  [.connect, .dialed 0, .data 0 [.readyForQuery (some 'I')], .socketClose 0 terminatedError,
    .loopWake 0, .connTimeout 1, .loopCatch 0, .loopWake 0]

theorem oneSocket_secondTry : OneSocket (run patient secondTry) ∧
    (OneSocket ((run patient secondTry).step patient (.dialed 1)) ↔
      (run patient secondTry).conn.isTimely (.dialed 1) = true) :=
  have hnew : Timely patient {} := .start rfl
  have hrun : Timely patient (run patient secondTry) := hnew.exec (by decide)
  have h := oneSocket hrun
  ⟨h.1, h.2 (.dialed 1) (by decide)⟩

/-- The dial of the attempt that timed out resolves, and then that of the one that runs: both
sockets have been sent a startup packet, and both feed the parser. -/
def lateDial : List Event := secondTry ++ [.dialed 1, .dialed 2]

theorem oneSocket_fails : ¬ ∀ (cfg : Config) (s : Dialing),
    (machine cfg).Reach Machine.Free (· = {}) s → OneSocket s := by
  intro h
  have hnew : (machine patient).Reach Machine.Free (· = {}) {} := .start rfl
  have hs := h patient (run patient lateDial) (hnew.exec (by decide))
  exact absurd (hs.live 1 (by decide)).1 (by decide)

end Dialing

end Minipg
