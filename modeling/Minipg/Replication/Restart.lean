import Minipg.Replication.Progress

/-!
# A stream after other streams

The registers belong to the connection and `start()` does not reset them.  A new stream reports
what it would report on a fresh connection exactly when the history before it brought no
position (`statuses_eq_fresh_iff`).
-/

namespace Minipg

/-- What happens on a replication connection: `start()` establishes a stream, or a stream event. -/
inductive HistoryEvent
  | start (idleAck : Bool)
  | stream (e : StreamEvent)
  deriving DecidableEq, Repr

namespace Stream

/-- One stream at a time; messages and timers belong to the running one. -/
def enabled (s : Stream) : HistoryEvent → Bool
  | .start _ => !s.live
  | .stream (.ack _) => true
  | .stream _ => s.live

def next (s : Stream) : HistoryEvent → Stream
  | .start idleAck => s.progress.start idleAck
  | .stream e => s.step e

end Stream

def streams : Machine Stream HistoryEvent := ⟨Stream.enabled, Stream.next⟩

/-- A log position that `start()` did not give: where the WAL ends, a commit's end, an ack. -/
def HistoryEvent.brings : HistoryEvent → Bool
  | .stream (.copyData (.keepalive walEnd _)) => 0 < walEnd.toNat
  | .stream (.copyData (.xlogData walStart (.commit _ endLsn))) =>
    0 < walStart.toNat ∨ 0 < endLsn.toNat
  | .stream (.copyData (.xlogData walStart .other)) => 0 < walStart.toNat
  | .stream (.copyData (.failed walStart)) => 0 < walStart.toNat
  | .stream (.ack lsn) => (toLsn lsn).any (0 < ·)
  | _ => false

/-- A register has moved. -/
def Progress.Touched (p : Progress) : Prop :=
  0 < p.lastReceived ∨ 0 < p.flushed ∨ 0 < p.lastDeliveredEnd

/-! ### One event -/

theorem Progress.Touched.mono {p q : Progress} (h : p.Touched) (hle : p.Le q) : q.Touched := by
  obtain ⟨hr, hf, hd⟩ := hle
  unfold Progress.Touched at *
  omega

theorem le_next (s : Stream) (e : HistoryEvent) : s.progress.Le (s.next e).progress := by
  cases e with
  | start => exact .refl _
  | stream e => exact s.le_outcome e

theorem touched_receive (p : Progress) {lsn : UInt64} (h : 0 < lsn.toNat) :
    (p.receive lsn).Touched := by
  have hr := receive_lastReceived p lsn
  exact .inl (by omega)

/-- An event that brings a position moves a register. -/
theorem touched_of_brings {s : Stream} {e : HistoryEvent} (he : s.enabled e = true)
    (h : e.brings = true) : (s.next e).progress.Touched := by
  cases e with
  | start => cases h
  | stream e =>
    cases e with
    | copyData m =>
      have hlive : s.live = true := he
      have hnext : (s.next (.stream (.copyData m))).progress =
          (onCopyData s.idleAck s.progress m).progress := by
        simp [Stream.next, Stream.step, Stream.outcome, hlive]
      rw [hnext]
      cases m with
      | keepalive walEnd reply =>
        exact (touched_receive _ (of_decide_eq_true h)).mono (le_onKeepalive _ _ _ _)
      | xlogData walStart message =>
        cases message with
        | commit lsn endLsn =>
          show (deliver _ (decode (.commit lsn endLsn))).progress.Touched
          rcases of_decide_eq_true h with h | h
          · exact (touched_receive _ h).mono (le_deliver _ _)
          · rw [deliver_commit]
            dsimp only
            split
            · exact .inr (.inr (by dsimp only; omega))
            · exact .inr (.inr (by omega))
        | other => exact (touched_receive _ (of_decide_eq_true h)).mono (le_deliver _ _)
      | failed walStart => exact touched_receive _ (of_decide_eq_true h)
      | other => cases h
    | statusTimer => cases h
    | ack lsn =>
      show (ack s.progress lsn).progress.Touched
      cases hv : toLsn lsn with
      | none => simp [HistoryEvent.brings, hv] at h
      | some v =>
        have hpos : 0 < v := by simpa [HistoryEvent.brings, hv] using h
        have hnorm := le_normalize s.progress v
        rw [ack_progress hv]
        exact .inr (.inl (by dsimp only; omega))
    | ended => cases h

/-- An event that brings none leaves fresh registers as they are. -/
theorem fresh_of_not_brings {s : Stream} {e : HistoryEvent} (hs : s.progress = {})
    (h : e.brings = false) : (s.next e).progress = {} := by
  have hreceive : ∀ lsn : UInt64, lsn.toNat = 0 → s.progress.receive lsn = {} := by
    intro lsn hz
    rw [hs]
    simp [Progress.receive, hz]
  cases e with
  | start => exact hs
  | stream e =>
    cases e with
    | copyData m =>
      show (s.outcome (.copyData m)).progress = {}
      unfold Stream.outcome
      dsimp only
      split
      · cases m with
        | keepalive walEnd reply =>
          have hz : walEnd.toNat = 0 := by simpa [HistoryEvent.brings] using h
          show (onKeepalive s.idleAck s.progress walEnd reply).progress = {}
          rw [onKeepalive_progress, hreceive walEnd hz]
          simp [Progress.follows, hz, hs]
        | xlogData walStart message =>
          cases message with
          | commit lsn endLsn =>
            obtain ⟨hz, hend⟩ : walStart.toNat = 0 ∧ endLsn.toNat = 0 := by
              simpa [HistoryEvent.brings] using h
            show (deliver _ (decode (.commit lsn endLsn))).progress = {}
            rw [deliver_commit, hreceive walStart hz]
            simp [hend]
          | other => exact hreceive walStart (by simpa [HistoryEvent.brings] using h)
        | failed walStart => exact hreceive walStart (by simpa [HistoryEvent.brings] using h)
        | other => exact hs
      · exact hs
    | statusTimer =>
      show (s.outcome .statusTimer).progress = {}
      unfold Stream.outcome
      dsimp only
      split
      · rw [sendStatus_progress, hs]
      · exact hs
    | ack lsn =>
      show (ack s.progress lsn).progress = {}
      cases hv : toLsn lsn with
      | none => rw [ack_threw hv, hs]
      | some v =>
        have hneg : v ≤ 0 := by simpa [HistoryEvent.brings, hv] using h
        rw [ack_progress hv, hs]
        simp [Progress.normalize]
        omega
    | ended => exact hs

/-! ### A history -/

theorem fresh_of_quiet {s : Stream} {h : List HistoryEvent} (hs : s.progress = {})
    (hq : ∀ e ∈ h, e.brings = false) : (streams.exec s h).progress = {} := by
  induction h generalizing s with
  | nil => exact hs
  | cons e h ih =>
    obtain ⟨he, hq⟩ := List.forall_mem_cons.mp hq
    exact ih (fresh_of_not_brings hs he) hq

theorem touched_exec {s : Stream} {h : List HistoryEvent} (hr : streams.Runs Machine.Free s h)
    (ht : s.progress.Touched ∨ ∃ e ∈ h, e.brings = true) : (streams.exec s h).progress.Touched := by
  induction h generalizing s with
  | nil =>
    rcases ht with ht | ⟨e, hm, -⟩
    · exact ht
    · cases hm
  | cons e h ih =>
    obtain ⟨he, -, hr⟩ := hr
    apply ih hr
    rcases ht with ht | ⟨e', hm, hb⟩
    · exact .inl (ht.mono (le_next s e))
    · rcases List.mem_cons.mp hm with rfl | hm
      · exact .inl (touched_of_brings he hb)
      · exact .inr ⟨e', hm, hb⟩

/-- Registers that have moved show in a status message of some stream. -/
theorem Progress.Touched.shows {p : Progress} (h : p.Touched) :
    ∃ idleAck es, (p.start idleAck).statuses es ≠ (({} : Progress).start idleAck).statuses es := by
  by_cases hidle : p.lastReceived ≤ 0 ∧ p.flushed ≤ 0
  · -- only a delivered commit: it keeps an idle keepalive from being flushed
    refine ⟨true, [.copyData (.keepalive 1 true)], fun heq => ?_⟩
    have hfresh : (({} : Progress).start true).statuses [.copyData (.keepalive 1 true)] =
        [⟨1, 1⟩] := by decide
    rw [hfresh] at heq
    have hstatus : (sendStatus (p.receive 1)).sent.toList = [(⟨1, 1⟩ : Status)] := by
      have hf : (p.receive 1).follows true 1 = false := by
        have hp : 0 < p.lastDeliveredEnd := by
          unfold Progress.Touched at h
          omega
        simp only [Progress.follows, receive_flushed, receive_lastDeliveredEnd]
        apply decide_eq_false
        omega
      simpa [Stream.statuses, Progress.start, Stream.outcome, onCopyData, onKeepalive, hf] using heq
    have hm := congrArg Status.flushed (sendStatus_sent (Option.toList_eq_singleton_iff.mp hstatus))
    rw [receive_flushed] at hm
    dsimp only at hm
    omega
  · refine ⟨true, [.statusTimer], fun heq => ?_⟩
    have hfresh : (({} : Progress).start true).statuses [.statusTimer] = [⟨0, 0⟩] := by decide
    rw [hfresh] at heq
    have hstatus : (sendStatus p).sent.toList = [(⟨0, 0⟩ : Status)] := by
      simpa [Stream.statuses, Progress.start, Stream.outcome] using heq
    have hm := sendStatus_sent (Option.toList_eq_singleton_iff.mp hstatus)
    apply hidle
    rw [Status.mk.injEq] at hm
    omega

/-- **A new stream reports like one on a fresh connection exactly when no position came before.** -/
theorem statuses_eq_fresh_iff {h : List HistoryEvent} (hr : streams.Runs Machine.Free {} h) :
    (∀ idleAck es, ((streams.exec {} h).progress.start idleAck).statuses es =
      (({} : Progress).start idleAck).statuses es) ↔ ∀ e ∈ h, e.brings = false := by
  constructor
  · intro heq e he
    by_contra hb
    have ht := touched_exec hr (.inr ⟨e, he, by simpa using hb⟩)
    obtain ⟨idleAck, es, hne⟩ := ht.shows
    exact hne (heq idleAck es)
  · intro hq idleAck es
    rw [fresh_of_quiet rfl hq]

/-- A stream that brought nothing. -/
def silence : List HistoryEvent := [.start true, .stream .statusTimer, .stream .ended]

theorem statuses_eq_fresh_of_silence :
    (∀ idleAck es, ((streams.exec {} silence).progress.start idleAck).statuses es =
      (({} : Progress).start idleAck).statuses es) ↔ ∀ e ∈ silence, e.brings = false :=
  statuses_eq_fresh_iff (by decide +kernel)

/-- What one slot's consumer acknowledged is the first thing that the next slot is told. -/
theorem acked_position_leaks : ¬ ∀ h, streams.Runs Machine.Free {} h → ∀ idleAck es,
    ((streams.exec {} h).progress.start idleAck).statuses es =
      (({} : Progress).start idleAck).statuses es := by
  intro hall
  have heq := hall [.start true, .stream (.copyData (.xlogData 100 (.commit 100 200))),
    .stream (.ack (.text "0/C8")), .stream .ended] (by decide +kernel) true [.statusTimer]
  exact absurd heq (by decide +kernel)

end Minipg
