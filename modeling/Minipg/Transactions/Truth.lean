import Minipg.Transactions.Begin

/-!
# When begin() tells the truth

A call of `begin()` is all or nothing, and says which, as long as nobody else opens or ends
transactions on the connection, its COMMIT is not executed in a block that has failed, and the
socket does not die while the callback has the transaction (`Calm`).  Each condition is needed:
COMMIT of a failed block is no error, and a COMMIT that meets a new session is none either.

Under these conditions every statement that is executed between BEGIN and the end of the callback
is executed in the block that BEGIN opened.
-/

namespace Minipg.Transactions

open Blocks Lane

namespace Tx

/-- The steps that let `begin()` tell the truth. -/
def Calm (s : Tx) : TxEvent → Prop
  | .lane (.query c) => c.isControl = false
  | .lane (.serve _) =>
    ∀ t ∈ s.lane.sent.head?, t.command = .commit → s.lane.session.status ≠ .failed
  | .lane (.down _) =>
    match s.phase with
    | .opening b => s.lane.told b ≠ some true
    | .running _ => False
    | .committing _ e | .rollingBack _ e _ => e ∉ s.lane.queue.map (·.id)
    | _ => True
  | _ => True

instance (s : Tx) (e : TxEvent) : Decidable (s.Calm e) := by
  unfold Calm
  split
  · infer_instance
  · infer_instance
  · split <;> infer_instance
  · infer_instance

end Tx

/-! ### What a step changes, if it neither opens nor ends a block -/

section Quiet

variable {s : Lane} {b e i : Nat} {x : LaneEvent}

/-- The step executes no statement that opens or ends a block. -/
def Quiet (s : Lane) (x : LaneEvent) : Prop :=
  ∀ breaks, x = .serve breaks → ∀ t ∈ s.sent.head?, t.command.isControl = false

/-- The block that `b` opened is open, and every statement after `b` was executed in it. -/
def Inside (s : Lane) (b : Nat) : Prop :=
  s.opener = some b ∧ (b, true) ∉ s.session.ended ∧ ∀ y ∈ s.log, b < y.1 → y.2 = some b

/-- Every statement between `b` and `e` that was executed was executed in the block that `b` opened,
and no more will be executed. -/
def Between (s : Lane) (b e : Nat) : Prop :=
  e ≤ s.next ∧ (∀ y ∈ s.log, b < y.1 → y.1 < e → y.2 = some b) ∧ ∀ t ∈ s.pending, t.id ≤ b ∨ e ≤ t.id

theorem serve_cases (hx : s.enabled (.serve breaks) = true) :
    ∃ t ts, s.sent = t :: ts := by
  cases hs : s.sent with
  | nil =>
    simp only [enabled, hs, List.isEmpty_nil, Bool.not_true] at hx
    cases hx
  | cons t ts => exact ⟨t, ts, rfl⟩

theorem serve_session {t : Task} {ts : List Task} (hs : s.sent = t :: ts) (breaks : Bool) :
    (s.serve breaks).session = (s.session.exec t.id t.command breaks).2 ∧
      (s.serve breaks).log = s.log ++ [(t.id, s.opener)] := by
  unfold Lane.serve
  rw [hs]
  exact ⟨rfl, rfl⟩

theorem down_session (r : Bool) : (s.onSocketDown r).session = s.session.lose ∧
    (s.onSocketDown r).log = s.log := by
  cases r <;> exact ⟨rfl, rfl⟩

theorem quiet_opener (hq : Quiet s x) (hx : s.enabled x = true) (hd : ∀ r, x ≠ .down r) :
    (s.step x).opener = s.opener := by
  by_cases hserve : ∃ breaks, x = .serve breaks
  · obtain ⟨breaks, rfl⟩ := hserve
    obtain ⟨t, ts, hs⟩ := serve_cases hx
    show (s.serve breaks).opener = s.opener
    rw [serve_opener hs]
    exact (Backend.exec_keeps (hq breaks rfl t (by rw [hs]; rfl))).1
  · exact opener_step (fun breaks hb => hserve ⟨breaks, hb⟩) hd

theorem quiet_committed (hq : Quiet s x) (hx : s.enabled x = true) :
    (b, true) ∈ (s.step x).session.ended ↔ (b, true) ∈ s.session.ended := by
  by_cases hserve : ∃ breaks, x = .serve breaks
  · obtain ⟨breaks, rfl⟩ := hserve
    obtain ⟨t, ts, hs⟩ := serve_cases hx
    show (b, true) ∈ (s.serve breaks).session.ended ↔ _
    rw [(serve_session hs breaks).1, (Backend.exec_keeps (hq breaks rfl t (by rw [hs]; rfl))).2]
  by_cases hdown : ∃ r, x = .down r
  · obtain ⟨r, rfl⟩ := hdown
    show (b, true) ∈ (s.onSocketDown r).session.ended ↔ _
    rw [(down_session r).1, Backend.lose_committed]
  · rw [(session_step (fun breaks hb => hserve ⟨breaks, hb⟩) (fun r hr => hdown ⟨r, hr⟩)).1]

/-- A step of the connection adds to the log what it executes. -/
theorem log_step (hx : s.enabled x = true) {y : Nat × Option Nat} (hy : y ∈ (s.step x).log) :
    y ∈ s.log ∨ ∃ breaks t ts, x = .serve breaks ∧ s.sent = t :: ts ∧ y = (t.id, s.opener) := by
  by_cases hserve : ∃ breaks, x = .serve breaks
  · obtain ⟨breaks, rfl⟩ := hserve
    obtain ⟨t, ts, hs⟩ := serve_cases hx
    have hy : y ∈ (s.serve breaks).log := hy
    rw [(serve_session hs breaks).2] at hy
    rcases List.mem_append.mp hy with hy | hy
    · exact .inl hy
    · exact .inr ⟨breaks, t, ts, rfl, hs, List.mem_singleton.mp hy⟩
  by_cases hdown : ∃ r, x = .down r
  · obtain ⟨r, rfl⟩ := hdown
    exact .inl ((down_session r).2 ▸ hy)
  · rw [(session_step (fun breaks hb => hserve ⟨breaks, hb⟩) (fun r hr => hdown ⟨r, hr⟩)).2] at hy
    exact .inl hy

/-- Every effect comes from a statement in the log. -/
def Logged (s : Lane) : Prop := s.session.Sourced fun i w => (i, w) ∈ s.log

theorem Logged.step (h : Logged s) (hx : s.enabled x = true) : Logged (s.step x) := by
  by_cases hserve : ∃ breaks, x = .serve breaks
  · obtain ⟨breaks, rfl⟩ := hserve
    obtain ⟨t, ts, hs⟩ := serve_cases hx
    show (s.serve breaks).session.Sourced fun i w => (i, w) ∈ (s.serve breaks).log
    rw [(serve_session hs breaks).1, (serve_session hs breaks).2]
    refine Backend.Sourced.exec (h.mono fun i w hm => List.mem_append_left _ hm) ?_
    exact List.mem_append_right _ List.mem_cons_self
  by_cases hdown : ∃ r, x = .down r
  · obtain ⟨r, rfl⟩ := hdown
    show (s.onSocketDown r).session.Sourced fun i w => (i, w) ∈ (s.onSocketDown r).log
    rw [(down_session r).1, (down_session r).2]
    exact h.lose
  · obtain ⟨hsession, hlog⟩ := session_step (s := s) (fun breaks hb => hserve ⟨breaks, hb⟩)
      (fun r hr => hdown ⟨r, hr⟩)
    unfold Logged
    rw [hsession, hlog]
    exact h

theorem Inside.step (h : Inside s b) (hq : Quiet s x) (hx : s.enabled x = true)
    (hd : ∀ r, x ≠ .down r) : Inside (s.step x) b := by
  refine ⟨(quiet_opener hq hx hd).trans h.1, fun hc => h.2.1 ((quiet_committed hq hx).mp hc),
    fun y hy hlt => ?_⟩
  rcases log_step hx hy with hy | ⟨breaks, t, ts, rfl, hs, rfl⟩
  · exact h.2.2 y hy hlt
  · exact h.1

theorem Between.step (h : Between s b e) (hx : s.enabled x = true) : Between (s.step x) b e := by
  refine ⟨Nat.le_trans h.1 (next_le_step s x), ?_, ?_⟩
  · intro y hy hb hye
    rcases log_step hx hy with hy | ⟨breaks, t, ts, rfl, hs, rfl⟩
    · exact h.2.1 y hy hb hye
    · rcases h.2.2 t (List.mem_append_left _ (hs ▸ List.mem_cons_self)) with ht | ht
      · exact absurd hb (Nat.not_lt_of_le ht)
      · exact absurd hye (Nat.not_lt_of_le ht)
  · intro t ht
    rcases pending_step ht with ht | ⟨c, -, rfl⟩
    · exact h.2.2 t ht
    · exact .inr h.1

/-- What was executed between `b` and `e` is durable only if the block of `b` was committed. -/
theorem Between.durable (h : Between s b e) (hl : Logged s) (hi : i ∈ s.session.durable)
    (hb : b < i) (he : i < e) : (b, true) ∈ s.session.ended := by
  obtain hnone | ⟨d, hd, hsome⟩ := hl.durable i hi
  · exact nomatch h.2.1 _ hnone hb he
  · obtain rfl : d = b := Option.some.inj (h.2.1 _ hsome hb he)
    exact hd

/-- What is pending is in order. -/
theorem Sound.pending_sorted (hs : s.Sound) : (s.pending.map (·.id)).Pairwise (· < ·) :=
  (List.pairwise_append.mp hs.order).2.1

/-- The end of the callback is executed. -/
theorem Inside.serve (h : Inside s b) (hs : s.Sound) {t : Task} {ts : List Task}
    (hsent : s.sent = t :: ts) (breaks : Bool) : Between (s.serve breaks) b t.id := by
  have ht : t ∈ s.pending := List.mem_append_left _ (hsent ▸ List.mem_cons_self)
  refine ⟨Nat.le_trans (Nat.le_of_lt (hs.pending_lt ht)) (next_le_step s (.serve breaks)), ?_, ?_⟩
  · intro y hy hb hye
    rw [(serve_session hsent breaks).2] at hy
    rcases List.mem_append.mp hy with hy | hy
    · exact h.2.2 y hy hb
    · rw [List.mem_singleton.mp hy] at hye
      exact absurd hye (Nat.lt_irrefl _)
  · intro u hu
    have hp := Sound.pending_sorted hs
    rw [pending, hsent, List.cons_append, List.map_cons] at hp
    have hu : u ∈ ts ++ s.queue := by
      unfold Lane.serve at hu
      rw [hsent] at hu
      exact hu
    exact .inr (Nat.le_of_lt ((List.pairwise_cons.mp hp).1 u.id (List.mem_map_of_mem hu)))

/-- The socket dies with the end of the callback in flight. -/
theorem Inside.down (h : Inside s b) (hs : s.Sound) (he : e ∈ s.pending.map (·.id))
    (hq : e ∉ s.queue.map (·.id)) (r : Bool) : Between (s.onSocketDown r) b e := by
  have hlt : e < s.next := hs.fresh e (List.mem_append_right _ he)
  refine ⟨Nat.le_trans (Nat.le_of_lt hlt) (next_le_step s (.down r)), ?_, ?_⟩
  · intro y hy hb _
    rw [(down_session r).2] at hy
    exact h.2.2 y hy hb
  · intro u hu
    have hqueue : u ∈ s.queue := by
      cases r with
      | true => exact hu
      | false => exact nomatch hu
    have hp := Sound.pending_sorted hs
    rw [pending, List.map_append] at hp he
    have hsent := (List.mem_append.mp he).resolve_right hq
    exact .inr (Nat.le_of_lt ((List.pairwise_append.mp hp).2.2 e hsent u.id (List.mem_map_of_mem hqueue)))

end Quiet

/-! ### What is known in each phase -/

variable {s : Lane} {b e : Nat} {isLost isOk : Bool}

/-- BEGIN was executed: the block is open, or none is. -/
def Opened (s : Lane) (b : Nat) (isOk : Bool) : Prop :=
  if isOk then Inside s b else s.opener = none ∧ (b, true) ∉ s.session.ended

/-- The statement that follows the callback was executed or dropped. -/
def Closed (s : Lane) (isLost : Bool) (b e : Nat) (isOk : Bool) : Prop :=
  Between s b e ∧ (isOk = true → (b, true) ∈ s.session.ended) ∧
    ((b, true) ∈ s.session.ended → isOk = true ∨ isLost = true)

def Account (s : Lane) (isLost : Bool) : Phase → Prop
  | .before => s.opener = none
  | .opening b => ∃ st, s.At b st ∧ match st with
    | .waiting => s.opener = none ∧ (b, true) ∉ s.session.ended
    | .answered isOk | .settled isOk => Opened s b isOk
  | .running b => Inside s b
  | .committing b e => ∃ st, s.At e st ∧ match st with
    | .waiting => Inside s b
    | .answered isOk | .settled isOk => Closed s isLost b e isOk
  | .rollingBack b e r => ((b, true) ∈ s.session.ended → isLost = true) ∧
    (Between s b e ∨ e = r ∧ s.At r .waiting ∧ Inside s b)
  | .resolved b e => (b, true) ∈ s.session.ended ∧ Between s b e
  | .rejected b e => ((b, true) ∈ s.session.ended → isLost = true) ∧ Between s b e

/-! ### The connection makes a step -/

/-- BEGIN opens a block if it succeeds. -/
theorem opened_serve (hs : s.Sound) (ho : s.opener = none) (hc : (b, true) ∉ s.session.ended)
    {t : Task} {ts : List Task} (hsent : s.sent = t :: ts) (ht : t.id = b) (hcmd : t.command = .begin)
    (breaks : Bool) : Opened (s.serve breaks) b (s.session.exec b t.command breaks).1 := by
  have hblock := Backend.opener_eq_none.mp ho
  have hcommitted : (b, true) ∉ (s.serve breaks).session.ended := by
    rw [(serve_session hsent breaks).1, hcmd, Backend.exec_begin_ended]
    exact hc
  unfold Opened
  rw [hcmd, Backend.exec_begin hblock]
  cases breaks with
  | true =>
    refine ⟨?_, hcommitted⟩
    rw [serve_opener hsent, hcmd, Backend.exec_begin hblock]
    exact ho
  | false =>
    refine ⟨?_, hcommitted, fun y hy hlt => ?_⟩
    · rw [serve_opener hsent, hcmd, Backend.exec_begin hblock, ht]
      rfl
    · rw [(serve_session hsent false).2] at hy
      rcases List.mem_append.mp hy with hy | hy
      · refine absurd hlt (Nat.not_lt_of_lt ?_)
        exact (List.pairwise_append.mp hs.order).2.2 y.1 (List.mem_map_of_mem hy) b
          (List.mem_map.mpr ⟨t, List.mem_append_left _ (hsent ▸ List.mem_cons_self), ht⟩)
      · rw [List.mem_singleton.mp hy, ht] at hlt
        exact absurd hlt (Nat.lt_irrefl b)

section LaneSteps

variable {x : LaneEvent} {i : Nat} {phase : Phase}

/-- What opens or ends a block is the statement that the call awaits. -/
def Alone (s : Lane) (phase : Phase) : Prop :=
  ∀ t ∈ s.pending, t.command.isControl = true → phase.awaited = some t.id

theorem Alone.quiet (h : Alone s phase)
    (hserve : ∀ breaks, x = .serve breaks → ∀ t ∈ s.sent.head?, phase.awaited ≠ some t.id) :
    Quiet s x := by
  intro breaks hx t ht
  cases hc : t.command.isControl with
  | false => rfl
  | true =>
    exact absurd (h t (List.mem_append_left _ (List.mem_of_mem_head? ht)) hc) (hserve breaks hx t ht)

theorem Alone.quiet_of_ne (h : Alone s phase) (hi : phase.awaited = some i)
    (hserve : ∀ breaks, x = .serve breaks → ∀ t ∈ s.sent.head?, t.id ≠ i) : Quiet s x :=
  h.quiet fun breaks hx t ht ha => hserve breaks hx t ht (Option.some.inj (ha.symm.trans hi))

theorem Opened.step (h : Opened s b isOk) (hq : Quiet s x) (hx : s.enabled x = true)
    (hd : isOk = true → ∀ r, x ≠ .down r) : Opened (s.step x) b isOk := by
  cases isOk with
  | true => exact Inside.step h hq hx (hd rfl)
  | false =>
    refine ⟨?_, fun hc => h.2 ((quiet_committed hq hx).mp hc)⟩
    by_cases hdown : ∃ r, x = .down r
    · obtain ⟨r, rfl⟩ := hdown
      exact down_opener r
    · exact (quiet_opener hq hx (fun r hr => hdown ⟨r, hr⟩)).trans h.1

theorem opened_false_of_lost (h : (b, true) ∉ s.session.ended) (hq : Quiet s x)
    (hx : s.enabled x = true) (ho : (s.step x).opener = none) : Opened (s.step x) b false :=
  ⟨ho, fun hc => h ((quiet_committed hq hx).mp hc)⟩

theorem Opened.notCommitted (h : Opened s b isOk) : (b, true) ∉ s.session.ended := by
  cases isOk with
  | true => exact h.2.1
  | false => exact h.2

theorem quiet_of_lost (hlost : (∃ r, x = .down r) ∨ x = .giveUp) : Quiet s x := by
  rintro breaks rfl
  rcases hlost with ⟨r, hr⟩ | hr <;> cases hr

theorem account_opening (hs : s.Sound) (hhold : Holds s b .begin) (halone : Alone s (.opening b))
    (h : Account s isLost (.opening b)) (hx : s.enabled x = true) (hc : x ≠ .cancel b)
    (hcalm : ∀ r, x = .down r → s.told b ≠ some true) (isLost' : Bool) :
    Account (s.step x) isLost' (.opening b) := by
  obtain ⟨st, hat, ho⟩ := h
  obtain ⟨st', hat', hmove⟩ := hat.step hs hx hc (fun t ht hi => by rw [hhold t ht hi]; exact nofun)
  refine ⟨st', hat', ?_⟩
  cases hmove with
  | stay hserve hdown hans =>
    have hq : Quiet s x := halone.quiet_of_ne rfl hserve
    cases st with
    | waiting =>
      have hstep : Opened s b false := ho
      exact hstep.step hq hx nofun
    | answered isOk => exact Opened.step ho hq hx (fun _ r hr => hans r isOk hr rfl)
    | settled isOk =>
      refine Opened.step ho hq hx (fun hok r hr => hcalm r hr ?_)
      cases hat with
      | settled ht _ => rw [ht, hok]
  | @serve breaks t ts hsent ht =>
    exact opened_serve hs ho.1 ho.2 hsent ht
      (hhold t (List.mem_append_left _ (hsent ▸ List.mem_cons_self)) ht) breaks
  | @read isOk =>
    exact Opened.step ho (fun _ h => nomatch h) hx (fun _ _ => nofun)
  | lost hlost hst hnone =>
    refine opened_false_of_lost ?_ (quiet_of_lost hlost) hx hnone
    cases st with
    | waiting => exact ho.2
    | answered isOk => exact Opened.notCommitted ho
    | settled isOk => exact absurd rfl (hst isOk)

/-- A call that has the transaction keeps its socket, so nothing it sends is dropped. -/
theorem Inside.lost_down (h : Inside s b) (hs : s.Sound) (hx : s.enabled x = true)
    (hlost : (∃ r, x = .down r) ∨ x = .giveUp) : ∃ r, x = .down r := by
  obtain hd | rfl := hlost
  · exact hd
  · have hl : s.link ≠ .ready := by
      rw [show s.link = .reconnecting from of_decide_eq_true hx]
      exact nofun
    exact nomatch (hs.down hl).2.2.symm.trans h.1

theorem Closed.step (h : Closed s isLost b e isOk) (hq : Quiet s x) (hx : s.enabled x = true)
    {isLost' : Bool} (hmono : isLost = true → isLost' = true) :
    Closed (s.step x) isLost' b e isOk :=
  ⟨h.1.step hx, fun hok => (quiet_committed hq hx).mpr (h.2.1 hok),
    fun hc => (h.2.2 ((quiet_committed hq hx).mp hc)).imp_right hmono⟩

theorem account_committing (hs : s.Sound) (hhold : Holds s e .commit)
    (halone : Alone s (.committing b e)) (h : Account s isLost (.committing b e))
    (hx : s.enabled x = true) (hc : x ≠ .cancel e)
    (hfailed : ∀ breaks, x = .serve breaks → ∀ t ∈ s.sent.head?, t.command = .commit →
      s.session.status ≠ .failed)
    (hcalm : ∀ r, x = .down r → e ∉ s.queue.map (·.id)) {isLost' : Bool}
    (hmono : isLost = true → isLost' = true)
    (hloses : ∀ r, x = .down r → ∀ y ∈ s.answered, y.1.id = e → y.2.isOk = true → isLost' = true) :
    Account (s.step x) isLost' (.committing b e) := by
  obtain ⟨st, hat, ho⟩ := h
  obtain ⟨st', hat', hmove⟩ := hat.step hs hx hc (fun t ht hi => by rw [hhold t ht hi]; exact nofun)
  refine ⟨st', hat', ?_⟩
  cases hmove with
  | stay hserve hdown hans =>
    have hq : Quiet s x := halone.quiet_of_ne rfl hserve
    cases st with
    | waiting =>
      exact Inside.step ho hq hx (fun r hr => hcalm r hr (hdown r hr rfl))
    | answered isOk | settled isOk => exact Closed.step ho hq hx hmono
  | @serve breaks t ts hsent ht =>
    have hcmd := hhold t (List.mem_append_left _ (hsent ▸ List.mem_cons_self)) ht
    have hst := hfailed breaks rfl t (by rw [hsent]; rfl) hcmd
    have hiff := @Backend.exec_commit_committed _ s.session e breaks b ho.1 hst
    have hended : (s.serve breaks).session = (s.session.exec e .commit breaks).2 := by
      rw [(serve_session hsent breaks).1, hcmd, ht]
    have hclosed : Closed (s.serve breaks) isLost' b e (s.session.exec e .commit breaks).1 := by
      refine ⟨ht ▸ Inside.serve ho hs hsent breaks, fun hok => ?_, fun hcm => ?_⟩
      · rw [hended]
        exact hiff.mpr (.inr hok)
      · rw [hended] at hcm
        exact .inl ((hiff.mp hcm).resolve_left ho.2.1)
    rw [hcmd]
    exact hclosed
  | @read isOk => exact Closed.step ho (fun _ h => LaneEvent.noConfusion h) hx hmono
  | lost hlost hst _ =>
    have hq : Quiet s x := quiet_of_lost hlost
    cases st with
    | waiting =>
      obtain ⟨r, rfl⟩ := Inside.lost_down ho hs hx hlost
      have hp : e ∈ s.pending.map (·.id) := by
        cases hat with
        | waiting hp _ => exact hp
      exact ⟨Inside.down ho hs hp (hcalm r rfl) r, nofun,
        fun hcm => absurd ((quiet_committed hq hx).mp hcm) ho.2.1⟩
    | answered isOk =>
      obtain ⟨hbetween, hyes, hno⟩ := ho
      refine ⟨hbetween.step hx, nofun, fun hcm => .inr ?_⟩
      obtain hok | hl := hno ((quiet_committed hq hx).mp hcm)
      · subst hok
        obtain ⟨y, hy, hid, hyok⟩ := hat.answer
        obtain ⟨r, rfl⟩ | rfl := hlost
        · exact hloses r rfl y hy hid hyok
        · have hl : s.link ≠ .ready := by
            rw [show s.link = .reconnecting from of_decide_eq_true hx]
            exact nofun
          rw [(hs.down hl).2.1] at hy
          exact nomatch hy
      · exact hmono hl
    | settled isOk => exact absurd rfl (hst isOk)

theorem account_rollingBack {r : Nat} (hs : s.Sound) (hhold : Holds s r .rollback)
    (halone : Alone s (.rollingBack b e r))
    (h : Account s isLost (.rollingBack b e r)) (hx : s.enabled x = true) (hc : x ≠ .cancel r)
    (hcalm : ∀ d, x = .down d → e ∉ s.queue.map (·.id)) {isLost' : Bool}
    (hmono : isLost = true → isLost' = true) : Account (s.step x) isLost' (.rollingBack b e r) := by
  obtain ⟨hcommitted, hwhere⟩ := h
  constructor
  · intro hcm
    refine hmono (hcommitted ?_)
    by_cases hown : ∃ breaks t ts, x = .serve breaks ∧ s.sent = t :: ts ∧ t.id = r
    · obtain ⟨breaks, t, ts, rfl, hsent, ht⟩ := hown
      have hcmd := hhold t (List.mem_append_left _ (hsent ▸ List.mem_cons_self)) ht
      have hcm : (b, true) ∈ (s.serve breaks).session.ended := hcm
      rw [(serve_session hsent breaks).1, hcmd, Backend.exec_rollback_committed] at hcm
      exact hcm
    · have hq : Quiet s x := halone.quiet_of_ne rfl fun breaks hb t ht hi => by
        subst hb
        obtain ⟨u, us, hsent⟩ := serve_cases hx
        obtain rfl : u = t := by simpa [hsent] using ht
        exact hown ⟨breaks, u, us, rfl, hsent, hi⟩
      exact (quiet_committed hq hx).mp hcm
  · obtain hbetween | ⟨rfl, hat, hin⟩ := hwhere
    · exact .inl (hbetween.step hx)
    · obtain ⟨st', hat', hmove⟩ := hat.step hs hx hc (fun t ht hi => by
        rw [hhold t ht hi]
        exact nofun)
      have hp : e ∈ s.pending.map (·.id) := by
        cases hat with
        | waiting hp _ => exact hp
      cases hmove with
      | stay hserve hdown _ =>
        have hq : Quiet s x := halone.quiet_of_ne rfl hserve
        exact .inr ⟨rfl, hat', hin.step hq hx (fun d hd => hcalm d hd (hdown d hd rfl))⟩
      | @serve breaks t ts hsent ht => exact .inl (ht ▸ Inside.serve hin hs hsent breaks)
      | lost hlost _ _ =>
        obtain ⟨d, rfl⟩ := hin.lost_down hs hx hlost
        exact .inl (Inside.down hin hs hp (hcalm d rfl) d)

end LaneSteps

/-! ### Calm runs -/

theorem Alone.step {phase : Phase} (h : Alone s phase) {x : LaneEvent}
    (hquery : ∀ c, x = .query c → c.isControl = false) : Alone (s.step x) phase := by
  intro t ht hc
  rcases pending_step ht with ht | ⟨c, rfl, rfl⟩
  · exact h t ht hc
  · exact absurd hc (by rw [hquery c rfl]; exact nofun)

/-- The statement that the call awaited does not wait any more, so a new one is the only one. -/
theorem Alone.query {phase phase' : Phase} (h : Alone s phase)
    (hp : ∀ i, phase.awaited = some i → i ∉ s.pending.map (·.id)) (c : Command)
    (hnext : phase'.awaited = some s.next) : Alone (s.query c) phase' := by
  intro t ht hc
  rcases pending_step (e := .query c) ht with ht | ⟨c', -, rfl⟩
  · exact absurd (List.mem_map_of_mem ht) (hp _ (h t ht hc))
  · exact hnext

theorem Alone.settled {phase phase' : Phase} (h : Alone s phase)
    (hp : ∀ i, phase.awaited = some i → i ∉ s.pending.map (·.id)) : Alone s phase' :=
  fun t ht hc => absurd (List.mem_map_of_mem ht) (hp _ (h t ht hc))

/-- Only a block that was open has ended. -/
theorem old_step (ho : ∀ b, s.opener = some b → b < s.next)
    (h : ∀ y ∈ s.session.ended, y.1 < s.next) {x : LaneEvent} (hx : s.enabled x = true) :
    ∀ y ∈ (s.step x).session.ended, y.1 < (s.step x).next := by
  intro y hy
  refine Nat.lt_of_lt_of_le ?_ (next_le_step s x)
  have hcases : y ∈ s.session.ended ∨ s.opener = some y.1 := by
    by_cases hserve : ∃ breaks, x = .serve breaks
    · obtain ⟨breaks, rfl⟩ := hserve
      obtain ⟨t, ts, hs⟩ := serve_cases hx
      have hy : y ∈ (s.serve breaks).session.ended := hy
      rw [(serve_session hs breaks).1] at hy
      exact Backend.mem_exec_ended hy
    by_cases hdown : ∃ r, x = .down r
    · obtain ⟨r, rfl⟩ := hdown
      have hy : y ∈ (s.onSocketDown r).session.ended := hy
      rw [(down_session r).1] at hy
      exact Backend.mem_lose_ended hy
    · rw [(session_step (fun breaks hb => hserve ⟨breaks, hb⟩) (fun r hr => hdown ⟨r, hr⟩)).1] at hy
      exact .inl hy
  exact hcases.elim (h y) (ho y.1)

namespace Tx

/-- The invariant of calm runs. -/
structure Honest (s : Tx) : Prop where
  inv : s.Inv
  alone : Alone s.lane s.phase
  old : ∀ y ∈ s.lane.session.ended, y.1 < s.lane.next
  logged : Logged s.lane
  account : Account s.lane s.isLost s.phase

theorem losesCommit_down {s : Tx} {b e : Nat} (hph : s.phase = .committing b e) {y : Task × Answer}
    (hy : y ∈ s.lane.answered) (hid : y.1.id = e) (hok : y.2.isOk = true) (r : Bool) :
    s.losesCommit (.down r) = true := by
  unfold losesCommit
  simp only [hph]
  exact List.any_eq_true.mpr ⟨y, hy, by simp [hid, hok]⟩

theorem Honest.init : Honest {} where
  inv := Inv.init
  alone _ ht := nomatch ht
  old _ hy := nomatch hy
  logged := ⟨(fun _ hi => nomatch hi), (fun _ hb => nomatch hb), (fun _ hb => nomatch hb)⟩
  account := rfl

/-- A step of the connection, in every phase of the call. -/
theorem Honest.lane {s : Tx} (h : Honest s) {x : LaneEvent} (he : s.enabled (.lane x) = true)
    (hcalm : s.Calm (.lane x)) : Honest (s.step (.lane x)) := by
  obtain ⟨hx, hc⟩ := enabled_lane he
  have hs := h.inv.sound
  have hmono : s.isLost = true → (s.isLost || s.losesCommit x) = true := fun hl => by rw [hl]; rfl
  have hquery : ∀ c, x = .query c → c.isControl = false := by
    rintro c rfl
    exact hcalm
  refine ⟨h.inv.lane hx hc, h.alone.step hquery, old_step h.inv.opened h.old hx, h.logged.step hx, ?_⟩
  show Account (s.lane.step x) (s.isLost || s.losesCommit x) s.phase
  have halone := h.alone
  have haccount := h.account
  have hstage := h.inv.stage
  have hfree : s.phase.awaited = none → Quiet s.lane x := fun hn =>
    halone.quiet fun _ _ _ _ ha => nomatch hn.symm.trans ha
  cases hph : s.phase with
  | before =>
    rw [hph] at haccount
    by_cases hdown : ∃ r, x = .down r
    · obtain ⟨r, rfl⟩ := hdown
      exact down_opener r
    · exact (quiet_opener (hfree (by rw [hph]; rfl)) hx (fun r hr => hdown ⟨r, hr⟩)).trans haccount
  | opening b =>
    rw [hph] at halone haccount hstage hc
    refine account_opening hs hstage.1 halone haccount hx (hc b rfl) ?_ _
    rintro r rfl
    simpa [Calm, hph] using hcalm
  | running b =>
    rw [hph] at haccount
    refine Inside.step haccount (hfree (by rw [hph]; rfl)) hx ?_
    rintro r rfl
    simp [Calm, hph] at hcalm
  | committing b e =>
    rw [hph] at halone haccount hstage hc
    refine account_committing hs hstage.2.2.1 halone haccount hx (hc e rfl) ?_ ?_ hmono ?_
    · rintro breaks rfl
      exact hcalm
    · rintro r rfl
      simpa [Calm, hph] using hcalm
    · rintro r rfl y hy hid hok
      rw [losesCommit_down hph hy hid hok r, Bool.or_true]
  | rollingBack b e r =>
    rw [hph] at halone haccount hstage hc
    refine account_rollingBack hs hstage.2.2.1 halone haccount hx (hc r rfl) ?_ hmono
    rintro d rfl
    simpa [Calm, hph] using hcalm
  | resolved b e =>
    rw [hph] at haccount
    have hq := hfree (by rw [hph]; rfl)
    exact ⟨(quiet_committed hq hx).mpr haccount.1, haccount.2.step hx⟩
  | rejected b e =>
    rw [hph] at haccount
    have hq := hfree (by rw [hph]; rfl)
    exact ⟨fun hcm => hmono (haccount.1 ((quiet_committed hq hx).mp hcm)), haccount.2.step hx⟩

/-- The step that submits a statement of the call. -/
theorem quiet_query (s : Lane) (c : Command) : Quiet s (.query c) := fun _ h => nomatch h

theorem Honest.await {s : Tx} (h : Honest s) {c : Command} {phase : Nat → Phase}
    (hinv : (s.await c phase).Inv)
    (hp : ∀ i, s.phase.awaited = some i → i ∉ s.lane.pending.map (·.id))
    (hnext : (phase s.lane.next).awaited = some s.lane.next)
    (haccount : Account (s.lane.query c) s.isLost (phase s.lane.next)) :
    Honest (s.await c phase) :=
  ⟨hinv, h.alone.query hp c hnext, old_step h.inv.opened h.old (x := .query c) rfl,
    h.logged.step (x := .query c) rfl, haccount⟩

theorem at_waiting {s : Lane} (hs : s.Sound) (h : Inside s b) (c : Command) :
    (s.query c).At s.next .waiting :=
  (hs.at_next c).resolve_right fun hn => nomatch hn.2.symm.trans h.1

theorem Honest.call {s : Tx} (h : Honest s) (hph : s.phase = .before) :
    Honest (s.await .begin .opening) := by
  have haccount := h.account
  rw [hph] at haccount
  have ho : (s.lane.query .begin).opener = none :=
    (quiet_opener (x := .query .begin) (quiet_query _ _) rfl (fun _ => nofun)).trans haccount
  have hnew : (s.lane.next, true) ∉ (s.lane.query .begin).session.ended := fun hm =>
    Nat.lt_irrefl _ (h.old _ ((quiet_committed (x := .query .begin) (quiet_query _ _) rfl).mp hm))
  refine h.await h.inv.call (fun i hi => ?_) rfl ?_
  · rw [hph] at hi
    exact nomatch hi
  · obtain hw | ⟨hr, -⟩ := h.inv.sound.at_next .begin
    · exact ⟨_, hw, ho, hnew⟩
    · exact ⟨_, hr, ho, hnew⟩

theorem Honest.finish {s : Tx} (h : Honest s) (r : Bool) : Honest (s.finish r) := by
  have hinv := h.inv.finish r
  unfold Tx.finish at hinv ⊢
  cases hph : s.phase with
  | running b =>
    have haccount := h.account
    rw [hph] at haccount
    simp only [hph] at hinv ⊢
    have hnone : ∀ i, s.phase.awaited = some i → i ∉ s.lane.pending.map (·.id) := fun i hi => by
      rw [hph] at hi
      exact nomatch hi
    have hinside : ∀ c, Inside (s.lane.query c) b := fun c =>
      Inside.step (x := .query c) haccount (quiet_query _ _) rfl (fun _ => nofun)
    cases r with
    | true =>
      exact h.await hinv hnone rfl ⟨_, at_waiting h.inv.sound haccount _, hinside _⟩
    | false =>
      exact h.await hinv hnone rfl ⟨fun hm => absurd hm (hinside _).2.1,
        .inr ⟨rfl, at_waiting h.inv.sound haccount _, hinside _⟩⟩
  | before | opening _ | committing _ _ | rollingBack _ _ _ | resolved _ _ | rejected _ _ => exact h

theorem Honest.goOn {s : Tx} (h : Honest s) : Honest s.goOn := by
  have hinv := h.inv.goOn
  have haccount := h.account
  unfold Tx.goOn at hinv ⊢
  split at hinv
  · rename_i b isOk hph ha
    rw [hph] at haccount
    obtain ⟨st, hat, ho⟩ := haccount
    obtain ⟨rfl, hp⟩ := At.settled_of_told hat (told_of_answer (by rw [hph]; rfl) ha)
    have hdone : ∀ i, s.phase.awaited = some i → i ∉ s.lane.pending.map (·.id) := fun i hi => by
      rw [hph] at hi
      exact Option.some.inj hi ▸ hp
    refine ⟨hinv, h.alone.settled hdone, h.old, h.logged, ?_⟩
    cases isOk with
    | true => exact ho
    | false =>
      refine ⟨fun hm => absurd hm ho.2, Nat.le_of_lt (hat.lt h.inv.sound), ?_, fun t _ => ?_⟩
      · exact fun y _ hb hy => absurd (Nat.lt_trans hb hy) (Nat.lt_irrefl _)
      · exact Nat.le_total t.id b
  · rename_i b e isOk hph ha
    rw [hph] at haccount
    obtain ⟨st, hat, ho⟩ := haccount
    obtain ⟨rfl, hp⟩ := At.settled_of_told hat (told_of_answer (by rw [hph]; rfl) ha)
    have hdone : ∀ i, s.phase.awaited = some i → i ∉ s.lane.pending.map (·.id) := fun i hi => by
      rw [hph] at hi
      exact Option.some.inj hi ▸ hp
    obtain ⟨hbetween, hyes, hno⟩ := ho
    cases isOk with
    | true => exact ⟨hinv, h.alone.settled hdone, h.old, h.logged, hyes rfl, hbetween⟩
    | false =>
      have hq := quiet_query s.lane .rollback
      refine h.await hinv hdone rfl ⟨fun hm => ?_, .inl (hbetween.step (x := .query .rollback) rfl)⟩
      exact (hno ((quiet_committed hq rfl).mp hm)).resolve_left nofun
  · rename_i b e r isOk hph ha
    rw [hph] at haccount
    have htold := told_of_answer (i := r) (by rw [hph]; rfl) ha
    have hstage := h.inv.stage
    rw [hph] at hstage
    obtain ⟨-, -, -, st, hat, -⟩ := hstage
    obtain ⟨rfl, hp⟩ := At.settled_of_told hat htold
    have hdone : ∀ i, s.phase.awaited = some i → i ∉ s.lane.pending.map (·.id) := fun i hi => by
      rw [hph] at hi
      exact Option.some.inj hi ▸ hp
    refine ⟨hinv, h.alone.settled hdone, h.old, h.logged, haccount.1, haccount.2.resolve_right ?_⟩
    rintro ⟨-, hw, -⟩
    exact nomatch (At.settled_of_told hw htold).1
  · exact h

/-- A call on a new connection, in a calm run. -/
def CalmlyReachable : Tx → Prop := machine.Reach Calm (· = {})

theorem CalmlyReachable.honest {s : Tx} (h : CalmlyReachable s) : Honest s := by
  refine h.invariant (fun s hs => hs ▸ Honest.init) (fun s e hs he hok => ?_)
  cases e with
  | lane x => exact hs.lane he hok
  | call => exact hs.call (of_decide_eq_true (Bool.and_eq_true_iff.mp he).1)
  | resume => exact hs.goOn
  | returns => exact hs.finish true
  | throws => exact hs.finish false

/-- The callback swallows the failure of its statement: COMMIT of the failed block is answered by
ROLLBACK, and the call resolves. -/
def swallowing : List TxEvent :=
  [.call, .lane .start, .lane (.serve false), .lane .ready, .resume,
    .lane (.query .work), .lane .start, .lane (.serve true), .lane .ready, .returns,
    .lane .start, .lane (.serve false), .lane .ready, .resume]

example : (machine.exec {} swallowing).phase = .resolved 0 2 ∧
    (machine.exec {} swallowing).lane.session.ended = [(0, false)] := by decide

/-- The socket dies between two statements of the callback: the second one commits on its own, in a
new session, and COMMIT finds no block there. -/
def reconnecting : List TxEvent :=
  [.call, .lane .start, .lane (.serve false), .lane .ready, .resume,
    .lane (.query .work), .lane .start, .lane (.serve false), .lane .ready,
    .lane (.down true), .lane .establish,
    .lane (.query .work), .lane .start, .lane (.serve false), .lane .ready, .returns,
    .lane .start, .lane (.serve false), .lane .ready, .resume]

example : (machine.exec {} reconnecting).phase = .resolved 0 3 ∧
    (machine.exec {} reconnecting).lane.session.durable = [2] := by decide

end Tx

end Minipg.Transactions
