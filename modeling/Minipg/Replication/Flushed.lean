import Mathlib.Data.List.Pairwise
import Minipg.Replication.Progress

/-!
# What a status message may report as flushed

A fresh connection streams commits of the WAL.  `Subscription` adds to the stream what the
server has still to deliver and what the consumer has acknowledged, and each status message is
recorded with the commits that were outstanding when it was sent.
-/

namespace Minipg

/-- A commit record: its position, and the first position after it. -/
structure Commit where
  lsn : UInt64
  endLsn : UInt64
  deriving DecidableEq, Repr

/-- Commits in the order of their records, which do not overlap. -/
def WalOrder (commits : List Commit) : Prop :=
  (∀ c ∈ commits, c.lsn.toNat < c.endLsn.toNat) ∧
    commits.Pairwise fun c d => c.endLsn.toNat ≤ d.lsn.toNat

/-- A status message, and the commits outstanding when it was sent. -/
structure Report where
  status : Status
  outstanding : List Commit
  deriving Repr

structure Subscription where
  stream : Stream
  /-- The commits of the stream that are not delivered yet. -/
  upcoming : List Commit
  delivered : List Commit := []
  acked : List Int := []
  reports : List Report := []
  deriving Repr

namespace Subscription

/-- No ack reaches its end. -/
def unacked (s : Subscription) : List Commit :=
  s.delivered.filter fun c => ∀ v ∈ s.acked, v < c.endLsn.toNat

/-- Not delivered, or not acknowledged. -/
def outstanding (s : Subscription) : List Commit := s.upcoming ++ s.unacked

/-- What the server may send and the consumer acknowledge. -/
def enabled (s : Subscription) : StreamEvent → Bool
  | .copyData (.keepalive walEnd _) =>
    s.stream.live && s.upcoming.all fun c => walEnd.toNat ≤ c.endLsn.toNat
  | .copyData (.xlogData _ (.commit lsn endLsn)) =>
    s.stream.live && s.upcoming.head? == some ⟨lsn, endLsn⟩
  | .copyData _ | .statusTimer | .ended => s.stream.live
  | .ack lsn => s.delivered.any fun c =>
    lsn == .text (lsnToString c.endLsn.toNat) || lsn == .bigint c.endLsn.toNat

/-- The commits and acks after an event. -/
def note (s : Subscription) : StreamEvent → Subscription
  | .copyData (.xlogData _ (.commit lsn endLsn)) =>
    { s with upcoming := s.upcoming.tail, delivered := s.delivered ++ [⟨lsn, endLsn⟩] }
  | .ack lsn => { s with acked := s.acked ++ (toLsn lsn).toList }
  | _ => s

def step (s : Subscription) (e : StreamEvent) : Subscription :=
  { s.note e with
    stream := s.stream.step e
    reports := s.reports ++
      (s.stream.outcome e).sent.toList.map fun m => ⟨m, (s.note e).outstanding⟩ }

/-- A stream of these commits on a fresh connection. -/
def fresh (idleAck : Bool) (commits : List Commit) : Subscription :=
  { stream := ({} : Progress).start idleAck, upcoming := commits }

def Fresh (s : Subscription) : Prop :=
  ∃ idleAck commits, WalOrder commits ∧ s = fresh idleAck commits

end Subscription

def subscription : Machine Subscription StreamEvent := ⟨Subscription.enabled, Subscription.step⟩

namespace Subscription

/-- An acked position inside the record of the last delivered commit, itself not yet acked. -/
def HitsLast (s : Subscription) (lsn : LsnArg) : Prop :=
  match toLsn lsn, s.delivered.getLast? with
  | some v, some c => c ∈ s.unacked ∧ (c.lsn.toNat : Int) ≤ v ∧ v < (c.endLsn.toNat : Int)
  | _, _ => False

/-- With nothing unacked, a keepalive right at the end of a commit that is still to come. -/
def MeetsUpcoming (s : Subscription) (walEnd : UInt64) : Prop :=
  s.stream.idleAck = true ∧ s.unacked = [] ∧ ∃ c ∈ s.upcoming, c.endLsn.toNat = walEnd.toNat

def Harmless (s : Subscription) : StreamEvent → Prop
  | .ack lsn => ¬ s.HitsLast lsn
  | .copyData (.keepalive walEnd _) => ¬ s.MeetsUpcoming walEnd
  | _ => True

instance (s : Subscription) (lsn : LsnArg) : Decidable (s.HitsLast lsn) := by
  unfold HitsLast
  split <;> infer_instance

instance (s : Subscription) (walEnd : UInt64) : Decidable (s.MeetsUpcoming walEnd) :=
  inferInstanceAs (Decidable (_ ∧ _ ∧ _))

instance (s : Subscription) : ∀ e, Decidable (s.Harmless e)
  | .ack lsn => inferInstanceAs (Decidable (¬ s.HitsLast lsn))
  | .copyData (.keepalive walEnd _) => inferInstanceAs (Decidable (¬ s.MeetsUpcoming walEnd))
  | .copyData (.xlogData _ _) | .copyData (.failed _) | .copyData .other | .statusTimer | .ended =>
    instDecidableTrue

end Subscription

/-! ### Commits in WAL order -/

theorem WalOrder.end_lt_end {cs : List Commit} (h : WalOrder cs) :
    cs.Pairwise fun c d => c.endLsn.toNat < d.endLsn.toNat := by
  apply h.2.imp_of_mem
  intro c d _ hd hle
  have hlt := h.1 d hd
  omega

theorem WalOrder.end_lt {ds us : List Commit} (h : WalOrder (ds ++ us)) {c d : Commit}
    (hc : c ∈ ds) (hd : d ∈ us) : c.endLsn.toNat < d.endLsn.toNat :=
  (List.pairwise_append.mp h.end_lt_end).2.2 c hc d hd

theorem WalOrder.left {ds us : List Commit} (h : WalOrder (ds ++ us)) : WalOrder ds :=
  ⟨fun c hc => h.1 c (List.mem_append_left us hc), (List.pairwise_append.mp h.2).1⟩

theorem WalOrder.end_le_last {cs : List Commit} (h : WalOrder cs) {c d : Commit} (hc : c ∈ cs)
    (hd : cs.getLast? = some d) : c.endLsn.toNat ≤ d.endLsn.toNat := by
  obtain ⟨init, rfl⟩ := List.getLast?_eq_some_iff.mp hd
  rcases List.mem_append.mp hc with hc | hc
  · have hlt := h.end_lt hc (List.mem_singleton_self d)
    omega
  · rw [List.mem_singleton.mp hc]

/-! ### The invariant -/

namespace Subscription

variable {s : Subscription}

theorem mem_unacked {c : Commit} :
    c ∈ s.unacked ↔ c ∈ s.delivered ∧ ∀ v ∈ s.acked, v < (c.endLsn.toNat : Int) := by
  simp [unacked]

/-- The registers hold the last delivered commit. -/
def Registered (p : Progress) : Option Commit → Prop
  | none => p.lastDeliveredStart = 0 ∧ p.lastDeliveredEnd = 0
  | some c => p.lastDeliveredStart = c.lsn.toNat ∧ p.lastDeliveredEnd = c.endLsn.toNat

/-- The flushed position covers the acks, and stays below every outstanding commit's end. -/
structure Kept (s : Subscription) : Prop where
  order : WalOrder (s.delivered ++ s.upcoming)
  last : Registered s.stream.progress s.delivered.getLast?
  nonneg : 0 ≤ s.stream.progress.flushed
  covers : ∀ v ∈ s.acked, v ≤ s.stream.progress.flushed
  below : ∀ c ∈ s.outstanding, s.stream.progress.flushed < c.endLsn.toNat

namespace Kept

theorem fresh {idleAck : Bool} {commits : List Commit} (h : WalOrder commits) :
    Kept (fresh idleAck commits) where
  order := h
  last := ⟨rfl, rfl⟩
  nonneg := le_refl (0 : Int)
  covers := by
    intro v hv
    cases hv
  below := by
    intro c hc
    have hmem : c ∈ commits := by simpa [Subscription.fresh, outstanding, unacked] using hc
    have hlt := h.1 c hmem
    show (0 : Int) < c.endLsn.toNat
    omega

theorem end_le (h : Kept s) {c : Commit} (hc : c ∈ s.delivered) :
    (c.endLsn.toNat : Int) ≤ s.stream.progress.lastDeliveredEnd := by
  have hlast := h.last
  cases hd : s.delivered.getLast? with
  | none =>
    rw [List.getLast?_eq_none_iff.mp hd] at hc
    cases hc
  | some d =>
    rw [hd] at hlast
    have hle := h.order.left.end_le_last hc hd
    rw [hlast.2]
    omega

/-- Nothing is unacked when the flushed position has come up to the last delivered end. -/
theorem unacked_eq_nil (h : Kept s)
    (hf : s.stream.progress.lastDeliveredEnd ≤ s.stream.progress.flushed) : s.unacked = [] := by
  apply List.eq_nil_iff_forall_not_mem.mpr
  intro c hc
  have hbelow := h.below c (List.mem_append_right s.upcoming hc)
  have hle := h.end_le (mem_unacked.mp hc).1
  omega

theorem acked_le (h : Kept s) {c : Commit} (hc : c ∈ s.delivered) (hn : c ∉ s.unacked) :
    (c.endLsn.toNat : Int) ≤ s.stream.progress.flushed := by
  by_contra hlt
  apply hn
  apply mem_unacked.mpr
  refine ⟨hc, fun v hv => ?_⟩
  have hcov := h.covers v hv
  omega

theorem end_le_flushed (h : Kept s) (hn : s.unacked = []) :
    s.stream.progress.lastDeliveredEnd ≤ s.stream.progress.flushed := by
  have hlast := h.last
  cases hd : s.delivered.getLast? with
  | none =>
    rw [hd] at hlast
    rw [hlast.2]
    exact h.nonneg
  | some d =>
    rw [hd] at hlast
    rw [hlast.2]
    exact h.acked_le (List.mem_of_getLast? hd) (by simp [hn])

end Kept

/-! ### Acks -/

/-- The consumer acknowledges the end of a commit that it was given. -/
theorem acks_delivered {lsn : LsnArg} (he : s.enabled (.ack lsn) = true) :
    ∃ d ∈ s.delivered, toLsn lsn = some (d.endLsn.toNat : Int) := by
  obtain ⟨d, hd, h⟩ := List.any_eq_true.mp he
  refine ⟨d, hd, ?_⟩
  rcases Bool.or_eq_true_iff.mp h with h | h
  · rw [eq_of_beq h]
    exact lsnFromString_lsnToString d.endLsn.toNat_lt
  · rw [eq_of_beq h]
    rfl

theorem hitsLast_iff {lsn : LsnArg} {v : Int} (hv : toLsn lsn = some v) :
    s.HitsLast lsn ↔ ∃ c, s.delivered.getLast? = some c ∧ c ∈ s.unacked ∧
      (c.lsn.toNat : Int) ≤ v ∧ v < (c.endLsn.toNat : Int) := by
  unfold HitsLast
  rw [hv]
  cases s.delivered.getLast? with
  | none => simp
  | some c => simp

/-- Where it does not hit the last commit, an ack flushes what it says. -/
theorem Kept.ack_flushed (h : Kept s) {lsn : LsnArg} {v : Int} (hv : toLsn lsn = some v)
    (hn : ¬ s.HitsLast lsn) (hpos : 0 ≤ v) :
    max s.stream.progress.flushed (s.stream.progress.normalize v) =
      max s.stream.progress.flushed v := by
  unfold Progress.normalize
  split
  · rename_i hin
    have hlast := h.last
    cases hd : s.delivered.getLast? with
    | none =>
      rw [hd] at hlast
      rw [hlast.2] at hin
      omega
    | some c =>
      rw [hd] at hlast
      have hacked : c ∉ s.unacked := fun hc =>
        hn ((hitsLast_iff hv).mpr ⟨c, hd, hc, hlast.1 ▸ hin.1, hlast.2 ▸ hin.2⟩)
      have hle := h.acked_le (List.mem_of_getLast? hd) hacked
      rw [hlast.2] at hin ⊢
      omega
  · rfl

theorem Kept.ack (h : Kept s) {lsn : LsnArg} (he : s.enabled (.ack lsn) = true)
    (hok : s.Harmless (.ack lsn)) : Kept (s.step (.ack lsn)) := by
  obtain ⟨d, hd, hv⟩ := acks_delivered he
  have hstream : (s.step (.ack lsn)).stream.progress =
      { s.stream.progress with flushed := max s.stream.progress.flushed d.endLsn.toNat } := by
    show (Minipg.ack s.stream.progress lsn).progress = _
    rw [ack_progress hv, h.ack_flushed hv hok (by omega)]
  have hacked : (s.step (.ack lsn)).acked = s.acked ++ [(d.endLsn.toNat : Int)] := by
    show s.acked ++ (toLsn lsn).toList = _
    rw [hv]
    rfl
  refine ⟨h.order, ?_, ?_, ?_, ?_⟩
  · rw [hstream]
    exact h.last
  · rw [hstream]
    exact le_max_of_le_left h.nonneg
  · intro v hmem
    rw [hacked] at hmem
    rw [hstream]
    rcases List.mem_append.mp hmem with hmem | hmem
    · exact le_max_of_le_left (h.covers v hmem)
    · rw [List.mem_singleton.mp hmem]
      exact le_max_right _ _
  · intro c hc
    rw [hstream]
    rcases List.mem_append.mp hc with hc | hc
    · have hbelow := h.below c (List.mem_append_left _ hc)
      have hlt := h.order.end_lt hd hc
      exact max_lt hbelow (by omega)
    · obtain ⟨hc, hall⟩ := mem_unacked.mp hc
      rw [hacked] at hall
      have hold : c ∈ s.unacked :=
        mem_unacked.mpr ⟨hc, fun v hv => hall v (List.mem_append_left _ hv)⟩
      exact max_lt (h.below c (List.mem_append_right _ hold))
        (hall _ (List.mem_append_right _ (List.mem_singleton_self _)))

/-! ### The other events -/

/-- Registers that keep the last delivered commit may flush more, short of what is outstanding. -/
theorem Kept.raise (h : Kept s) {t : Stream} {rs : List Report}
    (hstart : t.progress.lastDeliveredStart = s.stream.progress.lastDeliveredStart)
    (hend : t.progress.lastDeliveredEnd = s.stream.progress.lastDeliveredEnd)
    (hle : s.stream.progress.flushed ≤ t.progress.flushed)
    (hbelow : ∀ c ∈ s.outstanding, t.progress.flushed < c.endLsn.toNat) :
    Kept { s with stream := t, reports := rs } where
  order := h.order
  last := by
    have hlast := h.last
    show Registered t.progress s.delivered.getLast?
    cases hd : s.delivered.getLast? with
    | none =>
      rw [hd] at hlast
      exact ⟨hstart.trans hlast.1, hend.trans hlast.2⟩
    | some c =>
      rw [hd] at hlast
      exact ⟨hstart.trans hlast.1, hend.trans hlast.2⟩
  nonneg := h.nonneg.trans hle
  covers := fun v hv => (h.covers v hv).trans hle
  below := hbelow

theorem Kept.keepalive (h : Kept s) {walEnd : UInt64} {reply : Bool}
    (he : s.enabled (.copyData (.keepalive walEnd reply)) = true)
    (hok : s.Harmless (.copyData (.keepalive walEnd reply))) :
    Kept (s.step (.copyData (.keepalive walEnd reply))) := by
  obtain ⟨hlive, hall⟩ := Bool.and_eq_true_iff.mp he
  have hp : (s.stream.step (.copyData (.keepalive walEnd reply))).progress =
      if s.stream.progress.follows s.stream.idleAck walEnd then
        { s.stream.progress.receive walEnd with flushed := walEnd.toNat }
      else s.stream.progress.receive walEnd := by
    rw [← onKeepalive_progress s.stream.idleAck s.stream.progress walEnd reply]
    show (s.stream.outcome _).progress = _
    simp only [Stream.outcome, hlive, if_true]
    rfl
  cases hf : s.stream.progress.follows s.stream.idleAck walEnd with
  | false =>
    rw [hf, if_neg Bool.false_ne_true] at hp
    apply h.raise
    · rw [hp, receive_lastDeliveredStart]
    · rw [hp, receive_lastDeliveredEnd]
    · rw [hp, receive_flushed]
    · rw [hp, receive_flushed]
      exact h.below
  | true =>
    rw [hf, if_pos rfl] at hp
    simp only [Progress.follows, decide_eq_true_eq] at hf
    have hnone := h.unacked_eq_nil hf.2.1
    apply h.raise
    · rw [hp]
      exact receive_lastDeliveredStart _ _
    · rw [hp]
      exact receive_lastDeliveredEnd _ _
    · rw [hp]
      exact le_of_lt hf.2.2
    · intro c hc
      rw [outstanding, hnone, List.append_nil] at hc
      have hle := of_decide_eq_true (List.all_eq_true.mp hall c hc)
      have hne : c.endLsn.toNat ≠ walEnd.toNat := fun heq => hok ⟨hf.1, hnone, c, hc, heq⟩
      rw [hp]
      show (walEnd.toNat : Int) < c.endLsn.toNat
      omega

theorem Kept.commit (h : Kept s) {walStart lsn endLsn : UInt64}
    (he : s.enabled (.copyData (.xlogData walStart (.commit lsn endLsn))) = true) :
    Kept (s.step (.copyData (.xlogData walStart (.commit lsn endLsn)))) := by
  obtain ⟨hlive, hhead⟩ := Bool.and_eq_true_iff.mp he
  obtain ⟨us, hus⟩ : ∃ us, s.upcoming = ⟨lsn, endLsn⟩ :: us :=
    List.head?_eq_some_iff.mp (eq_of_beq hhead)
  have hmem : (⟨lsn, endLsn⟩ : Commit) ∈ s.upcoming := by
    rw [hus]
    exact List.mem_cons_self
  have hnew : s.stream.progress.lastDeliveredEnd < endLsn.toNat := by
    have hlast := h.last
    cases hd : s.delivered.getLast? with
    | none =>
      have hlt := h.order.1 ⟨lsn, endLsn⟩ (List.mem_append_right _ hmem)
      rw [hd] at hlast
      rw [hlast.2]
      dsimp only at hlt
      omega
    | some c =>
      have hlt := h.order.end_lt (List.mem_of_getLast? hd) hmem
      rw [hd] at hlast
      rw [hlast.2]
      dsimp only at hlt
      omega
  have hp : (s.step (.copyData (.xlogData walStart (.commit lsn endLsn)))).stream.progress =
      { s.stream.progress.receive walStart with
        lastDeliveredStart := lsn.toNat, lastDeliveredEnd := endLsn.toNat } := by
    show (s.stream.outcome _).progress = _
    simp only [Stream.outcome, hlive, if_true, onCopyData, deliver_commit,
      receive_lastDeliveredEnd, hnew]
  refine ⟨?_, ?_, ?_, ?_, ?_⟩
  · show WalOrder ((s.delivered ++ [⟨lsn, endLsn⟩]) ++ s.upcoming.tail)
    have horder := h.order
    rw [hus] at horder ⊢
    simpa using horder
  · rw [hp]
    show Registered _ (s.delivered ++ [(⟨lsn, endLsn⟩ : Commit)]).getLast?
    rw [List.getLast?_concat]
    exact ⟨rfl, rfl⟩
  · rw [hp]
    exact (receive_flushed _ _).symm ▸ h.nonneg
  · rw [hp]
    exact (receive_flushed s.stream.progress walStart).symm ▸ h.covers
  · intro c hc
    rw [hp]
    show (s.stream.progress.receive walStart).flushed < _
    rw [receive_flushed]
    apply h.below
    rcases List.mem_append.mp hc with hc | hc
    · exact List.mem_append_left _ (List.mem_of_mem_tail hc)
    · obtain ⟨hc, hall⟩ := mem_unacked.mp hc
      rcases List.mem_append.mp hc with hc | hc
      · exact List.mem_append_right _ (mem_unacked.mpr ⟨hc, hall⟩)
      · rw [List.mem_singleton.mp hc]
        exact List.mem_append_left _ hmem

/-- **Every harmless event keeps the flushed position below what is outstanding.** -/
theorem Kept.step (h : Kept s) {e : StreamEvent} (he : s.enabled e = true)
    (hok : s.Harmless e) : Kept (s.step e) := by
  have hsame : ∀ {t : Stream} {rs : List Report},
      t.progress = s.stream.progress ∨
        (∃ walStart, t.progress = s.stream.progress.receive walStart) →
      Kept { s with stream := t, reports := rs } := by
    intro t rs ht
    rcases ht with ht | ⟨walStart, ht⟩
    · exact h.raise (by rw [ht]) (by rw [ht]) (by rw [ht]) (by rw [ht]; exact h.below)
    · exact h.raise (by rw [ht, receive_lastDeliveredStart]) (by rw [ht, receive_lastDeliveredEnd])
        (by rw [ht, receive_flushed]) (by rw [ht, receive_flushed]; exact h.below)
  cases e with
  | copyData m =>
    cases m with
    | keepalive walEnd reply => exact h.keepalive he hok
    | xlogData walStart message =>
      cases message with
      | commit lsn endLsn => exact h.commit he
      | other =>
        have hlive : s.stream.live = true := he
        exact hsame (.inr ⟨walStart, by simp [Stream.step, Stream.outcome, hlive, onCopyData,
          deliver_other]⟩)
    | failed walStart =>
      have hlive : s.stream.live = true := he
      exact hsame (.inr ⟨walStart, by simp [Stream.step, Stream.outcome, hlive, onCopyData]⟩)
    | other =>
      have hlive : s.stream.live = true := he
      exact hsame (.inl (by simp [Stream.step, Stream.outcome, hlive, onCopyData]))
  | statusTimer =>
    have hlive : s.stream.live = true := he
    exact hsame (.inl (by simp [Stream.step, Stream.outcome, hlive]))
  | ack lsn => exact h.ack he hok
  | ended => exact hsame (.inl rfl)

theorem Kept.of_reach (h : subscription.Reach Harmless Fresh s) : Kept s := by
  refine Machine.Reach.invariant ?_ ?_ h
  · rintro s ⟨idleAck, commits, horder, rfl⟩
    exact Kept.fresh horder
  · intro s e hk he hok
    exact hk.step he hok

/-! ### The reports -/

/-- The reports so far never fall, and the registers are at or past the last of them. -/
def Rising (s : Subscription) : Prop :=
  (∀ r ∈ s.reports, r.status.flushed ≤ s.stream.progress.flushed) ∧
    s.reports.Pairwise fun r r' => r.status.flushed ≤ r'.status.flushed

theorem mem_reports_step {e : StreamEvent} {r : Report} (h : r ∈ (s.step e).reports) :
    r ∈ s.reports ∨ (r.status.flushed = (s.step e).stream.progress.flushed ∧
      r.outstanding = (s.step e).outstanding) := by
  rcases List.mem_append.mp h with h | h
  · exact .inl h
  · obtain ⟨m, hm, rfl⟩ := List.mem_map.mp h
    have hm' := Stream.sent_eq (Option.mem_toList.mp hm)
    exact .inr ⟨congrArg Status.flushed hm', rfl⟩

theorem Rising.step (h : Rising s) (e : StreamEvent) : Rising (s.step e) := by
  have hle : s.stream.progress.flushed ≤ (s.step e).stream.progress.flushed :=
    (s.stream.le_outcome e).flushed
  refine ⟨fun r hr => ?_, ?_⟩
  · rcases mem_reports_step hr with hr | ⟨hr, -⟩
    · exact (h.1 r hr).trans hle
    · exact le_of_eq hr
  · show List.Pairwise _ (s.reports ++ _)
    apply List.pairwise_append.mpr
    refine ⟨h.2, ?_, ?_⟩
    · cases (s.stream.outcome e).sent <;> simp
    · intro r hr r' hr'
      obtain ⟨m, hm, rfl⟩ := List.mem_map.mp hr'
      have hm' := congrArg Status.flushed (Stream.sent_eq (Option.mem_toList.mp hm))
      exact (h.1 r hr).trans (hle.trans (le_of_eq hm'.symm))

/-- The flushed positions that a stream reports never decrease, whatever is sent and acked. -/
theorem Rising.of_reach {ok : Subscription → StreamEvent → Prop}
    (h : subscription.Reach ok Fresh s) : Rising s := by
  refine Machine.Reach.invariant ?_ ?_ h
  · rintro s ⟨idleAck, commits, -, rfl⟩
    exact ⟨by simp [fresh], List.Pairwise.nil⟩
  · intro s e hk _ _
    exact hk.step e

/-- **No report reaches a commit that was outstanding, and reports never decrease.** -/
theorem reports_hold_back (h : subscription.Reach Harmless Fresh s) :
    (∀ r ∈ s.reports, ∀ c ∈ r.outstanding, r.status.flushed < c.endLsn.toNat) ∧
      s.reports.Pairwise fun r r' => r.status.flushed ≤ r'.status.flushed := by
  refine ⟨?_, (Rising.of_reach h).2⟩
  induction h with
  | start hs =>
    obtain ⟨idleAck, commits, -, rfl⟩ := hs
    simp [fresh]
  | step e hr he hok ih =>
    intro r hmem c hc
    rcases mem_reports_step hmem with hmem | ⟨hf, hout⟩
    · exact ih r hmem c hc
    · rw [hf]
      rw [hout] at hc
      exact ((Kept.of_reach hr).step he hok).below c hc

/-- Two transactions whose commit records are adjacent. -/
def adjacent : Subscription := fresh true [⟨100, 200⟩, ⟨200, 300⟩]

theorem adjacent_fresh : Fresh adjacent := ⟨true, _, ⟨by decide, by decide⟩, rfl⟩

def bothDelivered : List StreamEvent :=
  [.copyData (.xlogData 100 (.commit 100 200)), .copyData (.xlogData 200 (.commit 200 300))]

def secondAcked : Subscription :=
  subscription.exec adjacent (bothDelivered ++ [.ack (.bigint 300), .statusTimer])

theorem reports_hold_back_of_second :
    (∀ r ∈ secondAcked.reports, ∀ c ∈ r.outstanding, r.status.flushed < c.endLsn.toNat) ∧
      secondAcked.reports.Pairwise fun r r' => r.status.flushed ≤ r'.status.flushed :=
  reports_hold_back (Machine.Reach.exec (.start adjacent_fresh) (by decide +kernel))

/-- The first commit's late ack is its `endLsn`, which is the second one's `lsn`. -/
theorem reports_reach_second : ¬ ∀ s, subscription.Reach Machine.Free Fresh s →
    ∀ r ∈ s.reports, ∀ c ∈ r.outstanding, r.status.flushed < c.endLsn.toNat := by
  intro h
  have hr : subscription.Reach Machine.Free Fresh
      (subscription.exec adjacent (bothDelivered ++ [.ack (.text "0/C8")])) :=
    Machine.Reach.exec (.start adjacent_fresh) (by decide +kernel)
  exact absurd (h _ hr) (by decide +kernel)

/-! ### The condition is exact -/

/-- A harmful event flushes a commit that is outstanding after it. -/
theorem Kept.reaches (h : Kept s) {e : StreamEvent} (he : s.enabled e = true)
    (hn : ¬ s.Harmless e) :
    ∃ c ∈ (s.step e).outstanding, (c.endLsn.toNat : Int) ≤ (s.step e).stream.progress.flushed := by
  cases e with
  | ack lsn =>
    obtain ⟨d, -, hv⟩ := acks_delivered he
    obtain ⟨c, hlast, hc, hlo, hhi⟩ := (hitsLast_iff hv).mp (not_not.mp hn)
    obtain ⟨hstart, hend⟩ : Registered s.stream.progress (some c) := hlast ▸ h.last
    refine ⟨c, List.mem_append_right _ (mem_unacked.mpr ⟨(mem_unacked.mp hc).1, ?_⟩), ?_⟩
    · intro v hmem
      have hacked : (s.step (.ack lsn)).acked = s.acked ++ (toLsn lsn).toList := rfl
      rw [hacked, hv] at hmem
      rcases List.mem_append.mp hmem with hmem | hmem
      · exact (mem_unacked.mp hc).2 v hmem
      · rw [List.mem_singleton.mp hmem]
        exact hhi
    · have hnorm : s.stream.progress.normalize d.endLsn.toNat = c.endLsn.toNat := by
        rw [Progress.normalize, hstart, hend, if_pos ⟨hlo, hhi⟩]
      show _ ≤ (Minipg.ack s.stream.progress lsn).progress.flushed
      rw [ack_progress hv, hnorm]
      exact le_max_right _ _
  | copyData m =>
    cases m with
    | keepalive walEnd reply =>
      obtain ⟨hidle, hnone, c, hc, heq⟩ := not_not.mp hn
      obtain ⟨hlive, -⟩ := Bool.and_eq_true_iff.mp he
      have hbelow := h.below c (List.mem_append_left _ hc)
      have hf : s.stream.progress.follows s.stream.idleAck walEnd = true := by
        apply decide_eq_true
        exact ⟨hidle, h.end_le_flushed hnone, by omega⟩
      refine ⟨c, List.mem_append_left _ hc, ?_⟩
      show _ ≤ (s.stream.outcome _).progress.flushed
      simp only [Stream.outcome, hlive, if_true, onCopyData, onKeepalive_progress, hf]
      omega
    | xlogData walStart message => exact absurd trivial hn
    | failed walStart => exact absurd trivial hn
    | other => exact absurd trivial hn
  | statusTimer => exact absurd trivial hn
  | ended => exact absurd trivial hn

end Subscription

end Minipg
