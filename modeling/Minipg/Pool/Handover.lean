import Minipg.Pool.Checkout

/-!
# What a connection carries to its next holder

`release` looks at the status that the last answer reported.  If everything the holder sent was
answered, that is the status of the session, and the pool rolls an open transaction back before
it hands the connection on.  If something is still queued or in flight, the status says nothing
about what comes; `leavesQuiet` excludes such a release, and then every connection that is handed
over is clean (`handed_over_clean`).
-/

namespace Minipg

namespace Client

/-- No transaction is open and nothing is queued or in flight, or the connection is closed. -/
def IsClean (k : Client) : Prop := k.isClosed = true ∨ k.isQuiet = true ∧ k.session = false

/-- The status after the last answer, sent or still under way. -/
def last (k : Client) : Bool := (k.unread.getLast?.map Prod.snd).getD k.inTransaction

/-- The ROLLBACK of the pool is all that is under way. -/
inductive RollsBack (k : Client) : Prop
  | closed : k.isClosed = true → RollsBack k
  | sent : k.unserved = [.rollback] → k.unread = [] → RollsBack k
  | served : k.unserved = [] → k.unread = [(.rollback, false)] → RollsBack k
  | done : k.IsClean → RollsBack k

variable {k : Client}

theorem isQuiet_iff : k.isQuiet = true ↔ k.unserved = [] ∧ k.unread = [] := by
  simp [isQuiet]

theorem IsClean.unserved_nil (h : k.IsClean) (hc : k.isClosed = false) : k.unserved = [] := by
  rcases h with h | h
  · exact absurd (h.symm.trans hc) (by simp)
  · exact (isQuiet_iff.mp h.1).1

theorem IsClean.unread_nil (h : k.IsClean) (hc : k.isClosed = false) : k.unread = [] := by
  rcases h with h | h
  · exact absurd (h.symm.trans hc) (by simp)
  · exact (isQuiet_iff.mp h.1).2

theorem serve_last (h : k.session = k.last) (inTx : Bool) : (k.serve inTx).session = (k.serve inTx).last := by
  unfold serve
  split
  · exact h
  · simp [last]

theorem answer_last (h : k.session = k.last) : k.answer.session = k.answer.last := by
  unfold answer
  split
  · exact h
  · rename_i q t rest hu
    show k.session = (rest.getLast?.map Prod.snd).getD t
    rw [h, last, hu]
    cases rest with
    | nil => rfl
    | cons x rest => simp [List.getLast?_eq_some_getLast]

theorem RollsBack.serve (h : k.RollsBack) (hc : k.isClosed = false) (hu : k.unserved ≠ [])
    (inTx : Bool) : (k.serve inTx).RollsBack := by
  cases h with
  | closed h => exact absurd (h.symm.trans hc) (by simp)
  | sent hs hr =>
    refine .served ?_ ?_
    · simp [Client.serve, hs]
    · simp [Client.serve, hs, hr]
  | served hs => exact absurd hs hu
  | done h => exact absurd (h.unserved_nil hc) hu

theorem RollsBack.answer (h : k.RollsBack) (hl : k.session = k.last) (hc : k.isClosed = false)
    (hu : k.unread ≠ []) : k.answer.RollsBack := by
  cases h with
  | closed h => exact absurd (h.symm.trans hc) (by simp)
  | sent hs hr => exact absurd hr hu
  | served hs hr =>
    refine .done (.inr ⟨?_, ?_⟩)
    · simp [Client.answer, hr, isQuiet, hs]
    · simp only [Client.answer, hr]
      rw [hl, last, hr]
      rfl
  | done h => exact absurd (h.unread_nil hc) hu

/-- The ROLLBACK was answered. -/
theorem RollsBack.clean (h : k.RollsBack) (hr : k.isRolledBack = true) : k.IsClean := by
  cases h with
  | closed h => exact .inl h
  | sent hs _ =>
    rw [isRolledBack, hs] at hr
    exact absurd hr (by simp)
  | served _ hu =>
    rw [isRolledBack, hu] at hr
    exact absurd hr (by simp)
  | done h => exact h

end Client

namespace Pool

variable {cfg : PoolConfig} {s s' : Pool} {a w : AcquireId} {c : ConnId}
variable {base : List (AcquireId × ConnId)}

/-- The connections that the pool keeps are clean, and so are those that were lent since `base`. -/
structure Rested (base : List (AcquireId × ConnId)) (s : Pool) : Prop where
  status : ∀ c, (s.clients c).session = (s.clients c).last
  fresh : ∀ c, s.nextConn ≤ c → (s.clients c).IsClean
  idle : ∀ c ∈ s.idle, (s.clients c).IsClean
  opening : ∀ p ∈ s.opens, (s.clients p.1).IsClean
  rolling : ∀ c ∈ s.rolling, (s.clients c).RollsBack
  lent : ∀ p ∈ s.checkouts, p ∈ base ∨ (s.clients p.2).IsClean

/-- What `Rested` reads. -/
structure SameDesk (s s' : Pool) : Prop where
  clients : s'.clients = s.clients
  nextConn : s'.nextConn = s.nextConn
  idle : s'.idle = s.idle
  opens : s'.opens = s.opens
  rolling : s'.rolling = s.rolling
  checkouts : s'.checkouts = s.checkouts

theorem SameDesk.trans {s'' : Pool} (h : SameDesk s s') (g : SameDesk s' s'') : SameDesk s s'' :=
  ⟨g.clients.trans h.clients, g.nextConn.trans h.nextConn, g.idle.trans h.idle,
    g.opens.trans h.opens, g.rolling.trans h.rolling, g.checkouts.trans h.checkouts⟩

theorem SameDesk.rested (h : SameDesk s s') (t : Rested base s) : Rested base s' := by
  constructor
  · rw [h.clients]
    exact t.status
  · rw [h.clients, h.nextConn]
    exact t.fresh
  · rw [h.clients, h.idle]
    exact t.idle
  · rw [h.clients, h.opens]
    exact t.opening
  · rw [h.clients, h.rolling]
    exact t.rolling
  · rw [h.clients, h.checkouts]
    exact t.lent

theorem foldl_desk {α : Type} {f : Pool → α → Pool} (hf : ∀ s x, SameDesk s (f s x)) (l : List α)
    (s : Pool) : SameDesk s (l.foldl f s) := by
  induction l generalizing s with
  | nil => exact ⟨rfl, rfl, rfl, rfl, rfl, rfl⟩
  | cons x l ih => exact (hf s x).trans (ih _)

theorem armIdleTimer_desk (cfg : PoolConfig) (s : Pool) (c : ConnId) :
    SameDesk s (s.armIdleTimer cfg c) := by
  unfold armIdleTimer
  split <;> exact ⟨rfl, rfl, rfl, rfl, rfl, rfl⟩

theorem rejectWaiter_desk (e : PoolError) (s : Pool) (w : AcquireId) :
    SameDesk s (rejectWaiter e s w) := by
  unfold rejectWaiter
  split <;> exact ⟨rfl, rfl, rfl, rfl, rfl, rfl⟩

theorem failWaiters_desk (s : Pool) (e : PoolError) : SameDesk s (s.failWaiters e) := by
  have hnil : SameDesk s { s with waiters := [] } := ⟨rfl, rfl, rfl, rfl, rfl, rfl⟩
  exact hnil.trans (foldl_desk (rejectWaiter_desk e) s.waiters _)

theorem cancelProbeNap_desk (s : Pool) : SameDesk s s.cancelProbeNap := by
  unfold cancelProbeNap
  split <;> exact ⟨rfl, rfl, rfl, rfl, rfl, rfl⟩

theorem onRecover_desk (s : Pool) (a : AcquireId) : SameDesk s (s.onRecover a) := by
  unfold onRecover
  split
  · exact ⟨rfl, rfl, rfl, rfl, rfl, rfl⟩
  · split <;> exact ⟨rfl, rfl, rfl, rfl, rfl, rfl⟩

theorem wakeRecovered_desk (s : Pool) : SameDesk s s.wakeRecovered := by
  have hnil : SameDesk s { s with recovered := [] } := ⟨rfl, rfl, rfl, rfl, rfl, rfl⟩
  exact hnil.trans (foldl_desk onRecover_desk s.recovered _)

theorem settleBreaker_desk (s : Pool) : SameDesk s s.settleBreaker := by
  have hdown : SameDesk s { s with down := false } := ⟨rfl, rfl, rfl, rfl, rfl, rfl⟩
  exact (hdown.trans (cancelProbeNap_desk _)).trans (wakeRecovered_desk _)

theorem probeTop_desk (s : Pool) (p : ProbeId) : SameDesk s (s.probeTop p) := by
  unfold probeTop
  split <;> exact ⟨rfl, rfl, rfl, rfl, rfl, rfl⟩

theorem trip_desk (cfg : PoolConfig) (s : Pool) (e : PoolError) : SameDesk s (s.trip cfg e) := by
  unfold trip
  split
  · have hbroken : SameDesk s { s with broken := some e } := ⟨rfl, rfl, rfl, rfl, rfl, rfl⟩
    exact hbroken.trans (settleBreaker_desk _)
  · split
    · exact ⟨rfl, rfl, rfl, rfl, rfl, rfl⟩
    · have hdown : SameDesk s { s with
          lastDownError := some e, lastProbeError := none, down := true
          nextProbe := s.nextProbe + 1 } := ⟨rfl, rfl, rfl, rfl, rfl, rfl⟩
      exact hdown.trans (probeTop_desk _ _)

theorem shift_desk (s : Pool) (w : AcquireId) : SameDesk s (s.shift w) := by
  unfold shift
  split <;> exact ⟨rfl, rfl, rfl, rfl, rfl, rfl⟩

theorem unshift_desk (s : Pool) (w : AcquireId) : SameDesk s (s.unshift w) := by
  unfold unshift
  split <;> exact ⟨rfl, rfl, rfl, rfl, rfl, rfl⟩

/-! ### Lending -/

theorem Rested.openFor (t : Rested base s) (cfg : PoolConfig) (o : Opener) :
    Rested base (s.openFor cfg o) := by
  unfold Pool.openFor
  split
  · exact ⟨t.status, t.fresh, t.idle, t.opening, t.rolling, t.lent⟩
  · refine ⟨t.status, fun c hc => t.fresh c (Nat.le_of_succ_le hc), t.idle, fun p hp => ?_,
      t.rolling, t.lent⟩
    rcases List.mem_append.mp hp with hp | hp
    · exact t.opening p hp
    · rw [List.mem_singleton.mp hp]
      exact t.fresh _ le_rfl

theorem Rested.pushIdle (t : Rested base s) (hc : (s.clients c).IsClean) (cfg : PoolConfig) :
    Rested base (s.pushIdle cfg c) := by
  refine (armIdleTimer_desk cfg _ c).rested
    ⟨t.status, t.fresh, fun x hx => ?_, t.opening, t.rolling, t.lent⟩
  rcases List.mem_append.mp hx with hx | hx
  · exact t.idle x hx
  · exact List.mem_singleton.mp hx ▸ hc

theorem Rested.resolve (t : Rested base s) (hc : (s.clients c).IsClean) (a : AcquireId) :
    Rested base (s.resolve a c) := by
  refine ⟨t.status, t.fresh, t.idle, t.opening, t.rolling, fun p hp => ?_⟩
  rcases List.mem_append.mp hp with hp | hp
  · exact t.lent p hp
  · rw [List.mem_singleton.mp hp]
    exact .inr hc

theorem Rested.resolveWaiter (t : Rested base s) (hc : (s.clients c).IsClean) (w : AcquireId) :
    Rested base (s.resolveWaiter w c) := by
  unfold Pool.resolveWaiter
  split
  · exact t.resolve hc w
  · exact t

theorem takeIdle_rested (n : Nat) (t : Rested base s) :
    Rested base (takeIdle n s).1 ∧
      ∀ c, (takeIdle n s).2 = some c → ((takeIdle n s).1.clients c).IsClean := by
  induction n generalizing s with
  | zero => exact ⟨t, fun c h => absurd h (by simp [takeIdle])⟩
  | succ n ih =>
    unfold takeIdle
    split
    · exact ⟨t, fun c h => absurd h (by simp)⟩
    · rename_i c hc
      have hsub : ∀ x ∈ s.idle.dropLast, x ∈ s.idle := 
        fun x hx => (List.dropLast_sublist _).subset hx
      dsimp only
      split
      · exact ih ⟨t.status, t.fresh, fun x hx => t.idle x (hsub x hx), t.opening, t.rolling, t.lent⟩
      · refine ⟨⟨t.status, t.fresh, fun x hx => t.idle x (hsub x hx), t.opening, t.rolling, t.lent⟩,
          fun x hx => ?_⟩
        obtain rfl := Option.some.inj hx
        exact t.idle c (List.mem_of_getLast? hc)

theorem Rested.grab (t : Rested base s) (cfg : PoolConfig) (a : AcquireId) :
    Rested base (s.grab cfg a) := by
  obtain ⟨ht, hc⟩ := takeIdle_rested s.idle.length t
  unfold Pool.grab
  split
  · rename_i s' c hr
    rw [hr] at ht hc
    exact ht.resolve (hc c rfl) a
  · rename_i s' hr
    rw [hr] at ht
    have hsame : ∀ ph, SameDesk s' (s'.setPhase a ph) := fun _ => ⟨rfl, rfl, rfl, rfl, rfl, rfl⟩
    split
    · exact ((hsame _).rested ht).openFor cfg _
    · exact SameDesk.rested (s := s') ⟨rfl, rfl, rfl, rfl, rfl, rfl⟩ ht

theorem Rested.acquire (t : Rested base s) (cfg : PoolConfig) (a : AcquireId) (isGuarded : Bool) :
    Rested base (s.acquire cfg a isGuarded) := by
  have hsame : ∀ ph, SameDesk s (s.setPhase a ph) := fun _ => ⟨rfl, rfl, rfl, rfl, rfl, rfl⟩
  unfold Pool.acquire
  split
  · exact (hsame _).rested t
  · split
    · exact (hsame _).rested t
    · split
      · exact (hsame _).rested t
      · split
        · exact SameDesk.rested (s := s) ⟨rfl, rfl, rfl, rfl, rfl, rfl⟩ t
        · exact t.grab cfg a

/-! ### Coming back -/

theorem Rested.checkin (t : Rested base s) (hc : (s.clients c).IsClean) (cfg : PoolConfig) :
    Rested base (s.checkin cfg c) := by
  unfold Pool.checkin
  split
  · exact (settleBreaker_desk _).rested (t.pushIdle hc cfg)
  · split
    · exact t.pushIdle hc cfg
    · rename_i w ws _
      exact Rested.resolveWaiter (s := { s with waiters := ws, out := s.out ++ [c] })
        ⟨t.status, t.fresh, t.idle, t.opening, t.rolling, t.lent⟩ hc w

theorem refillLoop_rested (cfg : PoolConfig) (n : Nat) (t : Rested base s) :
    Rested base (refillLoop cfg n s) := by
  induction n generalizing s with
  | zero => exact t
  | succ n ih =>
    unfold refillLoop
    split
    · exact t
    · rename_i w ws _
      split
      · refine ih (Rested.openFor ((shift_desk _ w).rested ?_) cfg _)
        exact SameDesk.rested (s := s) ⟨rfl, rfl, rfl, rfl, rfl, rfl⟩ t
      · exact t

theorem Rested.refill (t : Rested base s) (cfg : PoolConfig) : Rested base (s.refill cfg) := by
  unfold Pool.refill
  split
  · exact t
  · exact refillLoop_rested cfg _ t

/-- A change of one client that keeps what is known about it. -/
theorem Rested.modClient (t : Rested base s) (c : ConnId) {f : Client → Client}
    (hs : (s.clients c).session = (s.clients c).last → (f (s.clients c)).session = (f (s.clients c)).last)
    (hclean : (s.clients c).IsClean → (f (s.clients c)).IsClean)
    (hroll : (s.clients c).RollsBack → (f (s.clients c)).RollsBack) :
    Rested base (s.modClient c f) := by
  have hself : (s.modClient c f).clients c = f (s.clients c) := Function.update_self ..
  have hother : ∀ x, x ≠ c → (s.modClient c f).clients x = s.clients x :=
    fun x hx => Function.update_of_ne hx ..
  have hkeep : ∀ x, (s.clients x).IsClean → ((s.modClient c f).clients x).IsClean := by
    intro x hx
    by_cases hxc : x = c
    · subst hxc
      exact hself ▸ hclean hx
    · exact hother x hxc ▸ hx
  refine ⟨fun x => ?_, fun x hx => hkeep x (t.fresh x hx), fun x hx => hkeep x (t.idle x hx),
    fun p hp => hkeep _ (t.opening p hp), fun x hx => ?_,
    fun p hp => (t.lent p hp).imp_right (hkeep _)⟩
  · by_cases hxc : x = c
    · subst hxc
      rw [hself]
      exact hs (t.status x)
    · rw [hother x hxc]
      exact t.status x
  · by_cases hxc : x = c
    · subst hxc
      rw [hself]
      exact hroll (t.rolling x hx)
    · rw [hother x hxc]
      exact t.rolling x hx

theorem Rested.endClient (t : Rested base s) (c : ConnId) : Rested base (s.endClient c) :=
  t.modClient c id (fun _ => .inl rfl) fun _ => .closed rfl

/-- A connection that the pool neither keeps nor rolls back. -/
structure Abroad (s : Pool) (c : ConnId) : Prop where
  known : c < s.nextConn
  idle : c ∉ s.idle
  opening : c ∉ s.opens.map Prod.fst
  rolling : c ∉ s.rolling

/-- Such a connection may change in any way. -/
theorem Rested.modAbroad (t : Rested base s) {f : Client → Client} (hc : Abroad s c)
    (hl : ∀ p ∈ s.checkouts, p ∈ base) (hs : (f (s.clients c)).session = (f (s.clients c)).last) :
    Rested base (s.modClient c f) := by
  have hother : ∀ x, x ≠ c → (s.modClient c f).clients x = s.clients x :=
    fun x hx => Function.update_of_ne hx ..
  refine ⟨fun x => ?_, fun x hx => ?_, fun x hx => ?_, fun p hp => ?_, fun x hx => ?_,
    fun p hp => .inl (hl p hp)⟩
  · by_cases hxc : x = c
    · subst hxc
      rw [show (s.modClient x f).clients x = f (s.clients x) from Function.update_self ..]
      exact hs
    · rw [hother x hxc]
      exact t.status x
  · have hxc : x ≠ c := fun h => Nat.not_le.mpr hc.known (h ▸ hx)
    exact hother x hxc ▸ t.fresh x hx
  · exact hother x (fun h => hc.idle (h ▸ hx)) ▸ t.idle x hx
  · exact hother p.1 (fun h => hc.opening (h ▸ List.mem_map_of_mem (f := Prod.fst) hp)) ▸ t.opening p hp
  · exact hother x (fun h => hc.rolling (h ▸ hx)) ▸ t.rolling x hx

/-- The connection comes back closed, to a closed pool, or with nothing under way. -/
def endsQuietly (s : Pool) (c : ConnId) : Bool :=
  (s.clients c).isClosed || s.closed || (s.clients c).isQuiet

theorem Rested.reclaim (t : Rested base s) (hquiet : s.endsQuietly c = true) (hc : Abroad s c)
    (hl : ∀ p ∈ s.checkouts, p ∈ base) (cfg : PoolConfig) : Rested base (s.reclaim cfg c) := by
  have hdrop : Rested base { s with all := s.all.erase c } :=
    ⟨t.status, t.fresh, t.idle, t.opening, t.rolling, t.lent⟩
  unfold Pool.reclaim
  split
  · exact hdrop.refill cfg
  · rename_i halive
    split
    · exact hdrop.endClient c
    · rename_i hopen
      have hq : (s.clients c).isQuiet = true := by
        simpa [endsQuietly, halive, hopen] using hquiet
      obtain ⟨hu, hd⟩ := Client.isQuiet_iff.mp hq
      split
      · have hsend : ((s.clients c).send .rollback).session = ((s.clients c).send .rollback).last :=
          t.status c
        have hmod := t.modAbroad (f := fun k => k.send .rollback) hc hl hsend
        refine ⟨hmod.status, hmod.fresh, hmod.idle, hmod.opening, fun x hx => ?_, hmod.lent⟩
        rcases List.mem_append.mp hx with hx | hx
        · exact hmod.rolling x hx
        · obtain rfl := List.mem_singleton.mp hx
          refine .sent ?_ ?_
          · show (Function.update s.clients x _ x).unserved = _
            rw [Function.update_self]
            simp [Client.send, hu]
          · show (Function.update s.clients x _ x).unread = _
            rw [Function.update_self]
            exact hd
      · rename_i hout
        refine t.checkin (.inr ⟨hq, ?_⟩) cfg
        rw [t.status c, Client.last, hd]
        exact Bool.eq_false_iff.mpr hout

/-! ### The steps -/

/-- No checkout is released a second time while its connection is checked out again, and a
connection that comes back comes back with nothing under way. -/
def leavesQuiet (s : Pool) (e : PoolEvent) : Bool :=
  s.releasesOnce e &&
    match e with
    | .release _ c => c ∉ s.out || (s.clients c).isCanceling || s.endsQuietly c
    | .cancelSettled c => c ∉ s.draining || s.endsQuietly c
    | _ => true

/-- What a run keeps in which connections come back quiet. -/
structure Orderly (s : Pool) : Prop where
  tidy : (s.ledger []).Tidy
  exclusive : (s.ledger []).Exclusive
  rested : Rested s.checkouts s

theorem Orderly.abroad_out (t : Orderly s) (h : c ∈ s.out) : Abroad s c := by
  have hone := t.tidy.once c
  have hout : 0 < (s.ledger []).out.count c := List.count_pos_iff.mpr h
  simp only [Ledger.stock] at hone
  refine ⟨t.tidy.known c (by omega), fun hi => ?_, fun ho => ?_, fun hr => ?_⟩
  · have : 0 < (s.ledger []).idle.count c := List.count_pos_iff.mpr hi
    omega
  · have : 0 < (s.ledger []).opening.count c := List.count_pos_iff.mpr ho
    omega
  · have : 0 < (s.ledger []).returning.count c :=
      List.count_pos_iff.mpr (List.mem_append_right _ hr)
    omega

theorem Orderly.abroad_draining (t : Orderly s) (h : c ∈ s.draining) : Abroad s c := by
  have hone := t.tidy.once c
  have hback : (s.ledger []).returning.count c = s.draining.count c + s.rolling.count c :=
    List.count_append
  have hpos := List.count_pos_iff.mpr h
  simp only [Ledger.stock] at hone
  have hknown : c < s.nextConn := by
    refine t.tidy.known c ?_
    simp only [Ledger.stock]
    omega
  refine ⟨hknown, fun hi => ?_, fun ho => ?_, fun hr => ?_⟩
  · have : 0 < (s.ledger []).idle.count c := List.count_pos_iff.mpr hi
    omega
  · have : 0 < (s.ledger []).opening.count c := List.count_pos_iff.mpr ho
    omega
  · have := List.count_pos_iff.mpr hr
    omega

theorem Orderly.abroad_held (t : Orderly s) (h : (a, c) ∈ s.checkouts) : Abroad s c := by
  have hone := t.exclusive.once c
  have hheld : 0 < (s.ledger []).held.count c :=
    List.count_pos_iff.mpr (List.mem_map_of_mem (f := Prod.snd) h)
  simp only [Ledger.stock] at hone
  refine ⟨t.exclusive.known c (by omega), fun hi => ?_, fun ho => ?_, fun hr => ?_⟩
  · have : 0 < (s.ledger []).idle.count c := List.count_pos_iff.mpr hi
    omega
  · have : 0 < (s.ledger []).opening.count c := List.count_pos_iff.mpr ho
    omega
  · have : 0 < (s.ledger []).returning.count c :=
      List.count_pos_iff.mpr (List.mem_append_right _ hr)
    omega

theorem Orderly.giveBack (t : Orderly s)
    (hok : c ∈ s.out → (s.clients c).isCanceling = false → s.endsQuietly c = true) (a : AcquireId) :
    Rested s.checkouts (s.giveBack cfg a c) := by
  have hsub : ∀ p ∈ s.checkouts.filter (· ≠ (a, c)), p ∈ s.checkouts :=
    fun p hp => List.mem_of_mem_filter hp
  have hr := t.rested
  unfold Pool.giveBack release
  split
  · rename_i hc
    have habroad := t.abroad_out hc
    dsimp only
    split
    · exact ⟨hr.status, hr.fresh, hr.idle, hr.opening, hr.rolling, fun p hp => .inl (hsub p hp)⟩
    · rename_i hcancel
      exact Rested.reclaim (s := { s with
          checkouts := s.checkouts.filter (· ≠ (a, c)), out := s.out.erase c })
        ⟨hr.status, hr.fresh, hr.idle, hr.opening, hr.rolling, fun p hp => .inl (hsub p hp)⟩
        (hok hc (Bool.eq_false_iff.mpr hcancel))
        ⟨habroad.known, habroad.idle, habroad.opening, habroad.rolling⟩ hsub cfg
  · exact ⟨hr.status, hr.fresh, hr.idle, hr.opening, hr.rolling, fun p hp => .inl (hsub p hp)⟩

theorem Rested.opened (t : Rested base s) {o : Opener} (hc : (s.clients c).IsClean)
    (cfg : PoolConfig) : Rested base (s.opened cfg c o) := by
  have hout : Rested base { s with out := s.out ++ [c] } :=
    ⟨t.status, t.fresh, t.idle, t.opening, t.rolling, t.lent⟩
  unfold Pool.opened
  split
  · exact hout.resolve hc _
  · exact hout.resolveWaiter hc _
  · have hnew : Rested base { s with lastProbeError := none } :=
      ⟨t.status, t.fresh, t.idle, t.opening, t.rolling, t.lent⟩
    have hsettled := (settleBreaker_desk _).rested (hnew.pushIdle hc cfg)
    exact SameDesk.rested (s := settleBreaker _) ⟨rfl, rfl, rfl, rfl, rfl, rfl⟩ hsettled

theorem Rested.caught (t : Rested base s) (e : PoolError) (o : Opener) :
    Rested base (s.caught cfg e o) := by
  have hsame : ∀ (s : Pool) a ph, SameDesk s (s.setPhase a ph) :=
    fun _ _ _ => ⟨rfl, rfl, rfl, rfl, rfl, rfl⟩
  have hended : ∀ (s : Pool) p, SameDesk s (s.setProbe p .ended) :=
    fun _ _ => ⟨rfl, rfl, rfl, rfl, rfl, rfl⟩
  unfold Pool.caught
  split
  · split
    · have htrip := (trip_desk cfg s e).rested t
      dsimp only
      split
      · exact (hsame _ _ _).rested htrip
      · exact htrip.acquire cfg _ false
    · exact (hsame _ _ _).rested t
  · rename_i w
    split
    · have htrip := (trip_desk cfg _ e).rested ((unshift_desk s w).rested t)
      dsimp only
      split
      · exact (failWaiters_desk _ _).rested htrip
      · exact htrip
    · exact (rejectWaiter_desk e s w).rested t
  · dsimp only
    split
    · have hbroken : SameDesk s { s with lastProbeError := some e, broken := some e } :=
        ⟨rfl, rfl, rfl, rfl, rfl, rfl⟩
      exact ((hbroken.trans (settleBreaker_desk _)).trans (hended _ _)).rested t
    · have herr : SameDesk s { s with lastProbeError := some e } := ⟨rfl, rfl, rfl, rfl, rfl, rfl⟩
      exact (herr.trans (probeTop_desk _ _)).rested t

theorem Rested.endPool (t : Rested base s) : Rested base s.endPool := by
  have hclosed : SameDesk s { s with closed := true } := ⟨rfl, rfl, rfl, rfl, rfl, rfl⟩
  have hwake := ((hclosed.trans (cancelProbeNap_desk _)).trans
    (failWaiters_desk _ poolEnded)).trans (wakeRecovered_desk _)
  unfold Pool.endPool
  generalize (({ s with closed := true }.cancelProbeNap.failWaiters poolEnded).wakeRecovered) = s'
    at hwake
  have ht := hwake.rested t
  have hend : ∀ (l : List ConnId) (s : Pool), Rested base s → Rested base (l.foldl Pool.endClient s) := by
    intro l
    induction l with
    | nil => exact fun _ h => h
    | cons c l ih => exact fun s h => ih _ (h.endClient c)
  exact hend _ _ ⟨ht.status, ht.fresh, fun _ h => absurd h (by simp), ht.opening, ht.rolling, ht.lent⟩

/-- **What a step lends is clean.** -/
theorem Orderly.step_rested (t : Orderly s) {e : PoolEvent} (he : s.enabled cfg e = true)
    (hok : s.leavesQuiet e = true) : Rested s.checkouts (s.step cfg e) := by
  have hr := t.rested
  simp only [leavesQuiet, Bool.and_eq_true] at hok
  cases e with
  | acquire isGuarded =>
    exact Rested.acquire (s := { s with nextAcquire := s.nextAcquire + 1 })
      ⟨hr.status, hr.fresh, hr.idle, hr.opening, hr.rolling, hr.lent⟩ cfg s.nextAcquire isGuarded
  | woken a => exact hr.grab cfg a
  | opened c o =>
    simp only [enabled, decide_eq_true_eq] at he
    refine Rested.opened (s := { s with opens := s.opens.erase (c, o) })
      ⟨hr.status, hr.fresh, hr.idle, fun p hp => hr.opening p (List.mem_of_mem_erase hp), hr.rolling,
        hr.lent⟩ (hr.opening _ he) cfg
  | openFailed c o e =>
    have hend := hr.endClient c
    exact ⟨hend.status, hend.fresh, hend.idle,
      fun p hp => hend.opening p (List.mem_of_mem_erase hp), hend.rolling, hend.lent⟩
  | caught o e =>
    exact Rested.caught (s := { s with catching := s.catching.erase (o, e) })
      ⟨hr.status, hr.fresh, hr.idle, hr.opening, hr.rolling, hr.lent⟩ e o
  | probe p =>
    show Rested _ (if _ then _ else _)
    split
    · exact Rested.openFor (s := s.setProbe p .opening)
        ⟨hr.status, hr.fresh, hr.idle, hr.opening, hr.rolling, hr.lent⟩ cfg _
    · exact ⟨hr.status, hr.fresh, hr.idle, hr.opening, hr.rolling, hr.lent⟩
  | release a c =>
    refine t.giveBack (fun hc hcancel => ?_) a
    simpa [hc, hcancel] using hok.2
  | cancelSettled c =>
    have hmod := hr.modClient c (f := fun k => { k with isCanceling := false }) id id
      (fun h => by
        cases h with
        | closed h => exact .closed h
        | sent hs hu => exact .sent hs hu
        | served hs hu => exact .served hs hu
        | done h => exact .done h)
    show Rested _ (if _ then _ else _)
    split
    · rename_i hc
      have hdraining : c ∈ s.draining := hc
      have habroad := t.abroad_draining hdraining
      have hquiet : s.endsQuietly c = true := by simpa [hdraining] using hok.2
      refine Rested.reclaim (s := { s.modClient c fun k => { k with isCanceling := false } with
          draining := s.draining.erase c })
        ⟨hmod.status, hmod.fresh, hmod.idle, hmod.opening, hmod.rolling, hmod.lent⟩ ?_
        ⟨habroad.known, habroad.idle, habroad.opening, habroad.rolling⟩ (fun _ h => h) cfg
      simpa [endsQuietly, Pool.modClient, Client.isQuiet] using hquiet
    · exact hmod
  | rolledBack c =>
    simp only [enabled, Bool.and_eq_true, decide_eq_true_eq] at he
    refine Rested.checkin (s := { s with rolling := s.rolling.erase c })
      ⟨hr.status, hr.fresh, hr.idle, hr.opening, fun x hx => hr.rolling x (List.mem_of_mem_erase hx),
        hr.lent⟩ ?_ cfg
    exact (hr.rolling c he.1).clean he.2
  | rollbackFailed c =>
    refine Rested.refill (Rested.endClient (s := { s with
      rolling := s.rolling.erase c, all := s.all.erase c }) ?_ c) cfg
    exact ⟨hr.status, hr.fresh, hr.idle, hr.opening, fun x hx => hr.rolling x (List.mem_of_mem_erase hx),
      hr.lent⟩
  | idleTimeout c =>
    show Rested _ (if _ then _ else _)
    split
    · refine Rested.endClient (s := { s.clearIdleTimer c with
        idle := s.idle.erase c, all := s.all.erase c }) ?_ c
      exact ⟨hr.status, hr.fresh, fun x hx => hr.idle x (List.mem_of_mem_erase hx), hr.opening,
        hr.rolling, hr.lent⟩
    · exact ⟨hr.status, hr.fresh, hr.idle, hr.opening, hr.rolling, hr.lent⟩
  | submit a c =>
    simp only [enabled, decide_eq_true_eq] at he
    exact hr.modAbroad (f := fun k => k.send .query) (t.abroad_held he) (fun _ h => h) (hr.status c)
  | serve c inTx =>
    simp only [enabled, Bool.and_eq_true, Bool.not_eq_true', List.isEmpty_eq_false_iff] at he
    exact hr.modClient c (f := fun k => k.serve inTx) (fun h => Client.serve_last h inTx)
      (fun h => absurd (h.unserved_nil he.1) he.2) (fun h => h.serve he.1 he.2 inTx)
  | answer c =>
    simp only [enabled, Bool.and_eq_true, Bool.not_eq_true', List.isEmpty_eq_false_iff] at he
    exact hr.modClient c Client.answer_last (fun h => absurd (h.unread_nil he.1) he.2)
      (fun h => h.answer (hr.status c) he.1 he.2)
  | cancel c =>
    refine hr.modClient c (f := fun k => { k with isCanceling := true }) id id fun h => ?_
    cases h with
    | closed h => exact .closed h
    | sent hs hu => exact .sent hs hu
    | served hs hu => exact .served hs hu
    | done h => exact .done h
  | died c => exact hr.endClient c
  | recoverTimeout | acquireTimeout | napDone =>
    exact ⟨hr.status, hr.fresh, hr.idle, hr.opening, hr.rolling, hr.lent⟩
  | endPool => exact hr.endPool

theorem Orderly.step (t : Orderly s) {e : PoolEvent} (he : s.enabled cfg e = true)
    (hok : s.leavesQuiet e = true) : Orderly (s.step cfg e) := by
  have hr := t.step_rested he hok
  simp only [leavesQuiet, Bool.and_eq_true] at hok
  exact ⟨step_tidy he t.tidy, step_exclusive he hok.1 t.exclusive,
    hr.status, hr.fresh, hr.idle, hr.opening, hr.rolling, fun _ h => .inl h⟩

theorem reachable_orderly (h : ReachableIf cfg (fun s e => s.leavesQuiet e = true) s) :
    Orderly s := by
  refine Machine.Reach.invariant ?_ ?_ h
  · rintro _ rfl
    have hclean : ({} : Client).IsClean := .inr ⟨rfl, rfl⟩
    refine ⟨start_tidy, start_exclusive, fun _ => rfl, fun _ _ => hclean, fun _ h => ?_, fun _ h => ?_,
      fun _ h => ?_, fun _ h => .inl h⟩
    all_goals exact absurd h (by simp)
  · intro s e t he hok
    exact t.step he hok

/-- **A connection that is handed over is clean**: no transaction is open in its session, and
nothing of its previous holder is queued or in flight. -/
theorem handed_over_clean (h : ReachableIf cfg (fun s e => s.leavesQuiet e = true) s)
    {e : PoolEvent} (he : s.enabled cfg e = true) (hok : s.leavesQuiet e = true) :
    ∀ a c, (a, c) ∈ (s.step cfg e).checkouts → (a, c) ∉ s.checkouts →
      ((s.step cfg e).clients c).IsClean := by
  intro a c hnew hold
  exact (((reachable_orderly h).step_rested he hok).lent _ hnew).resolve_left hold

/-- The holder sends a query and waits for its answer; the transaction that it left open is rolled
back before the waiter gets the connection. -/
theorem handed_over_clean_rolledBack :
    let s := run { max := 1 } [.acquire false, .opened 0 (.acquire 0), .acquire false, .submit 0 0,
      .serve 0 true, .answer 0, .release 0 0, .serve 0 true, .answer 0]
    ∀ a c, (a, c) ∈ (s.step { max := 1 } (.rolledBack 0)).checkouts → (a, c) ∉ s.checkouts →
      ((s.step { max := 1 } (.rolledBack 0)).clients c).IsClean :=
  @handed_over_clean { max := 1 } _ (reachable_run (by decide)) _ (by decide) (by decide)

/-- The holder sends a BEGIN, and does not wait for it.  The status is still idle, and the
connection goes to the waiter at once. -/
theorem handed_over_clean_fails :
    ¬∀ s, Reachable { max := 1 } s → ∀ e, s.enabled { max := 1 } e = true →
      ∀ a c, (a, c) ∈ (s.step { max := 1 } e).checkouts → (a, c) ∉ s.checkouts →
        ((s.step { max := 1 } e).clients c).IsClean := by
  intro h
  have hrun : Reachable { max := 1 } (run { max := 1 } [.acquire false, .opened 0 (.acquire 0),
      .acquire false, .submit 0 0, .serve 0 true]) := reachable_run (by decide)
  have hclean := h _ hrun (.release 0 0) (by decide) 1 0 (by decide) (by decide)
  exact absurd hclean (by unfold Client.IsClean; decide)

end Pool

end Minipg
