import Minipg.Cdc.Calls

/-!
# What is acknowledged is handled

An acknowledgement covers everything that the connection has received before it, so the batch that
it belongs to and all the earlier ones must have been handled (`Handled`).  While `run` is at the
handler of a batch, that batch is the last one received, and everything before it was handled
(`AtHandler`); elsewhere nothing is to be acknowledged, unless `run` is over.

`stop()` acknowledges for a handler it has awaited.  It is the right one as long as no session ends
with a handler under way, which a `retryDelayMs` that throws brings about: `handling` and
`pendingAckLsn` are then still set in the sessions after it.
-/

namespace Minipg

namespace Cdc

variable {o : ReplicateOptions} {s s' : Cdc} {e : CdcEvent}

/-- The step leaves the handler of a batch for another session. -/
def leavesHandler (o : ReplicateOptions) (s : Cdc) : CdcEvent → Bool
  | .retryDelay (.error x) => (batchOf s.runAt).isSome && survives o s x
  | _ => false

abbrev KeepsHandler (o : ReplicateOptions) (s : Cdc) (e : CdcEvent) : Prop :=
  leavesHandler o s e = false

/-! ### Acknowledgements -/

/-- The acknowledgement is the end of a transaction that came over its connection; the batch that
ends it and all the batches before have been handled. -/
def Handled (calls : List HandlerCall) (a : ReplId × Lsn) : Prop :=
  ∃ pre c post, calls = pre ++ c :: post ∧ c.repl = a.1 ∧ c.batch.done = some a.2 ∧
    c.isResolved = true ∧ ∀ d ∈ pre, d.isResolved = true

theorem Handled.append {calls : List HandlerCall} {a : ReplId × Lsn} (h : Handled calls a)
    (cs : List HandlerCall) : Handled (calls ++ cs) a := by
  obtain ⟨pre, c, post, rfl, hc⟩ := h
  exact ⟨pre, c, post ++ cs, by simp, hc⟩

theorem markLast_append (cs : List HandlerCall) (c : HandlerCall) (ds : List HandlerCall) :
    markLast (cs ++ c :: ds) = cs ++ markLast (c :: ds) := by
  induction cs with
  | nil => rfl
  | cons d cs ih =>
    cases cs with
    | nil => rfl
    | cons d' cs => exact congrArg (d :: ·) ih

theorem markLast_cons {c : HandlerCall} (h : c.isResolved = true) (cs : List HandlerCall) :
    markLast (c :: cs) = c :: markLast cs := by
  cases cs with
  | nil =>
    have hc : { c with isResolved := true } = c := by rw [← h]
    exact congrArg (· :: []) hc
  | cons d cs => rfl

theorem markLast_resolved {cs : List HandlerCall} (h : ∀ c ∈ cs, c.isResolved = true) :
    markLast cs = cs := by
  induction cs with
  | nil => rfl
  | cons c cs ih =>
    rw [markLast_cons (h c List.mem_cons_self), ih fun d hd => h d (List.mem_cons_of_mem _ hd)]

theorem Handled.markLast {calls : List HandlerCall} {a : ReplId × Lsn} (h : Handled calls a) :
    Handled (Cdc.markLast calls) a := by
  obtain ⟨pre, c, post, rfl, hrepl, hdone, hres, hpre⟩ := h
  refine ⟨pre, c, Cdc.markLast post, ?_, hrepl, hdone, hres, hpre⟩
  rw [markLast_append, markLast_cons hres]

/-! ### The handler of the last batch -/

/-- `b` is the last batch, and everything before it was handled.  So was `b`, if its handler has
resolved. -/
def AtHandler (s : Cdc) (b : Batch) : Prop :=
  (s.pendingAckLsn = b.done ∨ s.pendingAckLsn = none) ∧
    ∃ pre d, (∀ c ∈ pre, c.isResolved = true) ∧
      s.calls = pre ++ s.repl.toList.map (fun r => { repl := r, batch := b, isResolved := d }) ∧
      ∀ i, s.runAt = .pending (.onTransaction b) i →
        (s.results i).any Settled.isResolved = true → d = true

/-- When the handler has resolved, everything was handled. -/
theorem AtHandler.all {b : Batch} {i : CallId} (h : AtHandler s b)
    (hr : s.runAt = .pending (.onTransaction b) i)
    (hres : (s.results i).any Settled.isResolved = true) : ∀ c ∈ s.calls, c.isResolved = true := by
  obtain ⟨-, pre, d, hpre, hcalls, hd⟩ := h
  intro c hc
  rw [hcalls] at hc
  obtain hc | hc := List.mem_append.mp hc
  · exact hpre c hc
  · obtain ⟨r, -, rfl⟩ := List.mem_map.mp hc
    exact hd i hr hres

/-- Its end can be acknowledged then. -/
theorem AtHandler.acked {b : Batch} {i : CallId} (h : AtHandler s b)
    (hr : s.runAt = .pending (.onTransaction b) i)
    (hres : (s.results i).any Settled.isResolved = true) : ∀ a ∈ s.acked, Handled s.calls a := by
  obtain ⟨hpend, pre, d, hpre, hcalls, hd⟩ := h
  intro a ha
  unfold Cdc.acked at ha
  split at ha
  · rename_i r lsn hrepl hlsn
    cases List.mem_singleton.mp ha
    have hdone : b.done = some lsn := by
      obtain hp | hp := hpend
      · exact hp.symm.trans hlsn
      · exact nomatch hp.symm.trans hlsn
    rw [hrepl] at hcalls
    exact ⟨pre, _, [], hcalls, rfl, hdone, hd i hr hres, hpre⟩
  · exact nomatch ha

structure Handling (s : Cdc) : Prop where
  acks : ∀ a ∈ s.acks, Handled s.calls a
  live : ∀ b, batchOf s.runAt = some b → AtHandler s b
  idle : batchOf s.runAt = none → s.runAt ≠ .done →
    s.handling = false ∧ s.pendingAckLsn = none ∧ ∀ c ∈ s.calls, c.isResolved = true
  stops : s.stopAt ≠ .notCalled → s.stopping = true
  waits : ∀ i, s.stopAt = .waiting i true → (∃ b, s.runAt = .pending (.onTransaction b) i) ∨
    ∃ r, s.results i = some r ∧ (r.isResolved = true → s.pendingAckLsn = none)

namespace Handling

theorem init : Handling {} where
  acks := fun _ h => nomatch h
  live := fun _ h => nomatch h
  idle := fun _ _ => ⟨rfl, rfl, fun _ h => nomatch h⟩
  stops := fun h => absurd rfl h
  waits := fun _ h => nomatch h

/-- The slot is another one. -/
theorem slot (h : Handling s) (v : Option SlotOrigin) (n : CreationId) :
    Handling { s with slot := v, nextCreation := n } :=
  ⟨h.acks, h.live, h.idle, h.stops, h.waits⟩

theorem batchOf_pending {b : Batch} {i : CallId} (h : s.runAt = .pending (.onTransaction b) i) :
    batchOf s.runAt = some b := by
  rw [h]
  rfl

/-- Away from the handlers the connection can be another one. -/
theorem away (h : Handling s) (hb : batchOf s.runAt = none) (v : Option SlotOrigin)
    (r : Option ReplId) : Handling { s with slot := v, repl := r } :=
  ⟨h.acks, fun _ hb' => absurd (hb.symm.trans hb') (nofun), h.idle, h.stops, h.waits⟩

/-- A control step between two places that are no handlers. -/
theorem control (h : Handling s) (hb : batchOf s.runAt = none) (hd : s.runAt ≠ .done)
    (hc : Control s s') (hb' : batchOf s'.runAt = none) : Handling s' where
  acks := by
    rw [hc.acks, hc.calls]
    exact h.acks
  live := fun _ hlive => nomatch hb'.symm.trans hlive
  idle := by
    rw [hc.handling, hc.pendingAckLsn, hc.calls]
    exact fun _ _ => h.idle hb hd
  stops := by
    rw [hc.stopAt, hc.stopping]
    exact h.stops
  waits := by
    intro i hi
    rw [hc.stopAt] at hi
    rw [hc.results, hc.pendingAckLsn]
    obtain ⟨b, hp⟩ | hres := h.waits i hi
    · exact nomatch hb.symm.trans (batchOf_pending hp)
    · exact .inr hres

theorem plain (h : Handling s) (hb : batchOf s.runAt = none) (hd : s.runAt ≠ .done)
    (hp : Plain s s') : Handling s' := by
  refine h.control hb hd hp.control ?_
  have hboth := Bool.and_eq_true_iff.mp hp.plain
  exact Option.isNone_iff_eq_none.mp hboth.2

theorem same (h : Handling s) (hc : Control s s') (hr : s'.runAt = s.runAt) : Handling s' where
  acks := by
    rw [hc.acks, hc.calls]
    exact h.acks
  live := by
    intro b hb
    rw [hr] at hb
    unfold AtHandler
    rw [hc.pendingAckLsn, hc.calls, hc.repl, hc.results, hr]
    exact h.live b hb
  idle := by
    rw [hr, hc.handling, hc.pendingAckLsn, hc.calls]
    exact h.idle
  stops := by
    rw [hc.stopAt, hc.stopping]
    exact h.stops
  waits := by
    rw [hc.stopAt, hr, hc.results, hc.pendingAckLsn]
    exact h.waits

/-- A handler is called, or anything else of the consumer's. -/
theorem call (h : Handling s) (k : Callback) (ht : Tracked s) (hr : s.runAt = .calling k) :
    Handling { s with
      current := some s.nextCall, nextCall := s.nextCall + 1, runAt := .pending k s.nextCall } where
  acks := h.acks
  live := by
    intro b hb
    have hlive : AtHandler s b := h.live b (by rw [hr]; cases k <;> exact hb)
    obtain ⟨hpend, pre, d, hpre, hcalls, -⟩ := hlive
    refine ⟨hpend, pre, d, hpre, hcalls, fun i hp hres => ?_⟩
    cases hp
    have hnone : s.results s.nextCall = none := ht.fresh _ (Nat.le_refl _)
    have hres' : (s.results s.nextCall).any Settled.isResolved = true := hres
    rw [hnone] at hres'
    exact nomatch hres'
  idle := by
    intro hb _
    refine h.idle ?_ ?_
    · rw [hr]
      cases k <;> exact hb
    · rw [hr]
      exact fun h => nomatch h
  stops := h.stops
  waits := by
    intro i hi
    obtain ⟨b, hp⟩ | hres := h.waits i hi
    · exact nomatch hr.symm.trans hp
    · exact .inr hres

theorem settle (h : Handling s) {k : Callback} {i : CallId} (r : Settled)
    (hr : s.runAt = .pending k i) (hfresh : s.results i = none) :
    Handling (s.settleCall k i r) := by
  have hwaits : ∀ j, s.stopAt = .waiting j true → (∃ b, s.runAt = .pending (.onTransaction b) j) ∨
      ∃ r', Function.update s.results i (some r) j = some r' ∧
        (r'.isResolved = true → s.pendingAckLsn = none) := by
    intro j hj
    refine (h.waits j hj).imp_right fun ⟨r', hr', hpend⟩ => ⟨r', ?_, hpend⟩
    have hne : j ≠ i := by
      rintro rfl
      exact nomatch hfresh.symm.trans hr'
    rw [Function.update_of_ne hne, hr']
  have hnew : ∀ j, s.runAt = .pending k j →
      (Function.update s.results i (some r) j).any Settled.isResolved = r.isResolved := by
    intro j hj
    cases hr.symm.trans hj
    rw [Function.update_self]
    rfl
  unfold settleCall
  by_cases hres : r.isResolved
  · rw [if_pos hres]
    cases k with
    | onTransaction b =>
      have hbatch : batchOf s.runAt = some b := batchOf_pending hr
      obtain ⟨hpend, pre, d, hpre, hcalls, -⟩ := h.live b hbatch
      -- the last call is the handler's
      have hmark : markLast s.calls =
          pre ++ s.repl.toList.map fun r => { repl := r, batch := b, isResolved := true } := by
        rw [hcalls]
        cases s.repl with
        | none => simpa using markLast_resolved hpre
        | some r => exact markLast_append pre _ []
      refine ⟨fun a ha => (h.acks a ha).markLast, fun b' hb' => ?_, fun hb => ?_, h.stops, hwaits⟩
      · cases hbatch.symm.trans hb'
        exact ⟨hpend, pre, true, hpre, hmark, fun _ _ _ => rfl⟩
      · exact nomatch hbatch.symm.trans hb
    | onResume d =>
      refine ⟨h.acks, fun b hb => ?_, h.idle, h.stops, hwaits⟩
      have hnone : batchOf s.runAt = none := by rw [hr]; rfl
      exact nomatch hnone.symm.trans hb
    | backfill n =>
      refine ⟨h.acks, fun b hb => ?_, h.idle, h.stops, hwaits⟩
      have hnone : batchOf s.runAt = none := by rw [hr]; rfl
      exact nomatch hnone.symm.trans hb
  · rw [if_neg hres]
    refine ⟨h.acks, fun b hb => ?_, h.idle, h.stops, hwaits⟩
    obtain ⟨hpend, pre, d, hpre, hcalls, -⟩ := h.live b hb
    refine ⟨hpend, pre, d, hpre, hcalls, fun j hj hj' => ?_⟩
    cases hr.symm.trans hj
    exact absurd ((hnew i hr).symm.trans hj') hres

/-- The handler of a batch is to be retried, or the run is over. -/
theorem retry {q : Prop} {b : Batch} (h : Handling s) (hb : batchOf s.runAt = some b)
    (hrej : ∀ k i, s.runAt = .pending k i → (s.results i).any Settled.isResolved = false)
    (hr : Retry (batchOf · = some b) q s s') : Handling s' where
  acks := by
    rw [hr.control.acks, hr.control.calls]
    exact h.acks
  live := by
    intro b' hb'
    obtain ⟨hd, -⟩ | hnext := hr.next
    · rw [hd] at hb'
      exact nomatch hb'
    · cases hnext.symm.trans hb'
      obtain ⟨hpend, pre, d, hpre, hcalls, -⟩ := h.live b hb
      unfold AtHandler
      rw [hr.control.pendingAckLsn, hr.control.calls, hr.control.repl]
      exact ⟨hpend, pre, d, hpre, hcalls, fun i hi => absurd hi (hr.idle _ i)⟩
  idle := by
    intro hb' hd'
    obtain ⟨hd, -⟩ | hnext := hr.next
    · exact absurd hd hd'
    · exact nomatch hb'.symm.trans hnext
  stops := by
    rw [hr.control.stopAt, hr.control.stopping]
    exact h.stops
  waits := by
    intro i hi
    rw [hr.control.stopAt] at hi
    rw [hr.control.results, hr.control.pendingAckLsn]
    obtain ⟨b', hp⟩ | hres := h.waits i hi
    · obtain ⟨r, hsome⟩ := Option.isSome_iff_exists.mp (hr.settled _ i hp)
      refine .inr ⟨r, hsome, fun hres => ?_⟩
      have hfalse := hrej _ i hp
      rw [hsome] at hfalse
      exact nomatch hres.symm.trans hfalse
    · exact .inr hres

/-- The handler of a batch has resolved: its end is acknowledged. -/
theorem handle (h : Handling s) {b : Batch} {i : CallId} (hr : s.runAt = .pending (.onTransaction b) i)
    (hres : (s.results i).any Settled.isResolved = true) : Handling s.handlerDone := by
  have hlive := h.live b (batchOf_pending hr)
  have hacked := hlive.acked hr hres
  have hall := hlive.all hr hres
  obtain ⟨n, hdone⟩ := handlerDone_eq s
  rw [hdone]
  refine ⟨fun a ha => ?_, (fun b hb => nomatch hb), fun _ _ => ⟨rfl, rfl, hall⟩, h.stops, ?_⟩
  · obtain ha | ha := List.mem_append.mp ha
    · exact h.acks a ha
    · exact hacked a ha
  · intro j hj
    obtain ⟨b', hp⟩ | ⟨r, hr', -⟩ := h.waits j hj
    · cases hr.symm.trans hp
      obtain ⟨r, hsome⟩ := Option.isSome_iff_exists.mp (Option.isSome_of_any hres)
      exact .inr ⟨r, hsome, fun _ => rfl⟩
    · exact .inr ⟨r, hr', fun _ => rfl⟩

/-- A batch arrives after all the earlier ones were handled. -/
theorem receive (h : Handling s) (b : Batch) (hr : s.runAt = .streaming) :
    Handling (s.receiveBatch o b) := by
  have hb : batchOf s.runAt = none := by rw [hr]; rfl
  have hd : s.runAt ≠ .done := by rw [hr]; exact fun h => nomatch h
  unfold receiveBatch unlessStopping
  split
  · exact h.plain hb hd (catchSession_plain o s stopError)
  · rename_i hstop
    have hnot : s.stopAt = .notCalled := by
      by_contra hne
      exact hstop (h.stops hne)
    obtain ⟨-, -, hall⟩ := h.idle hb hd
    refine ⟨fun a ha => (h.acks a ha).append _, fun b' hb' => ?_, (fun hb' => nomatch hb'),
      h.stops, fun i hi => nomatch hnot.symm.trans hi⟩
    cases hb'
    exact ⟨.inl rfl, s.calls, false, hall, rfl, fun i hi => nomatch hi⟩

/-- `stop()` awaits the call that is pending: if `handling` is set, it is a handler's. -/
theorem stop (h : Handling s) (ht : Tracked s) : Handling s.callStop := by
  unfold callStop
  split
  · have hwaits : ∀ i, s.handling = true → s.current = some i →
        ∃ b, s.runAt = .pending (.onTransaction b) i := by
      intro i hh hi
      obtain ⟨k, hp, -⟩ := ht.current i hi
      cases k with
      | onTransaction b => exact ⟨b, hp⟩
      | onResume d =>
        obtain ⟨hf, -⟩ := h.idle (by rw [hp]; rfl) (by rw [hp]; exact fun h => nomatch h)
        exact nomatch hh.symm.trans hf
      | backfill n =>
        obtain ⟨hf, -⟩ := h.idle (by rw [hp]; rfl) (by rw [hp]; exact fun h => nomatch h)
        exact nomatch hh.symm.trans hf
    unfold doStop settleReady
    dsimp only
    split
    · rename_i i hh hi
      refine ⟨h.acks, h.live, h.idle, fun _ => rfl, fun j hj => .inl ?_⟩
      cases hj
      exact hwaits i hh hi
    · exact ⟨h.acks, h.live, h.idle, fun _ => rfl, fun j hj => nomatch hj⟩
    · exact ⟨h.acks, h.live, h.idle, fun _ => rfl, fun j hj => nomatch hj⟩
    · exact ⟨h.acks, h.live, h.idle, fun _ => rfl, fun j hj => nomatch hj⟩
  · exact h

/-- `doStop` acknowledges what the handler has done that it awaited. -/
theorem stopContinues (h : Handling s) {i : CallId} {isHandling : Bool}
    (hs : s.stopAt = .waiting i isHandling) :
    Handling (s.stopContinues isHandling ((s.results i).any Settled.isResolved)) := by
  have hstopping : s.stopping = true := h.stops (by rw [hs]; exact fun h => nomatch h)
  unfold Cdc.stopContinues
  cases isHandling with
  | false => exact ⟨h.acks, h.live, h.idle, fun _ => hstopping, fun j hj => nomatch hj⟩
  | true =>
    cases hres : (s.results i).any Settled.isResolved with
    | false => exact ⟨h.acks, h.live, h.idle, fun _ => hstopping, fun j hj => nomatch hj⟩
    | true =>
      have hacked : ∀ a ∈ s.acked, Handled s.calls a := by
        obtain ⟨b, hp⟩ | ⟨r, hr, hpend⟩ := h.waits i hs
        · exact (h.live b (batchOf_pending hp)).acked hp hres
        · rw [hr] at hres
          intro a ha
          unfold Cdc.acked at ha
          rw [hpend hres] at ha
          cases hrepl : s.repl with
          | none =>
            rw [hrepl] at ha
            exact nomatch ha
          | some r =>
            rw [hrepl] at ha
            exact nomatch ha
      rw [if_pos rfl, if_pos rfl, ackPending_eq]
      refine ⟨fun a ha => ?_, fun b hb => ?_, fun hb hd => ?_, fun _ => hstopping, fun j hj => nomatch hj⟩
      · obtain ha | ha := List.mem_append.mp ha
        · exact h.acks a ha
        · exact hacked a ha
      · exact ⟨.inr rfl, (h.live b hb).2⟩
      · obtain ⟨hf, -, hall⟩ := h.idle hb hd
        exact ⟨hf, rfl, hall⟩

/-- **One step.** -/
theorem change (h : Handling s) (ht : Tracked s) (hch : Change o s e s')
    (hk : KeepsHandler o s e) : Handling s' := by
  cases hch with
  | plain v r away gone plain => exact (h.away away.batch v r).plain away.batch away.live plain
  | rests control same => exact h.same control same
  | foreign v other => exact h.slot v s.nextCreation
  | called k place => exact h.call k ht place
  | settled k i r place fresh => exact h.settle r place fresh
  | window n place retry =>
    have hb : batchOf s.runAt = none := windowOf_batch place
    have hd : s.runAt ≠ .done := by
      intro hd
      rw [hd] at place
      exact nomatch place
    refine h.control hb hd retry.control ?_
    obtain ⟨hd, -⟩ | hw := retry.next
    · rw [hd]
      rfl
    · exact windowOf_batch hw
  | handler b place rejected retry => exact h.retry place rejected retry
  | read n i place resolved =>
    have hb : batchOf s.runAt = none := by rw [place]; rfl
    have hd : s.runAt ≠ .done := by rw [place]; exact fun h => nomatch h
    exact h.control hb hd (by constructor <;> rfl) rfl
  | handled b i place resolved => exact h.handle place resolved
  | escapes x place idle survives plain =>
    obtain hw | hb := place
    · obtain ⟨n, hw⟩ := Option.isSome_iff_exists.mp hw
      refine h.plain (windowOf_batch hw) ?_ plain
      intro hd
      rw [hd] at hw
      exact nomatch hw
    · have hleaves : leavesHandler o s (.retryDelay (.error x)) = true := by
        rw [leavesHandler, hb, survives]
        rfl
      exact nomatch hk.symm.trans hleaves
  | created place =>
    have hb : batchOf (s.createSlot o).runAt = none := by
      show batchOf s.runAt = none
      rw [place]
      rfl
    have hd : (s.createSlot o).runAt ≠ .done := by
      show s.runAt ≠ .done
      rw [place]
      exact fun h => nomatch h
    obtain ⟨hc, hnext⟩ := created_cases o s
    refine (h.slot _ _ : Handling (s.createSlot o)).control hb hd hc ?_
    obtain hr | hr := hnext <;> rw [hr] <;> rfl
  | lost x place =>
    have hb : batchOf (s.createSlot o).runAt = none := by
      show batchOf s.runAt = none
      rw [place]
      rfl
    have hd : (s.createSlot o).runAt ≠ .done := by
      show s.runAt ≠ .done
      rw [place]
      exact fun h => nomatch h
    exact (h.slot _ _ : Handling (s.createSlot o)).plain hb hd (catchSession_plain o _ x)
  | issued place =>
    have hb : batchOf s.runAt = none := by rw [place]; rfl
    have hd : s.runAt ≠ .done := by rw [place]; exact fun h => nomatch h
    refine ⟨h.acks, (fun b hb => nomatch hb), fun _ _ => h.idle hb hd, h.stops, fun i hi => ?_⟩
    obtain ⟨b, hp⟩ | hres := h.waits i hi
    · exact nomatch hb.symm.trans (batchOf_pending hp)
    · exact .inr hres
  | batch b place => exact h.receive b place
  | stop => exact h.stop ht
  | stopContinues i isHandling place settled => exact h.stopContinues place

end Handling

theorem Reachable.handling (h : ReachableIf o (KeepsHandler o) s) : Handling s :=
  Machine.Reach.invariant_with (J := Tracked) (fun _ => Reachable.tracked)
    (fun _ h0 => h0 ▸ Handling.init) (fun _ _ ht hs he hk => hs.change ht (step_change he) hk) h

/-! ### The flag -/

/-- The step ends `run`, or its session, at the handler of a batch. -/
def endsHandler (s : Cdc) (e : CdcEvent) : Bool := (batchOf s.runAt).isSome && s.quits e

abbrev FinishesHandler (s : Cdc) (e : CdcEvent) : Prop := endsHandler s e = false

/-- `handling` is set at a handler only. -/
def Flagged (s : Cdc) : Prop := s.handling = true → (batchOf s.runAt).isSome = true

namespace Flagged

/-- Elsewhere it is clear, and stays so. -/
theorem clear (h : Flagged s) (hb : batchOf s.runAt = none) (hs : s'.handling = s.handling) :
    Flagged s' := by
  intro hh
  have hsome := h (hs.symm.trans hh)
  rw [hb] at hsome
  exact nomatch hsome

theorem same (h : Flagged s) (hs : s'.handling = s.handling) (hb : batchOf s'.runAt = batchOf s.runAt) :
    Flagged s' := by
  intro hh
  rw [hb]
  exact h (hs.symm.trans hh)

theorem settle (h : Flagged s) (k : Callback) (i : CallId) (r : Settled) :
    Flagged (s.settleCall k i r) := by
  unfold settleCall
  split
  · cases k <;> exact h
  · exact h

theorem stop (h : Flagged s) : Flagged s.callStop := by
  unfold callStop
  split
  · unfold doStop
    dsimp only
    split <;> exact h
  · exact h

theorem stopContinues (h : Flagged s) (isHandling isResolved : Bool) :
    Flagged (s.stopContinues isHandling isResolved) := by
  unfold Cdc.stopContinues
  rw [ackPending_eq]
  split
  · split <;> exact h
  · exact h

/-- **One step.** -/
theorem change (h : Flagged s) (hch : Change o s e s') (hk : FinishesHandler s e) : Flagged s' := by
  cases hch with
  | plain v r away gone plain => exact h.clear away.batch plain.control.handling
  | rests control same => exact h.same control.handling (congrArg batchOf same)
  | foreign v other => exact h
  | called k place =>
    refine h.same rfl ?_
    rw [place]
    cases k <;> rfl
  | settled k i r place fresh => exact h.settle k i r
  | window n place retry => exact h.clear (windowOf_batch place) retry.control.handling
  | handler b place rejected retry =>
    obtain ⟨-, hq⟩ | hnext := retry.next
    · have hends : endsHandler s e = true := by
        rw [endsHandler, place, hq]
        rfl
      exact nomatch hk.symm.trans hends
    · exact fun _ => Option.isSome_iff_exists.mpr ⟨b, hnext⟩
  | read n i place resolved => exact h.clear (by rw [place]; rfl) rfl
  | handled b i place resolved =>
    obtain ⟨n, hdone⟩ := handlerDone_eq s
    rw [hdone]
    exact fun hh => nomatch hh
  | escapes x place idle survives plain =>
    obtain hw | hb := place
    · obtain ⟨n, hw⟩ := Option.isSome_iff_exists.mp hw
      exact h.clear (windowOf_batch hw) plain.control.handling
    · have hends : endsHandler s (.retryDelay (.error x)) = true := by
        rw [endsHandler, hb]
        rfl
      exact nomatch hk.symm.trans hends
  | created place => exact h.clear (by rw [place]; rfl) (created_cases o s).1.handling
  | lost x place => exact h.clear (by rw [place]; rfl) (catchSession_plain o _ x).control.handling
  | issued place => exact h.clear (by rw [place]; rfl) rfl
  | batch b place =>
    obtain ⟨hc, -⟩ | hb := receiveBatch_cases o s b
    · exact h.clear (by rw [place]; rfl) hc.handling
    · rw [hb]
      exact fun _ => rfl
  | stop => exact h.stop
  | stopContinues i isHandling place settled => exact h.stopContinues isHandling _

end Flagged

theorem Reachable.flagged (h : ReachableIf o FinishesHandler s) : Flagged s :=
  h.invariant (fun _ h0 => h0 ▸ fun hh => nomatch hh)
    fun _ _ hs he hk => hs.change (step_change he) hk

/-- A session with a slot of its own, up to its backfill. -/
def openSlot : List CdcEvent := [.connected, .probed none, .created, .called]

/-- The handler of a transaction that ends at 5 is called. -/
def receiveFive : List CdcEvent :=
  .start :: openSlot ++
    [.settled (.resolved false), .goesOn, .startIssued, .batch { xid := 1, done := some 5 }, .called]

/-- The handler rejects, and the retry delay it is asked for throws.  `stop()` comes while the next
session is at its backfill: it awaits the backfill, and acknowledges 5 on the new connection. -/
def unhandledAck : List CdcEvent :=
  receiveFive ++ [.settled (.rejected {}), .goesOn, .retryDelay (.error {}),
    .retryDelay (.ok (some 100)), .slept] ++
  openSlot ++ [.stop, .settled (.resolved false), .stopContinues]

end Cdc

end Minipg
