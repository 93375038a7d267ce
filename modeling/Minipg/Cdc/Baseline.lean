import Minipg.Cdc.Calls

/-!
# A stream and its baseline

A slot that the handle has made owes a baseline until a backfill has resolved for it.  While it
does, `run` is in the window of that slot (`Owed`): the ways out of the window are a resolved
backfill and the end of `run`.

Two steps leave a window, or do not enter it, and go on with another session, which finds the slot
and resumes: a CREATE_REPLICATION_SLOT whose answer is lost, and a `retryDelayMs` that throws after
a failed backfill.
-/

namespace Minipg

namespace Cdc

variable {o : ReplicateOptions} {s s' : Cdc} {e : CdcEvent}

/-- The step leaves the window of a new slot for another session. -/
def leavesWindow (o : ReplicateOptions) (s : Cdc) : CdcEvent → Bool
  | .createLost x => o.durableName.isSome && survives o s x
  | .retryDelay (.error x) => (windowOf s.runAt).isSome && survives o s x
  | _ => false

abbrev KeepsWindow (o : ReplicateOptions) (s : Cdc) (e : CdcEvent) : Prop :=
  leavesWindow o s e = false

structure Owed (s : Cdc) : Prop where
  read : ∀ n, SlotOrigin.own n ∈ s.starts → n ∈ s.baselines
  slot : ∀ n, s.slot = some (.own n) →
    n ∈ s.baselines ∨ windowOf s.runAt = some n ∨ s.runAt = .done
  called : ∀ n i, s.runAt = .pending (.backfill n) i →
    (s.results i).any Settled.isResolved = true → n ∈ s.baselines

namespace Owed

theorem init : Owed {} where
  read := fun _ h => nomatch h
  slot := fun _ h => nomatch h
  called := fun _ _ h => nomatch h

/-- Outside the windows nothing is owed. -/
theorem paid (h : Owed s) (hw : windowOf s.runAt = none) (hd : s.runAt ≠ .done) {n : CreationId}
    (hn : s.slot = some (.own n)) : n ∈ s.baselines := by
  obtain hb | hw' | hd' := h.slot n hn
  · exact hb
  · exact nomatch hw.symm.trans hw'
  · exact absurd hd' hd

/-- A step that keeps what was read, if `run` waits at a place that the slot allows. -/
theorem moves (h : Owed s) (hstarts : s'.starts = s.starts) (hbase : s'.baselines = s.baselines)
    (hslot : ∀ n, s'.slot = some (.own n) →
      n ∈ s.baselines ∨ windowOf s'.runAt = some n ∨ s'.runAt = .done)
    (hcalled : ∀ n i, s'.runAt = .pending (.backfill n) i →
      (s'.results i).any Settled.isResolved = true → n ∈ s.baselines) : Owed s' where
  read := by
    rw [hstarts, hbase]
    exact h.read
  slot := by
    rw [hbase]
    exact hslot
  called := by
    rw [hbase]
    exact hcalled

/-- `run` waits where it did. -/
theorem same (h : Owed s) (hc : Control s s') (hr : s'.runAt = s.runAt) : Owed s' := by
  refine h.moves hc.starts hc.baselines ?_ ?_
  · rw [hc.slot, hr]
    exact h.slot
  · rw [hc.results, hr]
    exact h.called

/-- A plain step is taken where nothing is owed. -/
theorem plain (h : Owed s) (hw : windowOf s.runAt = none) (hd : s.runAt ≠ .done)
    (hp : Plain s s') : Owed s' := by
  refine h.moves hp.control.starts hp.control.baselines (fun n hn => .inl (h.paid hw hd ?_)) ?_
  · exact hp.control.slot.symm.trans hn
  · exact fun n i hi => absurd hi (hp.idle _ i)

/-- Another slot is not the one of a window. -/
theorem set_slot (h : Owed s) {v : Option SlotOrigin} (r : Option ReplId)
    (hv : ∀ n, v = some (.own n) → s.slot = some (.own n)) :
    Owed { s with slot := v, repl := r } :=
  h.moves rfl rfl (fun n hn => h.slot n (hv n hn)) h.called

theorem issue (h : Owed s) (hr : s.runAt = .starting) :
    Owed { s with
      starts := if o.durableName.isSome then s.starts ++ s.slot.toList else s.starts
      runAt := .streaming } := by
  have hw : windowOf s.runAt = none := by rw [hr]; rfl
  have hd : s.runAt ≠ .done := by rw [hr]; exact fun h => nomatch h
  refine ⟨fun n hn => ?_, fun n hn => .inl (h.paid hw hd hn), ?_⟩
  · by_cases hdur : o.durableName.isSome
    · rw [if_pos hdur] at hn
      obtain hn | hn := List.mem_append.mp hn
      · exact h.read n hn
      · exact h.paid hw hd (Option.mem_toList.mp hn)
    · rw [if_neg hdur] at hn
      exact h.read n hn
  · intro n i hi
    exact nomatch hi

/-- A call has a new number, which has no result. -/
theorem call (h : Owed s) (ht : Tracked s) (k : Callback) (hr : s.runAt = .calling k) :
    Owed { s with
      current := some s.nextCall, nextCall := s.nextCall + 1, runAt := .pending k s.nextCall } := by
  refine h.moves rfl rfl (fun n hn => (h.slot n hn).imp_right fun hw => ?_) ?_
  · rw [hr] at hw
    cases k <;> exact hw.imp_right fun h => nomatch h
  · intro n i hp hres
    cases hp
    have hnone : s.results s.nextCall = none := ht.fresh _ (Nat.le_refl _)
    have hres' : (s.results s.nextCall).any Settled.isResolved = true := hres
    rw [hnone] at hres'
    exact nomatch hres'

/-- A backfill that resolves is a baseline that was read. -/
theorem settle (h : Owed s) (k : Callback) (i : CallId) (r : Settled)
    (hr : s.runAt = .pending k i) : Owed (s.settleCall k i r) := by
  have hnew : ∀ n, k = .backfill n → (Function.update s.results i (some r) i).any
      Settled.isResolved = r.isResolved := by
    intro n _
    rw [Function.update_self]
    rfl
  unfold settleCall
  by_cases hres : r.isResolved
  · rw [if_pos hres]
    cases k with
    | backfill n =>
      refine ⟨fun m hm => List.mem_append_left _ (h.read m hm), fun m hm => ?_, fun m j hp _ => ?_⟩
      · exact (h.slot m hm).imp_left (List.mem_append_left _)
      · cases hr.symm.trans hp
        exact List.mem_append_right _ (List.mem_singleton.mpr rfl)
    | onResume d => exact h.moves rfl rfl h.slot fun n j hp => nomatch hr.symm.trans hp
    | onTransaction b => exact h.moves rfl rfl h.slot fun n j hp => nomatch hr.symm.trans hp
  · rw [if_neg hres]
    refine h.moves rfl rfl h.slot fun n j hp hj => ?_
    cases hr.symm.trans hp
    exact absurd ((hnew n rfl).symm.trans hj) hres

theorem create (h : Owed s) (hr : s.runAt = .creating) : Owed (s.created o) := by
  obtain ⟨hc, hnext⟩ := created_cases o s
  have hw : windowOf s.runAt = none := by rw [hr]; rfl
  have hd : s.runAt ≠ .done := by rw [hr]; exact fun h => nomatch h
  refine h.moves hc.starts hc.baselines (fun n hn => ?_) ?_
  · rw [hc.slot] at hn
    unfold createSlot at hn
    dsimp only at hn
    split at hn
    · cases hn
      exact .inr (hnext.symm.imp_left fun hc => by rw [hc]; rfl)
    · exact .inl (h.paid hw hd hn)
  · intro n i hp
    obtain hr | hr := hnext
    · exact nomatch hr.symm.trans hp
    · exact nomatch hr.symm.trans hp

/-- The answer of the creation is lost: the run is over, or the slot is not durable. -/
theorem lose (h : Owed s) (x : CdcError) (hr : s.runAt = .creating)
    (hx : o.durableName.isSome = true → survives o s x = false) :
    Owed ((s.createSlot o).catchSession o x) := by
  have hp := catchSession_plain o (s.createSlot o) x
  have hw : windowOf s.runAt = none := by rw [hr]; rfl
  have hd : s.runAt ≠ .done := by rw [hr]; exact fun h => nomatch h
  refine h.moves hp.control.starts hp.control.baselines (fun n hn => ?_) ?_
  · rw [hp.control.slot] at hn
    unfold createSlot at hn
    dsimp only at hn
    split at hn
    · rename_i hdur
      exact .inr (.inr (catchSession_done x (hx hdur)))
    · exact .inl (h.paid hw hd hn)
  · exact fun n i hi => absurd hi (hp.idle _ i)

theorem retry {q : Prop} {of : Await → Prop} (h : Owed s) (hd : s.runAt ≠ .done)
    (hof : ∀ n, windowOf s.runAt = some n → ∀ a, of a → windowOf a = some n)
    (hr : Retry of q s s') : Owed s' := by
  refine h.moves hr.control.starts hr.control.baselines (fun n hn => ?_) ?_
  · rw [hr.control.slot] at hn
    obtain hb | hw | hdone := h.slot n hn
    · exact .inl hb
    · exact .inr (hr.next.symm.imp (fun ha => hof n hw _ ha) fun hd => hd.1)
    · exact absurd hdone hd
  · exact fun n i hi => absurd hi (hr.idle _ i)

theorem stop (h : Owed s) : Owed s.callStop := by
  unfold callStop
  split
  · unfold doStop
    dsimp only
    split <;> exact h.moves rfl rfl h.slot h.called
  · exact h

theorem stopContinues (h : Owed s) (isHandling isResolved : Bool) :
    Owed (s.stopContinues isHandling isResolved) := by
  unfold Cdc.stopContinues
  rw [ackPending_eq]
  split
  · split <;> exact h.moves rfl rfl h.slot h.called
  · exact h.moves rfl rfl h.slot h.called

theorem handle (h : Owed s) {b : Batch} {i : CallId} (hr : s.runAt = .pending (.onTransaction b) i) :
    Owed s.handlerDone := by
  have hw : windowOf s.runAt = none := by rw [hr]; rfl
  have hd : s.runAt ≠ .done := by rw [hr]; exact fun h => nomatch h
  unfold handlerDone
  rw [ackPending_eq]
  split <;> exact h.moves rfl rfl (fun n hn => .inl (h.paid hw hd hn)) fun n j hp => nomatch hp

/-- **One step.** -/
theorem change (h : Owed s) (ht : Tracked s) (hch : Change o s e s') (hk : KeepsWindow o s e) :
    Owed s' := by
  cases hch with
  | plain v r away gone plain =>
    refine (h.set_slot r ?_).plain away.window away.live plain
    obtain rfl | rfl := gone
    · exact fun n hn => hn
    · exact fun n hn => nomatch hn
  | rests control same => exact h.same control same
  | foreign v other => exact h.set_slot s.repl fun n hn => absurd hn (other n)
  | called k place => exact h.call ht k place
  | settled k i r place fresh => exact h.settle k i r place
  | window n place retry =>
    refine h.retry ?_ (fun m hm a ha => ?_) retry
    · intro hd
      rw [hd] at place
      exact nomatch place
    · rw [place] at hm
      exact ha.trans hm
  | handler b place rejected retry =>
    refine h.retry ?_ (fun m hm => ?_) retry
    · intro hd
      rw [hd] at place
      exact nomatch place
    · rw [batchOf_window place] at hm
      exact nomatch hm
  | read n i place resolved =>
    have hread := h.called n i place resolved
    refine h.moves rfl rfl (fun m hm => .inl ?_) fun m j hp => nomatch hp
    obtain hb | hw | hd := h.slot m hm
    · exact hb
    · rw [place] at hw
      cases hw
      exact hread
    · exact nomatch place.symm.trans hd
  | handled b i place resolved => exact h.handle place
  | escapes x place idle survives plain =>
    obtain hw | hb := place
    · have hleaves : leavesWindow o s (.retryDelay (.error x)) = true := by
        rw [leavesWindow, hw, survives]
        rfl
      exact nomatch hk.symm.trans hleaves
    · obtain ⟨b, hb⟩ := Option.isSome_iff_exists.mp hb
      refine h.plain (batchOf_window hb) ?_ plain
      intro hd
      rw [hd] at hb
      exact nomatch hb
  | created place => exact h.create place
  | lost x place =>
    refine h.lose x place fun hdur => ?_
    have hkeeps : (o.durableName.isSome && survives o s x) = false := hk
    rwa [hdur, Bool.true_and] at hkeeps
  | issued place => exact h.issue place
  | batch b place =>
    have hw : windowOf s.runAt = none := by rw [place]; rfl
    have hd : s.runAt ≠ .done := by rw [place]; exact fun h => nomatch h
    obtain ⟨hc, hr⟩ | hb := receiveBatch_cases o s b
    · refine h.moves hc.starts hc.baselines (fun n hn => .inr (.inr hr)) fun n i hp => ?_
      exact nomatch hr.symm.trans hp
    · rw [hb]
      exact h.moves rfl rfl (fun n hn => .inl (h.paid hw hd hn)) fun n i hp => nomatch hp
  | stop => exact h.stop
  | stopContinues i isHandling place settled => exact h.stopContinues isHandling _

end Owed

theorem Reachable.owed (h : ReachableIf o (KeepsWindow o) s) : Owed s :=
  Machine.Reach.invariant_with (J := Tracked) (fun _ => Reachable.tracked)
    (fun _ h0 => h0 ▸ Owed.init) (fun _ _ ht hs he hk => hs.change ht (step_change he) hk) h

/-- The look at the slot of a new connection. -/
def findSlot (row : Option SlotHealthRow) : List CdcEvent :=
  [.connected, .probed (some 60000), .identified ("7000000000000000001", 1), .health row]

/-- The connection is lost after the server has executed the creation, and before its answer is
read.  The next session finds the slot and streams. -/
def lostCreation : List CdcEvent :=
  .start :: findSlot none ++
  [.createLost { message := "connection ended unexpectedly" }, .retryDelay (.ok (some 100)), .slept] ++
  findSlot (some { confirmedFlush := some 16 }) ++ [.startIssued]

end Cdc

end Minipg
