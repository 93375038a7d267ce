import Mathlib.Data.List.Basic
import Mathlib.Logic.Function.Basic
import Minipg.Cursor.Serving

/-!
# Reading a cursor

The calls of `next()` of `src/cursor.ts`, in the order in which they are made, and the rows that
they deliver; they may overlap.  A FETCH that is executed takes the next rows of the query.  Time
passes, and the timer that a full batch arms fires `idleTimeoutMs` later or after that, when nothing
else is to do: a call that waits for an `opening` that is settled goes on first.
-/

namespace Minipg.Cursor

variable {Row : Type}

/-- How a call of `next()` is settled. -/
inductive Result (Row : Type)
  | batch (rows : List Row)
  | null
  | thrown

/-- Where a call of `next()` is. -/
inductive Call (Row : Type)
  /-- It waits for `opening`. -/
  | waiting
  | fetching
  /-- It has the last batch and waits for `close()`. -/
  | closing (batch : List Row)
  /-- Its FETCH was rejected, and it waits for `cleanup()`. -/
  | failing
  | settled (r : Result Row)

namespace Call

def isWaiting : Call Row → Bool
  | .waiting => true
  | _ => false

def isFetching : Call Row → Bool
  | .fetching => true
  | _ => false

def isSettled : Call Row → Bool
  | .settled _ => true
  | _ => false

/-- The rows of its batch. -/
def rows : Call Row → List Row
  | .closing batch | .settled (.batch batch) => batch
  | _ => []

/-- The rows that it has delivered. -/
def delivered : Call Row → List Row
  | .settled (.batch batch) => batch
  | _ => []

/-- It has found no row. -/
def isNull : Call Row → Bool
  | .settled .null | .closing [] => true
  | _ => false

end Call

/-- A query of a cursor: all its rows, and how many a FETCH asks for. -/
structure Query (Row : Type) where
  rows : List Row
  fetchSize : Nat
  fetchSize_pos : 0 < fetchSize
  options : CursorOptions := {}

/-- A cursor that is read; `taken` rows have been fetched, and `isDeclared` says whether the server
has the cursor.  `lastNext` is when the last call of `next()` was made, and `idleAborts` are the
times of aborts for idleness, each with the last call of `next()` before it. -/
structure Reader (Row : Type) where
  cursor : Cursor := {}
  taken : Nat := 0
  isDeclared : Bool := false
  calls : List (Call Row) := []
  now : Nat := 0
  armedAt : TimerId → Nat := fun _ => 0
  lastNext : Nat := 0
  idleAborts : List (Nat × Nat) := []

inductive ReaderEvent
  | cursor (e : CursorEvent)
  | tick (ms : Nat)
  /-- The rows of a FETCH arrive and cannot be decoded. -/
  | fetchLost

namespace Reader

variable (q : Query Row) (s : Reader Row)

/-- The rows of the next FETCH. -/
def batch : List Row := (q.rows.drop s.taken).take q.fetchSize

/-- `next()` returns null for an empty batch. -/
def ofBatch : List Row → Result Row
  | [] => .null
  | batch => .batch batch

def isErroredOrRejected : Bool := s.cursor.isErrored || s.cursor.opening = .rejected

/-- Nothing that is waited for is there. -/
def isQuiet : Bool :=
  s.cursor.waiting = 0 || (s.cursor.opening ≠ .resolved && s.cursor.opening ≠ .rejected)

/-! ### The calls -/

/-- A call of `next()`. -/
def called : Call Row :=
  if s.cursor.isErrored then .settled .thrown
  else if s.cursor.state = .done then .settled .null
  else .waiting

/-- A call that goes on after `opening`; without a lease it is cleaned up. -/
def resumed : Call Row :=
  if s.isErroredOrRejected then .settled .thrown
  else if s.cursor.hasLease then .fetching
  else .settled .thrown

/-- Whether `close()` has to wait. -/
def closes : Bool := s.cursor.state = .opened && s.cursor.hasLease && !s.cursor.isErrored

/-- A call whose FETCH has brought a batch. -/
def fetched (isShort : Bool) : Call Row :=
  if isShort && s.closes then .closing (s.batch q) else .settled (ofBatch (s.batch q))

def failed : Call Row := if s.cursor.hasLease then .failing else .settled .thrown

/-- What the answer to a statement is for the calls. -/
def answered : CursorStmt → Answer → Reader Row
  | .fetch, .ok isShort => { s with
      calls := s.calls.replaceF fun
        | .fetching => some (s.fetched q isShort)
        | _ => none
      taken := s.taken + (s.batch q).length
      armedAt := Function.update s.armedAt s.cursor.timers.nextTimer s.now }
  | .fetch, .failed => { s with
      calls := s.calls.replaceF fun
        | .fetching => some s.failed
        | _ => none }
  | .opening .declare _, .ok _ => { s with isDeclared := true }
  | .close, .ok _ => { s with isDeclared := false }
  | .commit, .ok _ | .closeRollback, _ => { s with
      calls := s.calls.replaceF fun
        | .closing batch => some (.settled (ofBatch batch))
        | _ => none }
  | .rollback .next, _ => { s with
      calls := s.calls.replaceF fun
        | .failing => some (.settled .thrown)
        | _ => none }
  | _, _ => s

/-- What an event of the cursor is for the calls. -/
def track : CursorEvent → Reader Row
  | .next => { s with calls := s.calls ++ [s.called], lastNext := s.now }
  | .resumed => { s with
      calls := s.calls.replaceF fun
        | .waiting => some s.resumed
        | _ => none }
  | .answer a =>
    match s.cursor.wire with
    | stmt :: _ => s.answered q stmt a
    | [] => s
  | .ended .next => { s with
      calls := s.calls.replaceF fun
        | .failing => some (.settled .thrown)
        | _ => none }
  | .idleFires _ =>
    if s.cursor.state = .done ∨ s.cursor.isErrored then s
    else { s with idleAborts := s.idleAborts ++ [(s.now, s.lastNext)] }
  | _ => s

def onCursor (e : CursorEvent) : Reader Row :=
  let cursor := s.cursor.step q.options e
  let s := s.track q e
  { s with cursor := cursor, isDeclared := s.isDeclared && cursor.inTransaction }

def step : ReaderEvent → Reader Row
  | .cursor e => s.onCursor q e
  | .tick ms => { s with now := s.now + ms }
  | .fetchLost => { s.onCursor q (.answer .failed) with taken := s.taken + (s.batch q).length }

/-- What the server executes, and when timers fire. -/
def allows : CursorEvent → Bool
  | .answer (.ok isShort) =>
    match s.cursor.wire with
    | .fetch :: _ => s.isDeclared && isShort = decide ((s.batch q).length < q.fetchSize)
    | .opening .declare _ :: _ => s.cursor.inTransaction
    | _ => true
  | .idleFires t => s.isQuiet && s.armedAt t + q.options.idleTimeoutMs ≤ s.now
  | .deadlineFires => s.isQuiet
  | _ => true

def enabled : ReaderEvent → Bool
  | .cursor e => s.cursor.enabled e && s.allows q e
  | .tick _ => s.isQuiet
  | .fetchLost =>
    s.cursor.wire.head? = some .fetch && s.isDeclared && !s.cursor.isEnded

def machine : Machine (Reader Row) ReaderEvent := ⟨fun s e => s.enabled q e, fun s e => s.step q e⟩

end Reader

/-- The guard of a cursor that is read, and what its calls deliver. -/
structure Guarded (q : Query Row) (s : Reader Row) : Prop where
  single : s.cursor.timers.idleArmed.length ≤ 1
  live : s.cursor.timers.idleArmed ≠ [] → s.cursor.state ≠ .done
  resting : s.cursor.timers.idleArmed ≠ [] → s.isQuiet = true →
    ∀ c ∈ s.calls, c.isSettled = true
  idle : ∀ p ∈ s.idleAborts, p.2 + q.options.idleTimeoutMs ≤ p.1
  delivered : s.calls.flatMap Call.delivered <+: q.rows
  exhausted : ∀ before after, s.calls = before ++ .settled .null :: after →
    before.flatMap Call.rows = q.rows

/-! ### What the calls do not see -/

/-- At most one timer is armed, and it is the one that can be cleared. -/
def Lone (t : CursorTimers) : Prop :=
  t.idleArmed = [] ∨ ∃ i, t.idleArmed = [i] ∧ t.idleTimer = some i

theorem Lone.clearIdle {t : CursorTimers} (h : Lone t) : t.clearIdle.idleArmed = [] := by
  rw [CursorTimers.clearIdle]
  rcases h with hnone | ⟨i, harmed, htimer⟩
  · cases t.idleTimer with
    | none => exact hnone
    | some j =>
      show t.idleArmed.erase j = []
      rw [hnone]
      rfl
  · rw [htimer]
    show t.idleArmed.erase i = []
    rw [harmed]
    simp

/-- A step that is none of a call: the timers are cleared, or they stay in a cursor that does. -/
structure Effect (s s' : Cursor) : Prop where
  waiting : s'.waiting = s.waiting
  fetches : s'.wire.count .fetch = s.wire.count .fetch
  done : s.state = .done → s'.state = .done
  ended : s.isEnded = true → s'.isEnded = true
  idle : Lone s.timers → s'.timers.idleArmed = [] ∨
    s'.timers.idleArmed = s.timers.idleArmed ∧ s'.timers.idleTimer = s.timers.idleTimer ∧
      (s.state ≠ .done → s'.state ≠ .done) ∧ (s.opening = .resolved → s'.opening = .resolved)

namespace Effect

variable {o : CursorOptions} {s s' s'' : Cursor}

theorem trans (h : Effect s s') (h' : Effect s' s'') : Effect s s'' := by
  refine ⟨h'.waiting.trans h.waiting, h'.fetches.trans h.fetches, h'.done ∘ h.done,
    h'.ended ∘ h.ended, fun hlone => ?_⟩
  rcases h.idle hlone with hnone | ⟨harmed, htimer, hlive, hopen⟩
  · rcases h'.idle (.inl hnone) with hnone' | ⟨harmed', -⟩
    · exact .inl hnone'
    · exact .inl (harmed'.trans hnone)
  · have hlone' : Lone s'.timers := by
      rw [Lone, harmed, htimer]
      exact hlone
    rcases h'.idle hlone' with hnone' | ⟨harmed', htimer', hlive', hopen'⟩
    · exact .inl hnone'
    · exact .inr ⟨harmed'.trans harmed, htimer'.trans htimer, hlive' ∘ hlive, hopen' ∘ hopen⟩

/-- The other fields do not matter. -/
theorem of_same (hwaiting : s'.waiting = s.waiting) (hwire : s'.wire = s.wire)
    (hstate : s'.state = s.state) (hended : s.isEnded = true → s'.isEnded = true)
    (htimers : s'.timers.idleArmed = s.timers.idleArmed ∧ s'.timers.idleTimer = s.timers.idleTimer)
    (hopening : s.opening = .resolved → s'.opening = .resolved) : Effect s s' := by
  refine ⟨hwaiting, by rw [hwire], fun hd => hstate.trans hd, hended, fun _ => .inr ?_⟩
  exact ⟨htimers.1, htimers.2, fun hne hd => hne (hstate ▸ hd), hopening⟩

theorem send (s : Cursor) {q : CursorStmt} (hq : q ≠ .fetch) : Effect s (s.send q) := by
  refine ⟨rfl, ?_, id, id, fun _ => .inr ⟨rfl, rfl, id, id⟩⟩
  show (s.wire ++ [q]).count .fetch = _
  rw [List.count_append, List.count_singleton, if_neg (by simpa using hq), Nat.add_zero]

theorem pop {q : CursorStmt} {qs : List CursorStmt} (hw : s.wire = q :: qs) (hq : q ≠ .fetch)
    (x : Bool) : Effect s { s with wire := qs, inTransaction := x } := by
  refine ⟨rfl, ?_, id, id, fun _ => .inr ⟨rfl, rfl, id, id⟩⟩
  show qs.count .fetch = s.wire.count .fetch
  rw [hw, List.count_cons_of_ne hq]

theorem release (s : Cursor) : Effect s s.release := by
  rw [Cursor.release]
  split
  · exact of_same rfl rfl rfl id ⟨rfl, rfl⟩ id
  · exact of_same rfl rfl rfl id ⟨rfl, rfl⟩ id

theorem cleaned {c : Cleaner} (hc : c = .opener → s.opening ≠ .resolved) :
    Effect s (s.cleaned c) := by
  cases c with
  | opener => exact of_same rfl rfl rfl id ⟨rfl, rfl⟩ fun ho => absurd ho (hc rfl)
  | next => exact of_same rfl rfl rfl id ⟨rfl, rfl⟩ id
  | abort => exact of_same rfl rfl rfl id ⟨rfl, rfl⟩ id

theorem releaseOrThrow {c : Cleaner} (hc : c = .opener → s.opening ≠ .resolved) :
    Effect s (s.releaseOrThrow c) := by
  rw [Cursor.releaseOrThrow]
  split
  · refine (release s).trans (cleaned ?_)
    have hsame : s.release.opening = s.opening := by
      rw [Cursor.release]
      split <;> rfl
    rw [hsame]
    exact hc
  · exact (cleaned hc).trans (of_same rfl rfl rfl id ⟨rfl, rfl⟩ id)

/-- The cursor is done, and its timers are cleared. -/
theorem finish (s : Cursor) (x : Bool) :
    Effect s { s with isErrored := x, state := .done }.clearTimers :=
  ⟨rfl, rfl, fun _ => rfl, id, fun hlone => .inl hlone.clearIdle⟩

theorem cleanup {c : Cleaner} (hc : c = .opener → s.opening ≠ .resolved) :
    Effect s (s.cleanup c) := by
  rw [Cursor.cleanup]
  split
  · split
    · exact (finish s true).trans (of_same rfl rfl rfl (fun _ => rfl) ⟨rfl, rfl⟩ id)
    · exact (finish s true).trans (send _ (fun h => by cases h))
  · exact (finish s true).trans (cleaned hc)

theorem abort (s : Cursor) : Effect s s.abort := by
  rw [Cursor.abort]
  split
  · exact of_same rfl rfl rfl id ⟨rfl, rfl⟩ id
  · exact cleanup (fun h => by cases h)

theorem close (s : Cursor) : Effect s s.close := by
  rw [Cursor.close]
  split
  · exact of_same rfl rfl rfl id ⟨rfl, rfl⟩ id
  · dsimp only
    split
    · exact (finish s s.isErrored).trans (send _ (fun h => by cases h))
    · exact (finish s s.isErrored).trans (release _)

theorem open' (h : Serving s) : Effect s s.open' := by
  rw [Cursor.open']
  split
  · exact of_same rfl rfl rfl id ⟨rfl, rfl⟩ id
  next hne =>
    rw [not_or, not_not] at hne
    have hnot := h.idle hne.2
    refine ⟨rfl, rfl, fun hd => (by cases hne.2.symm.trans hd), id,
      fun _ => .inr ⟨rfl, rfl, ?_, ?_⟩⟩
    · exact fun _ hd => by cases hd
    · exact fun ho => by cases hnot.symm.trans ho

theorem openNext (s : Cursor) (rest : List OpenStmt) : Effect s (s.openNext o rest) := by
  cases rest with
  | nil => exact of_same rfl rfl rfl id ⟨rfl, rfl⟩ fun _ => rfl
  | cons q rest => exact send s nofun

theorem acquired (h : s.opening = .acquiring) (rest : List OpenStmt) :
    Effect s (s.acquired rest) := by
  have hset : Effect s { s with isAcquired := true, hasLease := true, opening := .running } :=
    of_same rfl rfl rfl id ⟨rfl, rfl⟩ fun hres => nomatch h.symm.trans hres
  exact hset.trans (send _ nofun)

theorem acquireFailed (h : s.opening = .acquiring) : Effect s { s with opening := .rejected } :=
  of_same rfl rfl rfl id ⟨rfl, rfl⟩ fun hres => nomatch h.symm.trans hres

/-- A statement is answered that is no FETCH. -/
theorem answered (h : Serving s) {q : CursorStmt} {qs : List CursorStmt} (hw : s.wire = q :: qs)
    (hq : q ≠ .fetch) (a : Answer) : Effect s ({ s with wire := qs }.answered o q a) := by
  have hpop := pop hw hq s.inTransaction
  have hopener : q.isOpener = true → s.opening ≠ .resolved := by
    intro ho hres
    exact nomatch (h.opener_head hw ho).1.symm.trans hres
  cases q with
  | begin rest =>
    cases a with
    | failed => exact hpop.trans (cleanup fun _ => hopener rfl)
    | ok isShort => exact (pop hw hq true).trans (openNext _ rest)
  | opening q rest =>
    cases a with
    | failed => exact hpop.trans (cleanup fun _ => hopener rfl)
    | ok isShort => exact hpop.trans (openNext _ rest)
  | fetch => exact absurd rfl hq
  | close => cases a <;> exact hpop.trans (send _ nofun)
  | commit =>
    cases a with
    | ok isShort => exact (pop hw hq false).trans (release _)
    | failed => exact hpop.trans (send _ nofun)
  | closeRollback => cases a <;> exact (pop hw hq false).trans (release _)
  | rollback c =>
    have hc : c = .opener → s.opening ≠ .resolved := by
      rintro rfl
      exact hopener rfl
    cases a <;> exact (pop hw hq false).trans (releaseOrThrow hc)

end Effect

theorem cleanup_state (s : Cursor) (c : Cleaner) : (s.cleanup c).state = .done := by
  rw [Cursor.cleanup]
  split
  · split <;> rfl
  · cases c <;> rfl

theorem close_state (s : Cursor) : s.close.state = .done := by
  rw [Cursor.close]
  split
  next hdone => exact hdone
  next =>
    dsimp only
    split
    · rfl
    · rw [Cursor.release]
      split <;> rfl

/-! ### The order of the calls -/

namespace Call

/-- A call that has no answer yet. -/
def isPending (c : Call Row) : Bool := c.isWaiting || c.isFetching

/-- A call that waits for the end of the cursor. -/
def isEnding : Call Row → Bool
  | .closing _ | .failing => true
  | _ => false

/-- No row comes before those of an earlier call, and the last batch is the last. -/
structure Follows (a b : Call Row) : Prop where
  pending : a.isPending = true → b.rows = []
  waiting : a.isWaiting = true → b.isFetching = false
  closing : ∀ batch, a = .closing batch → b.rows = []

/-- A call is null only after all the rows; `rows` are those of the calls before. -/
def Nulls (all : List Row) : List Row → List (Call Row) → Prop
  | _, [] => True
  | rows, c :: calls => (c.isNull = true → rows = all) ∧ Nulls all (rows ++ c.rows) calls

variable {all rows : List Row} {calls before after : List (Call Row)} {a b : Call Row}

theorem nulls_append : Nulls all rows (before ++ after) ↔
    Nulls all rows before ∧ Nulls all (rows ++ before.flatMap Call.rows) after := by
  induction before generalizing rows with
  | nil => simp [Nulls]
  | cons c before ih =>
    rw [List.cons_append, Nulls, Nulls, ih, List.flatMap_cons, List.append_assoc, and_assoc]

theorem nulls_rowless (h : ∀ c ∈ calls, c.rows = []) :
    Nulls all rows calls ↔ ∀ c ∈ calls, c.isNull = true → rows = all := by
  induction calls with
  | nil => simp [Nulls]
  | cons c calls ih =>
    rw [Nulls, h c List.mem_cons_self, List.append_nil,
      ih fun c' hc' => h c' (List.mem_cons_of_mem _ hc'), List.forall_mem_cons]

theorem flatMap_rowless (h : ∀ c ∈ calls, c.rows = []) : calls.flatMap Call.rows = [] :=
  List.flatMap_eq_nil_iff.mpr h

/-- Another call in the place of one. -/
theorem pairwise_set (h : (before ++ a :: after).Pairwise Follows)
    (hbefore : ∀ c ∈ before, Follows c a → Follows c b)
    (hafter : ∀ c ∈ after, Follows a c → Follows b c) :
    (before ++ b :: after).Pairwise Follows := by
  rw [List.pairwise_append, List.pairwise_cons] at h ⊢
  obtain ⟨hb, ⟨ha, hrest⟩, hcross⟩ := h
  refine ⟨hb, ⟨fun c hc => hafter c hc (ha c hc), hrest⟩, fun c hc d hd => ?_⟩
  rcases List.mem_cons.mp hd with rfl | hd
  · exact hbefore c hc (hcross c hc a List.mem_cons_self)
  · exact hcross c hc d (List.mem_cons_of_mem _ hd)

/-- The calls after one that has no answer have no rows. -/
theorem rowless_after (h : (before ++ a :: after).Pairwise Follows) (ha : a.isPending = true) :
    ∀ c ∈ after, c.rows = [] := by
  rw [List.pairwise_append, List.pairwise_cons] at h
  exact fun c hc => (h.2.1.1 c hc).pending ha

/-- What has been delivered are the rows of the batches, but for a last one. -/
theorem delivered_prefix (h : calls.Pairwise Follows) :
    calls.flatMap Call.delivered <+: calls.flatMap Call.rows := by
  induction calls with
  | nil => exact List.prefix_rfl
  | cons c calls ih =>
    rw [List.pairwise_cons] at h
    rw [List.flatMap_cons, List.flatMap_cons]
    have hcases : c.delivered = c.rows ∨ ∃ batch, c = .closing batch := by
      rcases c with _ | _ | batch | _ | (batch | _ | _)
      case closing => exact .inr ⟨batch, rfl⟩
      all_goals exact .inl rfl
    rcases hcases with heq | ⟨batch, rfl⟩
    · rw [heq]
      exact (List.prefix_append_right_inj _).mpr (ih h.2)
    · have hnone : calls.flatMap Call.rows = [] :=
        flatMap_rowless fun c hc => (h.1 c hc).closing batch rfl
      have hnone' : calls.flatMap Call.delivered = [] := by
        have hle := ih h.2
        rw [hnone] at hle
        exact List.prefix_nil.mp hle
      rw [hnone']
      exact List.nil_prefix

end Call

/-! ### The rows -/

/-- The batches of the calls are the first rows, apart from those that were lost with the
connection. -/
structure Ordered (q : Query Row) (calls : List (Call Row)) (taken : Nat) (isEnded : Bool) :
    Prop where
  order : calls.Pairwise Call.Follows
  read : calls.flatMap Call.rows = q.rows.take taken ∨
    isEnded = true ∧ calls.flatMap Call.rows <+: q.rows
  nulls : Call.Nulls q.rows [] calls
  exhausted : ∀ batch, .closing batch ∈ calls → q.rows.length ≤ taken

namespace Ordered

variable {q : Query Row} {calls before after : List (Call Row)} {taken : Nat} {isEnded : Bool}
  {a b : Call Row}

theorem init (q : Query Row) : Ordered q [] 0 false :=
  ⟨.nil, .inl rfl, trivial, fun _ h => nomatch h⟩

theorem read_prefix (h : Ordered q calls taken isEnded) :
    calls.flatMap Call.rows <+: q.rows := by
  rcases h.read with heq | ⟨-, hle⟩
  · rw [heq]
    exact List.take_prefix _ _
  · exact hle

theorem read_all (h : Ordered q calls taken isEnded) (hall : q.rows.length ≤ taken)
    (hlive : isEnded = false) : calls.flatMap Call.rows = q.rows := by
  rcases h.read with heq | ⟨hended, -⟩
  · rw [heq, List.take_of_length_le hall]
  · exact nomatch hlive.symm.trans hended

/-- The connection ends, perhaps with rows on their way. -/
theorem ended (h : Ordered q calls taken isEnded) {taken' : Nat} (hle : taken ≤ taken') :
    Ordered q calls taken' true :=
  ⟨h.order, .inr ⟨rfl, h.read_prefix⟩, h.nulls, fun b hb => Nat.le_trans (h.exhausted b hb) hle⟩

theorem append (h : Ordered q calls taken isEnded) {c : Call Row} (hrows : c.rows = [])
    (hfetching : c.isFetching = false) (hclosing : ∀ batch, c ≠ .closing batch)
    (hnull : c.isNull = true → calls.flatMap Call.rows = q.rows) :
    Ordered q (calls ++ [c]) taken isEnded := by
  have hsame : (calls ++ [c]).flatMap Call.rows = calls.flatMap Call.rows := by
    rw [List.flatMap_append, List.flatMap_singleton, hrows, List.append_nil]
  refine ⟨?_, ?_, ?_, fun batch hb => ?_⟩
  · rw [List.pairwise_append]
    refine ⟨h.order, List.pairwise_singleton _ _, fun d _ e he => ?_⟩
    rw [List.mem_singleton.mp he]
    exact ⟨fun _ => hrows, fun _ => hfetching, fun _ _ => hrows⟩
  · rw [hsame]
    exact h.read
  · rw [Call.nulls_append]
    exact ⟨h.nulls, hnull, trivial⟩
  · rcases List.mem_append.mp hb with hb | hb
    · exact h.exhausted batch hb
    · exact absurd (List.mem_singleton.mp hb).symm (hclosing batch)

/-- A call goes on with the rows that it has. -/
theorem set (h : Ordered q (before ++ a :: after) taken isEnded) (hrows : b.rows = a.rows)
    (hpending : b.isPending = true → a.isPending = true)
    (hwaiting : b.isWaiting = true → a.isWaiting = true)
    (hfetching : b.isFetching = true → a.isFetching = true ∨ ∀ c ∈ before, c.isWaiting = false)
    (hclosing : ∀ batch, b = .closing batch → a = .closing batch)
    (hnull : b.isNull = true → a.isNull = true) :
    Ordered q (before ++ b :: after) taken isEnded := by
  have hsame : (before ++ b :: after).flatMap Call.rows =
      (before ++ a :: after).flatMap Call.rows := by
    rw [List.flatMap_append, List.flatMap_cons, hrows, List.flatMap_append, List.flatMap_cons]
  refine ⟨Call.pairwise_set h.order (fun c hc hca => ?_) (fun c _ hac => ?_), ?_, ?_,
    fun batch hb => ?_⟩
  · refine ⟨fun hp => hrows.trans (hca.pending hp), fun hw => ?_,
      fun batch heq => hrows.trans (hca.closing batch heq)⟩
    refine Bool.eq_false_iff.mpr fun hb => ?_
    rcases hfetching hb with ha | hno
    · exact nomatch (hca.waiting hw).symm.trans ha
    · exact nomatch (hno c hc).symm.trans hw
  · exact ⟨fun hp => hac.pending (hpending hp), fun hw => hac.waiting (hwaiting hw),
      fun batch heq => hac.closing batch (hclosing batch heq)⟩
  · rw [hsame]
    exact h.read
  · have hnulls := h.nulls
    rw [Call.nulls_append, Call.Nulls] at hnulls ⊢
    rw [hrows]
    exact ⟨hnulls.1, fun hb => hnulls.2.1 (hnull hb), hnulls.2.2⟩
  · rcases List.mem_append.mp hb with hb | hb
    · exact h.exhausted batch (List.mem_append_left _ hb)
    · rcases List.mem_cons.mp hb with heq | hb
      · refine h.exhausted batch (List.mem_append_right _ ?_)
        rw [hclosing batch heq.symm]
        exact List.mem_cons_self
      · exact h.exhausted batch (List.mem_append_right _ (List.mem_cons_of_mem _ hb))

/-- The first FETCH that has no answer gets the next rows. -/
theorem fetch (h : Ordered q (before ++ a :: after) taken isEnded) (ha : a.isFetching = true)
    (hfirst : ∀ c ∈ before, c.isFetching = false) (hlive : isEnded = false)
    {batch : List Row} (hbatch : batch = (q.rows.drop taken).take q.fetchSize)
    (hrows : b.rows = batch) (hpending : b.isPending = false)
    (hclosing : ∀ rows, b = .closing rows → batch.length < q.fetchSize)
    (hnull : b.isNull = true → batch = []) :
    Ordered q (before ++ b :: after) (taken + batch.length) isEnded := by
  have hpend : a.isPending = true := by
    rw [Call.isPending, ha, Bool.or_true]
  have harows : a.rows = [] := by
    cases a <;> first | rfl | cases ha
  have hafter := Call.rowless_after h.order hpend
  have hnone := Call.flatMap_rowless hafter
  have hread : before.flatMap Call.rows = q.rows.take taken := by
    rcases h.read with heq | ⟨hended, -⟩
    · rwa [List.flatMap_append, List.flatMap_cons, harows, hnone, List.append_nil,
        List.append_nil] at heq
    · exact nomatch hlive.symm.trans hended
  have hlength : batch.length = min q.fetchSize (q.rows.length - taken) := by
    rw [hbatch, List.length_take, List.length_drop]
  have hpos := q.fetchSize_pos
  have hempty : q.rows.length ≤ taken → batch = [] := by
    intro hle
    apply List.length_eq_zero_iff.mp
    omega
  have hall : batch = [] → before.flatMap Call.rows = q.rows := by
    intro hnil
    rw [hnil, List.length_nil] at hlength
    rw [hread, List.take_of_length_le (by omega)]
  have hbefore := (List.pairwise_append.mp h.order).2.2
  refine ⟨Call.pairwise_set h.order (fun c hc hca => ?_) (fun c hc _ => ?_), .inl ?_, ?_, ?_⟩
  · have hnot : c.isPending = false := by
      rw [Call.isPending, hfirst c hc, Bool.or_false]
      refine Bool.eq_false_iff.mpr fun hw => ?_
      exact nomatch ((hbefore c hc a List.mem_cons_self).waiting hw).symm.trans ha
    refine ⟨fun hp => (nomatch hnot.symm.trans hp), fun hw => ?_, ?_⟩
    · rw [Call.isPending, hw, Bool.true_or] at hnot
      cases hnot
    · rintro rows rfl
      rw [hrows]
      exact hempty (h.exhausted rows (List.mem_append_left _ hc))
  · refine ⟨fun hp => (nomatch hpending.symm.trans hp), fun hw => ?_, fun _ _ => hafter c hc⟩
    rw [Call.isPending, hw, Bool.true_or] at hpending
    cases hpending
  · have htake : batch = (q.rows.drop taken).take batch.length := by
      apply List.prefix_iff_eq_take.mp
      rw [hbatch]
      exact List.take_prefix _ _
    rw [List.flatMap_append, List.flatMap_cons, hnone, List.append_nil, hrows, hread, List.take_add,
      ← htake]
  · have hnulls := h.nulls
    rw [Call.nulls_append, Call.Nulls] at hnulls ⊢
    rw [List.nil_append, harows, List.append_nil, Call.nulls_rowless hafter] at hnulls
    rw [List.nil_append, hrows, Call.nulls_rowless hafter]
    refine ⟨hnulls.1, fun hb => hall (hnull hb), fun c hc hcnull => ?_⟩
    have hdone := hnulls.2.2 c hc hcnull
    have hlen := congrArg List.length (hread.symm.trans hdone)
    rw [List.length_take] at hlen
    rw [hempty (by omega), List.append_nil]
    exact hdone
  · intro rows hmem
    rcases List.mem_append.mp hmem with hmem | hmem
    · exact Nat.le_add_right_of_le (h.exhausted rows (List.mem_append_left _ hmem))
    · rcases List.mem_cons.mp hmem with heq | hmem
      · have hshort := hclosing rows heq.symm
        omega
      · exact Nat.le_add_right_of_le
          (h.exhausted rows (List.mem_append_right _ (List.mem_cons_of_mem _ hmem)))

end Ordered

/-! ### The invariant -/

/-- The timer of the last batch, if no call of `next()` has been made since. -/
structure Armed (s : Reader Row) (t : TimerId) : Prop where
  armed : s.cursor.timers.idleArmed = [t]
  timer : s.cursor.timers.idleTimer = some t
  since : s.cursor.waiting = 0 → s.lastNext ≤ s.armedAt t
  opening : s.cursor.opening = .resolved
  live : s.cursor.state ≠ .done
  calls : ∀ c ∈ s.calls, c.isWaiting = true ∨ c.isSettled = true

structure Reading (q : Query Row) (s : Reader Row) : Prop where
  serving : Serving s.cursor
  waiting : s.calls.countP Call.isWaiting = s.cursor.waiting
  fetches : s.calls.countP Call.isFetching = s.cursor.wire.count .fetch
  clock : s.lastNext ≤ s.now
  timers : s.cursor.timers.idleArmed = [] ∨ ∃ t, Armed s t
  aborts : ∀ p ∈ s.idleAborts, p.2 + q.options.idleTimeoutMs ≤ p.1
  ending : ∀ c ∈ s.calls, c.isEnding = true → s.cursor.state = .done
  ordered : Ordered q s.calls s.taken s.cursor.isEnded
  declared : s.isDeclared = true → s.cursor.inTransaction = true

/-- A full batch arrives while the cursor is not closed and no other FETCH of it is under way, if
its idle time is limited; `next()` is called on a closed cursor only when all rows were fetched; and
a batch that cannot be decoded arrives while `fetching` is set, or it is empty. -/
def IsOrderly (q : Query Row) (s : Reader Row) : ReaderEvent → Prop
  | .cursor (.answer (.ok false)) =>
    s.cursor.wire.head? = some .fetch → q.options.idleTimeoutMs > 0 →
      s.cursor.state ≠ .done ∧ s.calls.countP Call.isFetching = 1
  | .cursor .next =>
    s.cursor.state = .done → s.cursor.isErrored = false → q.rows.length ≤ s.taken
  | .fetchLost => s.cursor.fetching = true ∨ q.rows.length ≤ s.taken
  | _ => True

namespace Reading

variable {q : Query Row} {s : Reader Row}

theorem lone (h : Reading q s) : Lone s.cursor.timers := by
  rcases h.timers with hnone | ⟨t, ht⟩
  · exact .inl hnone
  · exact .inr ⟨t, ht.armed, ht.timer⟩

/-- The timers after a step that is none of a call. -/
theorem timers_effect (h : Reading q s) {cursor : Cursor} (heff : Effect s.cursor cursor)
    {s' : Reader Row} (hcursor : s'.cursor = cursor) (hcalls : ∀ c ∈ s'.calls, c ∈ s.calls ∨
      c.isSettled = true) (hnext : s'.lastNext = s.lastNext) (harmed : s'.armedAt = s.armedAt) :
    s'.cursor.timers.idleArmed = [] ∨ ∃ t, Armed s' t := by
  subst hcursor
  rcases heff.idle h.lone with hnone | ⟨hsame, htimer, hlive, hopening⟩
  · exact .inl hnone
  · rcases h.timers with hnone | ⟨t, ht⟩
    · exact .inl (hsame.trans hnone)
    · refine .inr ⟨t, hsame.trans ht.armed, htimer.trans ht.timer, fun hw => ?_,
        hopening ht.opening, hlive ht.live, fun c hc => ?_⟩
      · rw [hnext, harmed]
        exact ht.since (heff.waiting ▸ hw)
      · exact (hcalls c hc).elim (ht.calls c) .inr

theorem ordered_ended (h : Reading q s) {cursor : Cursor} (heff : Effect s.cursor cursor) :
    Ordered q s.calls s.taken cursor.isEnded := by
  cases he : s.cursor.isEnded with
  | true =>
    rw [heff.ended he, ← he]
    exact h.ordered
  | false =>
    cases cursor.isEnded with
    | true => exact h.ordered.ended (Nat.le_refl _)
    | false =>
      rw [← he]
      exact h.ordered

/-- A step that is none of a call. -/
theorem of_effect (h : Reading q s) {cursor : Cursor} (heff : Effect s.cursor cursor)
    (hserving : Serving cursor) {d : Bool} (hd : d = true → cursor.inTransaction = true) :
    Reading q { s with cursor := cursor, isDeclared := d } where
  serving := hserving
  waiting := h.waiting.trans heff.waiting.symm
  fetches := h.fetches.trans heff.fetches.symm
  clock := h.clock
  timers := h.timers_effect heff rfl (fun _ hc => .inl hc) rfl rfl
  aborts := h.aborts
  ending := fun c hc hend => heff.done (h.ending c hc hend)
  ordered := h.ordered_ended heff
  declared := hd

/-- A call that waits for the end of the cursor is settled. -/
theorem settle (h : Reading q s) {before after : List (Call Row)} {a b : Call Row}
    (hcalls : s.calls = before ++ a :: after) (ha : a.isEnding = true) (hb : b.isSettled = true)
    (hrows : b.rows = a.rows) (hnull : b.isNull = true → a.isNull = true) :
    Reading q { s with calls := before ++ b :: after } := by
  have hnot : a.isWaiting = false ∧ a.isFetching = false := by
    cases a <;> first | exact ⟨rfl, rfl⟩ | cases ha
  have hnot' : b.isWaiting = false ∧ b.isFetching = false ∧ b.isEnding = false := by
    cases b <;> first | exact ⟨rfl, rfl, rfl⟩ | cases hb
  have hwaiting := h.waiting
  have hfetches := h.fetches
  have hordered := h.ordered
  rw [hcalls] at hwaiting hfetches hordered
  have hmem : ∀ c ∈ before ++ b :: after, c ∈ s.calls ∨ c = b := by
    intro c hc
    rw [hcalls]
    rcases List.mem_append.mp hc with hc | hc
    · exact .inl (List.mem_append_left _ hc)
    · rcases List.mem_cons.mp hc with rfl | hc
      · exact .inr rfl
      · exact .inl (List.mem_append_right _ (List.mem_cons_of_mem _ hc))
  refine ⟨h.serving, ?_, ?_, h.clock, ?_, h.aborts, ?_, ?_, h.declared⟩
  · show (before ++ b :: after).countP Call.isWaiting = _
    rw [← hwaiting, List.countP_append, List.countP_cons, List.countP_append, List.countP_cons,
      hnot.1, hnot'.1]
  · show (before ++ b :: after).countP Call.isFetching = _
    rw [← hfetches, List.countP_append, List.countP_cons, List.countP_append, List.countP_cons,
      hnot.2, hnot'.2.1]
  · refine h.timers_effect (Effect.of_same rfl rfl rfl id ⟨rfl, rfl⟩ id) rfl ?_ rfl rfl
    exact fun c hc => (hmem c hc).imp_right fun heq : c = b => heq ▸ hb
  · intro c hc hend
    rcases hmem c hc with hc | rfl
    · exact h.ending c hc hend
    · exact nomatch hnot'.2.2.symm.trans hend
  · refine hordered.set hrows (fun hp => ?_) (fun hw => ?_) (fun hf => ?_) (fun batch heq => ?_)
      hnull
    · rw [Call.isPending, hnot'.1, hnot'.2.1] at hp
      cases hp
    · exact nomatch hnot'.1.symm.trans hw
    · exact nomatch hnot'.2.1.symm.trans hf
    · rw [heq] at hb
      cases hb

/-- `close()` is over. -/
theorem closed (h : Reading q s) : Reading q { s with
    calls := s.calls.replaceF fun
      | .closing batch => some (.settled (Reader.ofBatch batch))
      | _ => none } := by
  rcases List.exists_or_eq_self_of_replaceF (fun c : Call Row => match c with
      | .closing batch => some (.settled (Reader.ofBatch batch))
      | _ => none) s.calls with heq | ⟨a, b, before, after, -, hab, hcalls, heq⟩
  · rw [heq]
    exact h
  · rw [heq]
    cases a with
    | closing batch =>
      cases hab
      refine h.settle hcalls rfl rfl ?_ ?_
      · cases batch <;> rfl
      · cases batch with
        | nil => exact id
        | cons row batch => exact fun hnull => nomatch hnull
    | _ => cases hab

/-- `cleanup()` is over. -/
theorem cleaned (h : Reading q s) : Reading q { s with
    calls := s.calls.replaceF fun
      | .failing => some (.settled .thrown)
      | _ => none } := by
  rcases List.exists_or_eq_self_of_replaceF (fun c : Call Row => match c with
      | .failing => some (.settled .thrown)
      | _ => none) s.calls with heq | ⟨a, b, before, after, -, hab, hcalls, heq⟩
  · rw [heq]
    exact h
  · rw [heq]
    cases a with
    | failing =>
      cases hab
      exact h.settle hcalls rfl rfl rfl fun hnull => nomatch hnull
    | _ => cases hab

theorem not_armed (h : Reading q s) (hno : ∀ t, ¬Armed s t) :
    s.cursor.timers.idleArmed = [] :=
  h.timers.resolve_right fun ⟨t, ht⟩ => hno t ht

/-- The calls after one is changed. -/
theorem mem_set {calls before after : List (Call Row)} {a b c : Call Row}
    (hcalls : calls = before ++ a :: after) (hc : c ∈ before ++ b :: after) :
    c ∈ calls ∨ c = b := by
  rw [hcalls]
  rcases List.mem_append.mp hc with hc | hc
  · exact .inl (List.mem_append_left _ hc)
  · rcases List.mem_cons.mp hc with rfl | hc
    · exact .inr rfl
    · exact .inl (List.mem_append_right _ (List.mem_cons_of_mem _ hc))

/-- A call of `next()`. -/
theorem next (h : Reading q s)
    (hok : s.cursor.state = .done → s.cursor.isErrored = false → q.rows.length ≤ s.taken)
    {d : Bool} (hd : d = true → s.cursor.next.inTransaction = true) :
    Reading q { s with
      cursor := s.cursor.next, isDeclared := d, calls := s.calls ++ [s.called]
      lastNext := s.now } := by
  by_cases hover : s.cursor.isErrored = true ∨ s.cursor.state = .done
  · have hdone : s.cursor.state = .done := hover.elim h.serving.errored id
    have hcursor : s.cursor.next = s.cursor := by rw [Cursor.next, if_pos hover]
    have hcalled : s.called = .settled .thrown ∨
        s.called = .settled .null ∧ s.cursor.isErrored = false := by
      rw [Reader.called]
      split
      · exact .inl rfl
      next hlive => exact .inr ⟨rfl, Bool.eq_false_iff.mpr hlive⟩
    have hsettled : s.called.isWaiting = false ∧ s.called.isFetching = false ∧
        s.called.isEnding = false ∧ s.called.rows = [] ∧ ∀ batch, s.called ≠ .closing batch := by
      rcases hcalled with hc | ⟨hc, -⟩ <;> rw [hc] <;> exact ⟨rfl, rfl, rfl, rfl, fun _ h => by cases h⟩
    rw [hcursor] at hd ⊢
    refine ⟨h.serving, ?_, ?_, Nat.le_refl _, .inl (h.not_armed fun t ht => ht.live hdone),
      h.aborts,
      fun c _ _ => hdone, ?_, hd⟩
    · show (s.calls ++ [s.called]).countP Call.isWaiting = _
      rw [List.countP_append, List.countP_singleton, hsettled.1]
      exact h.waiting
    · show (s.calls ++ [s.called]).countP Call.isFetching = _
      rw [List.countP_append, List.countP_singleton, hsettled.2.1]
      exact h.fetches
    · refine h.ordered.append hsettled.2.2.2.1 hsettled.2.1 hsettled.2.2.2.2 fun hnull => ?_
      rcases hcalled with hc | ⟨-, hlive⟩
      · rw [hc] at hnull
        cases hnull
      · apply h.ordered.read_all (hok hdone hlive)
        refine Bool.eq_false_iff.mpr fun he => ?_
        cases hlive.symm.trans (h.serving.ended he).1
  · have hcalled : s.called = .waiting := by
      rw [not_or] at hover
      rw [Reader.called, if_neg hover.1, if_neg hover.2]
    have hcursor : s.cursor.next = { s.cursor.open' with waiting := s.cursor.waiting + 1 } := by
      rw [Cursor.next, if_neg hover]
    have heff := Effect.open' h.serving
    rw [hcursor] at hd ⊢
    rw [hcalled]
    refine ⟨h.serving.open'.set _ _ _ _ _, ?_, ?_, Nat.le_refl _, ?_, h.aborts, fun c hc hend => ?_,
      (h.ordered_ended heff).append rfl rfl (fun _ h => by cases h)
        (fun h => by cases h), hd⟩
    · show (s.calls ++ [Call.waiting]).countP Call.isWaiting = _
      rw [List.countP_append, h.waiting]
      rfl
    · show (s.calls ++ [Call.waiting]).countP Call.isFetching = _
      rw [List.countP_append]
      exact h.fetches.trans heff.fetches.symm
    · rcases heff.idle h.lone with hnone | ⟨hsame, htimer, hlive, hopening⟩
      · exact .inl hnone
      · rcases h.timers with hnone | ⟨t, ht⟩
        · exact .inl (hsame.trans hnone)
        · refine .inr ⟨t, hsame.trans ht.armed, htimer.trans ht.timer, (fun h => by cases h), hopening ht.opening,
            hlive ht.live, fun c hc => ?_⟩
          rcases List.mem_append.mp hc with hc | hc
          · exact ht.calls c hc
          · rw [List.mem_singleton.mp hc]
            exact .inl rfl
    · rcases List.mem_append.mp hc with hc | hc
      · exact heff.done (h.ending c hc hend)
      · rw [List.mem_singleton.mp hc] at hend
        cases hend

/-- A call that waited for `opening`, and how it goes on. -/
theorem resume_call (h : Reading q s) {before after : List (Call Row)} {b : Call Row}
    (hcalls : s.calls = before ++ .waiting :: after) (hfirst : ∀ c ∈ before, c.isWaiting = false)
    (hb : b = .fetching ∨ b = .settled .thrown) {cursor : Cursor} (hserving : Serving cursor)
    (hwaiting : cursor.waiting = s.cursor.waiting - 1)
    (hfetches : cursor.wire.count .fetch =
      s.cursor.wire.count .fetch + if b.isFetching then 1 else 0)
    (hdone : s.cursor.state = .done → cursor.state = .done)
    (hended : s.cursor.isEnded = true → cursor.isEnded = true)
    (hidle : cursor.timers.idleArmed = []) {d : Bool}
    (hd : d = true → cursor.inTransaction = true) :
    Reading q { s with cursor := cursor, isDeclared := d, calls := before ++ b :: after } := by
  have hplain : b.isWaiting = false ∧ b.isEnding = false ∧ b.rows = [] ∧ b.isNull = false ∧
      ∀ batch, b ≠ .closing batch := by
    rcases hb with rfl | rfl <;> exact ⟨rfl, rfl, rfl, rfl, nofun⟩
  have hwas := h.waiting
  have hwas' := h.fetches
  have hordered := h.ordered
  rw [hcalls] at hwas hwas' hordered
  rw [List.countP_append, List.countP_cons] at hwas hwas'
  simp only [Call.isWaiting, Call.isFetching, if_true, Bool.false_eq_true, if_false] at hwas hwas'
  refine ⟨hserving, ?_, ?_, h.clock, .inl hidle, h.aborts, fun c hc hend => ?_, ?_, hd⟩
  · show (before ++ b :: after).countP Call.isWaiting = cursor.waiting
    rw [List.countP_append, List.countP_cons, hplain.1, hwaiting, ← hwas]
    simp only [Bool.false_eq_true, if_false]
    omega
  · show (before ++ b :: after).countP Call.isFetching = cursor.wire.count .fetch
    rw [List.countP_append, List.countP_cons, hfetches, ← hwas']
    omega
  · rcases mem_set hcalls hc with hc | rfl
    · exact hdone (h.ending c hc hend)
    · exact nomatch hplain.2.1.symm.trans hend
  · have hset : Ordered q (before ++ b :: after) s.taken s.cursor.isEnded := by
      refine hordered.set hplain.2.2.1 (fun _ => rfl) (fun _ => rfl) (fun _ => .inr hfirst) ?_ ?_
      · exact fun batch heq => absurd heq (hplain.2.2.2.2 batch)
      · exact fun hnull => nomatch hplain.2.2.2.1.symm.trans hnull
    cases he : cursor.isEnded with
    | true => exact hset.ended (Nat.le_refl _)
    | false =>
      have hlive : s.cursor.isEnded = false :=
        Bool.eq_false_iff.mpr fun hs => nomatch he.symm.trans (hended hs)
      rw [← hlive]
      exact hset

/-- A call goes on after `opening`. -/
theorem resume (h : Reading q s) (hwait : 0 < s.cursor.waiting)
    (hset : s.cursor.opening = .resolved ∨ s.cursor.opening = .rejected)
    {d : Bool} (hd : d = true → s.cursor.resume.inTransaction = true) :
    Reading q { s with
      cursor := s.cursor.resume
      isDeclared := d
      calls := s.calls.replaceF fun
        | .waiting => some s.resumed
        | _ => none } := by
  obtain ⟨c, hc, hcw⟩ : ∃ c ∈ s.calls, c.isWaiting = true := by
    apply List.countP_pos_iff.mp
    rw [h.waiting]
    exact hwait
  obtain rfl : c = .waiting := by
    cases c <;> first | rfl | cases hcw
  obtain ⟨a, b, before, after, hnone, hab, hcalls, heq⟩ :=
    List.exists_of_replaceF (p := fun c : Call Row => match c with
      | .waiting => some s.resumed
      | _ => none) hc rfl
  rw [heq]
  cases a with
  | waiting =>
    obtain rfl : s.resumed = b := Option.some.inj hab
    have hfirst : ∀ c ∈ before, c.isWaiting = false := by
      intro c hc
      have hc' := hnone c hc
      cases c <;> first | rfl | cases hc'
    by_cases hover : s.cursor.opening = .rejected ∨ s.cursor.isErrored = true
    · have hresumed : s.resumed = .settled .thrown := by
        rw [Reader.resumed, if_pos]
        rw [Reader.isErroredOrRejected, Bool.or_eq_true, decide_eq_true_eq]
        exact hover.symm
      have hcursor : s.cursor.resume = { s.cursor with waiting := s.cursor.waiting - 1 } :=
        if_pos hover
      rw [hcursor] at hd ⊢
      refine h.resume_call hcalls hfirst (.inr hresumed) (h.serving.set _ _ _ _ _) rfl ?_ id id ?_
        hd
      · rw [hresumed]
        rfl
      · refine h.not_armed fun t ht => ?_
        rcases hover with hr | he
        · cases ht.opening.symm.trans hr
        · exact ht.live (h.serving.errored he)
    · have hres : s.cursor.opening = .resolved := hset.resolve_right fun hr => hover (.inl hr)
      have hnot : s.isErroredOrRejected = false := by
        rw [not_or] at hover
        rw [Reader.isErroredOrRejected, Bool.or_eq_false_iff, decide_eq_false_iff_not]
        exact ⟨Bool.eq_false_iff.mpr hover.2, hover.1⟩
      have hclear : Lone s.cursor.timers.clearIdle := .inl h.lone.clearIdle
      cases hl : s.cursor.hasLease with
      | true =>
        have hresumed : s.resumed = .fetching := by
          rw [Reader.resumed, hnot, hl]
          rfl
        have hcursor : s.cursor.resume = { s.cursor with
            waiting := s.cursor.waiting - 1
            timers := s.cursor.timers.clearIdle
            fetching := true }.send .fetch := by
          rw [Cursor.resume, if_neg hover, if_pos hl]
        have hserving := h.serving.resume hset
        rw [hcursor] at hd hserving ⊢
        refine h.resume_call hcalls hfirst (.inl hresumed) hserving rfl ?_ id id
          h.lone.clearIdle hd
        rw [hresumed]
        show (s.cursor.wire ++ [CursorStmt.fetch]).count CursorStmt.fetch = _
        rw [List.count_append]
        rfl
      | false =>
        have hresumed : s.resumed = .settled .thrown := by
          rw [Reader.resumed, hnot, hl]
          rfl
        have hcursor : s.cursor.resume = { s.cursor with
            waiting := s.cursor.waiting - 1
            timers := s.cursor.timers.clearIdle
            fetching := true }.cleanup .next := by
          rw [Cursor.resume, if_neg hover, if_neg (Bool.eq_false_iff.mp hl)]
        have hserving := h.serving.resume hset
        have heff := Effect.cleanup (s := { s.cursor with
            waiting := s.cursor.waiting - 1
            timers := s.cursor.timers.clearIdle
            fetching := true }) (c := .next) (fun h => by cases h)
        rw [hcursor] at hd hserving ⊢
        refine h.resume_call hcalls hfirst (.inr hresumed) hserving heff.waiting ?_ heff.done
          heff.ended ?_ hd
        · rw [hresumed]
          exact heff.fetches
        · rcases heff.idle hclear with hnone | ⟨hsame, -⟩
          · exact hnone
          · exact hsame.trans h.lone.clearIdle
  | _ => cases hab

/-- The first call whose FETCH has no answer. -/
theorem first_fetching (h : Reading q s) {stmts : List CursorStmt}
    (hw : s.cursor.wire = .fetch :: stmts) (b : Call Row) :
    ∃ before after, (∀ c ∈ before, c.isFetching = false) ∧ s.calls = before ++ .fetching :: after ∧
      (s.calls.replaceF fun
        | .fetching => some b
        | _ => none) = before ++ b :: after := by
  obtain ⟨c, hc, hcf⟩ : ∃ c ∈ s.calls, c.isFetching = true := by
    apply List.countP_pos_iff.mp
    rw [h.fetches, hw, List.count_cons_self]
    omega
  obtain rfl : c = .fetching := by
    cases c <;> first | rfl | cases hcf
  obtain ⟨a, b', before, after, hnone, hab, hcalls, heq⟩ :=
    List.exists_of_replaceF (p := fun c : Call Row => match c with
      | .fetching => some b
      | _ => none) hc rfl
  cases a with
  | fetching =>
    obtain rfl : b = b' := Option.some.inj hab
    refine ⟨before, after, fun c hc => ?_, hcalls, heq⟩
    have hc' := hnone c hc
    cases c <;> first | rfl | cases hc'
  | _ => cases hab

/-- No timer is armed while a FETCH is under way. -/
theorem idle_fetching (h : Reading q s) {before after : List (Call Row)}
    (hcalls : s.calls = before ++ .fetching :: after) : s.cursor.timers.idleArmed = [] := by
  refine h.not_armed fun t ht => ?_
  have hmem : Call.fetching ∈ s.calls := by
    rw [hcalls]
    exact List.mem_append_right _ List.mem_cons_self
  rcases ht.calls _ hmem with hc | hc <;> cases hc

/-- A call whose FETCH is answered. -/
theorem fetch_call (h : Reading q s) {before after : List (Call Row)} {b : Call Row}
    {stmts : List CursorStmt} (hw : s.cursor.wire = .fetch :: stmts)
    (hcalls : s.calls = before ++ .fetching :: after)
    (hb : b.isPending = false) {cursor : Cursor} (hserving : Serving cursor)
    (hwaiting : cursor.waiting = s.cursor.waiting)
    (hfetches : cursor.wire.count .fetch = stmts.count .fetch)
    (hdone : s.cursor.state = .done → cursor.state = .done)
    (hending : b.isEnding = true → cursor.state = .done)
    {taken : Nat} {armedAt : TimerId → Nat}
    (hordered : Ordered q (before ++ b :: after) taken cursor.isEnded)
    {d : Bool} (hd : d = true → cursor.inTransaction = true)
    (htimers : cursor.timers.idleArmed = [] ∨ ∃ t, Armed { s with
      cursor := cursor, isDeclared := d, calls := before ++ b :: after
      taken := taken, armedAt := armedAt } t) :
    Reading q { s with
      cursor := cursor, isDeclared := d, calls := before ++ b :: after
      taken := taken, armedAt := armedAt } := by
  have hnot : b.isWaiting = false ∧ b.isFetching = false := by
    rwa [Call.isPending, Bool.or_eq_false_iff] at hb
  have hwas := h.waiting
  have hwas' := h.fetches
  rw [hcalls, List.countP_append, List.countP_cons] at hwas hwas'
  rw [hw, List.count_cons_self] at hwas'
  simp only [Call.isWaiting, Call.isFetching, if_true, Bool.false_eq_true, if_false] at hwas hwas'
  refine ⟨hserving, ?_, ?_, h.clock, htimers, h.aborts, fun c hc hend => ?_, hordered, hd⟩
  · show (before ++ b :: after).countP Call.isWaiting = cursor.waiting
    rw [List.countP_append, List.countP_cons, hnot.1, hwaiting, ← hwas]
    rfl
  · show (before ++ b :: after).countP Call.isFetching = cursor.wire.count .fetch
    rw [List.countP_append, List.countP_cons, hnot.2, hfetches]
    simp only [Bool.false_eq_true, if_false]
    omega
  · rcases mem_set hcalls hc with hc | rfl
    · exact hdone (h.ending c hc hend)
    · exact hending hend

/-- A FETCH is rejected, perhaps after its rows were taken. -/
theorem fetchFailed (h : Reading q s) {stmts : List CursorStmt}
    (hw : s.cursor.wire = .fetch :: stmts) {cursor : Cursor}
    (hcursor : cursor = { s.cursor with wire := stmts }.cleanup .next) {taken : Nat}
    (htaken : taken = s.taken ∨ s.taken ≤ taken ∧ cursor.isEnded = true)
    {d : Bool} (hd : d = true → cursor.inTransaction = true) :
    Reading q { s with
      cursor := cursor
      isDeclared := d
      calls := s.calls.replaceF fun
        | .fetching => some s.failed
        | _ => none
      taken := taken } := by
  obtain ⟨before, after, -, hcalls, heq⟩ := h.first_fetching hw s.failed
  have hpop : Serving { s.cursor with wire := stmts } := h.serving.pop hw
  have heff := Effect.cleanup (s := { s.cursor with wire := stmts }) (c := .next) nofun
  rw [← hcursor] at heff
  have hfailed : s.failed = .failing ∨ s.failed = .settled .thrown := by
    rw [Reader.failed]
    split
    · exact .inl rfl
    · exact .inr rfl
  have hplain : s.failed.isPending = false ∧ s.failed.rows = [] ∧ s.failed.isNull = false ∧
      ∀ batch, s.failed ≠ .closing batch := by
    rcases hfailed with hf | hf <;> rw [hf] <;> exact ⟨rfl, rfl, rfl, nofun⟩
  have hset : Ordered q (before ++ s.failed :: after) s.taken s.cursor.isEnded := by
    have hordered := h.ordered
    rw [hcalls] at hordered
    refine hordered.set hplain.2.1 (fun _ => rfl) (fun hw => ?_) (fun hf => .inl rfl) ?_ ?_
    · have hnot := hplain.1
      rw [Call.isPending, hw, Bool.true_or] at hnot
      cases hnot
    · exact fun batch heq => absurd heq (hplain.2.2.2 batch)
    · exact fun hnull => nomatch hplain.2.2.1.symm.trans hnull
  rw [heq]
  have hserving : Serving cursor := hcursor ▸ hpop.cleanup nofun
  refine h.fetch_call hw hcalls hplain.1 hserving heff.waiting heff.fetches heff.done ?_ ?_ hd ?_
  · exact fun _ => hcursor ▸ cleanup_state _ _
  · rcases htaken with rfl | ⟨hle, hended⟩
    · cases he : cursor.isEnded with
      | true => exact hset.ended (Nat.le_refl _)
      | false =>
        have hlive : s.cursor.isEnded = false :=
          Bool.eq_false_iff.mpr fun hs => nomatch he.symm.trans (heff.ended hs)
        rw [← hlive]
        exact hset
    · rw [hended]
      exact hset.ended hle
  · left
    have hnone := h.idle_fetching hcalls
    rcases heff.idle (.inl hnone) with hnone' | ⟨hsame, -⟩
    · exact hnone'
    · exact hsame.trans hnone

/-- What a call makes of its batch. -/
theorem fetched_cases (isShort : Bool) :
    (isShort = true ∧ s.fetched q isShort = .closing (s.batch q)) ∨
      s.fetched q isShort = .settled (Reader.ofBatch (s.batch q)) := by
  rw [Reader.fetched]
  split
  next hboth => exact .inl ⟨(Bool.and_eq_true_iff.mp hboth).1, rfl⟩
  next => exact .inr rfl

/-- A FETCH is executed. -/
theorem fetchOk (h : Reading q s) {stmts : List CursorStmt}
    (hw : s.cursor.wire = .fetch :: stmts) (hlive : s.cursor.isEnded = false) {isShort : Bool}
    (hshort : isShort = decide ((s.batch q).length < q.fetchSize))
    (hok : isShort = false → q.options.idleTimeoutMs > 0 →
      s.cursor.state ≠ .done ∧ s.calls.countP Call.isFetching = 1)
    {cursor : Cursor}
    (hcursor : cursor = { s.cursor with wire := stmts }.answered q.options .fetch (.ok isShort))
    {d : Bool} (hd : d = true → cursor.inTransaction = true) (hserving : Serving cursor) :
    Reading q { s with
      cursor := cursor
      isDeclared := d
      calls := s.calls.replaceF fun
        | .fetching => some (s.fetched q isShort)
        | _ => none
      taken := s.taken + (s.batch q).length
      armedAt := Function.update s.armedAt s.cursor.timers.nextTimer s.now } := by
  obtain ⟨before, after, hfirst, hcalls, heq⟩ := h.first_fetching hw (s.fetched q isShort)
  have hnone := h.idle_fetching hcalls
  have hrows : (s.fetched q isShort).rows = s.batch q := by
    rcases fetched_cases (s := s) (q := q) isShort with ⟨-, hf⟩ | hf
    · rw [hf]
      rfl
    · rw [hf]
      cases s.batch q <;> rfl
  have hplain : (s.fetched q isShort).isPending = false := by
    rcases fetched_cases (s := s) (q := q) isShort with ⟨-, hf⟩ | hf <;> rw [hf] <;> rfl
  have hset : Ordered q (before ++ s.fetched q isShort :: after) (s.taken + (s.batch q).length)
      s.cursor.isEnded := by
    have hordered := h.ordered
    rw [hcalls] at hordered
    refine hordered.fetch rfl hfirst hlive rfl hrows hplain (fun rows heq' => ?_) fun hnull => ?_
    · rcases fetched_cases (s := s) (q := q) isShort with ⟨hs, -⟩ | hf
      · exact of_decide_eq_true (hshort ▸ hs)
      · exact nomatch hf.symm.trans heq'
    · rw [← hrows]
      cases hf : s.fetched q isShort with
      | closing rows =>
        rw [hf] at hnull
        cases rows <;> first | rfl | cases hnull
      | settled r =>
        rw [hf] at hnull
        cases r <;> first | rfl | cases hnull
      | _ => rfl
  have hordered : ∀ isEnded, Ordered q (before ++ s.fetched q isShort :: after)
      (s.taken + (s.batch q).length) isEnded := by
    intro isEnded
    cases isEnded with
    | true => exact hset.ended (Nat.le_refl _)
    | false =>
      rw [hlive] at hset
      exact hset
  rw [heq]
  cases isShort with
  | true =>
    have hclose : cursor = { s.cursor with wire := stmts, fetching := false }.close := hcursor
    have heff := Effect.close { s.cursor with wire := stmts, fetching := false }
    rw [← hclose] at heff
    refine h.fetch_call hw hcalls hplain hserving heff.waiting heff.fetches heff.done ?_
      (hordered _) hd (.inl ?_)
    · exact fun _ => hclose ▸ close_state _
    · rcases heff.idle (.inl hnone) with hnone' | ⟨hsame, -⟩
      · exact hnone'
      · exact hsame.trans hnone
  | false =>
    have hsettled : (s.fetched q false).isSettled = true := by
      rcases fetched_cases (s := s) (q := q) false with ⟨hs, -⟩ | hf
      · cases hs
      · rw [hf]
        rfl
    have hnot : (s.fetched q false).isEnding = false := by
      cases hf : s.fetched q false <;> first | rfl | (rw [hf] at hsettled; cases hsettled)
    by_cases hidle : q.options.idleTimeoutMs > 0
    · obtain ⟨hstate, hsole⟩ := hok rfl hidle
      have harm : cursor = { s.cursor with
          wire := stmts, fetching := false, timers := s.cursor.timers.armIdle } := by
        rw [hcursor]
        exact if_pos hidle
      subst harm
      refine h.fetch_call hw hcalls hplain hserving rfl rfl id
        (fun hend => nomatch hnot.symm.trans hend) (hordered _) hd (.inr ?_)
      refine ⟨s.cursor.timers.nextTimer, ?_, rfl, fun _ => ?_, ?_, hstate, fun c hc => ?_⟩
      · show _ :: s.cursor.timers.idleArmed = _
        rw [hnone]
      · show s.lastNext ≤ Function.update s.armedAt s.cursor.timers.nextTimer s.now
          s.cursor.timers.nextTimer
        rw [Function.update_self]
        exact h.clock
      · exact h.serving.fetched (.inr (.inl (hw ▸ List.mem_cons_self)))
      · rw [hcalls, List.countP_append, List.countP_cons] at hsole
        simp only [Call.isFetching, if_true] at hsole
        have hbefore := List.countP_eq_zero.mp (show before.countP Call.isFetching = 0 by omega)
        have hafter := List.countP_eq_zero.mp (show after.countP Call.isFetching = 0 by omega)
        have hrest : ∀ c ∈ s.calls, ¬c.isFetching = true →
            c.isWaiting = true ∨ c.isSettled = true := by
          intro c hc hf
          have hend : ¬c.isEnding = true := fun hend => hstate (h.ending c hc hend)
          cases c <;> first | exact .inl rfl | exact .inr rfl | exact absurd rfl hf |
            exact absurd rfl hend
        rcases List.mem_append.mp hc with hc | hc
        · exact hrest c (hcalls ▸ List.mem_append_left _ hc) (hbefore c hc)
        · rcases List.mem_cons.mp hc with rfl | hc
          · exact .inr hsettled
          · exact hrest c (hcalls ▸ List.mem_append_right _ (List.mem_cons_of_mem _ hc))
              (hafter c hc)
    · have hkeep : cursor = { s.cursor with wire := stmts, fetching := false } := by
        rw [hcursor]
        exact if_neg hidle
      subst hkeep
      exact h.fetch_call hw hcalls hplain hserving rfl rfl id
        (fun hend => nomatch hnot.symm.trans hend) (hordered _) hd (.inl hnone)

/-- The idle timer fires. -/
theorem idleFires (h : Reading q s) {t : TimerId} (ht : t ∈ s.cursor.timers.idleArmed)
    (hquiet : s.isQuiet = true) (hdue : s.armedAt t + q.options.idleTimeoutMs ≤ s.now)
    {cursor : Cursor} (hcursor : cursor = s.cursor.step q.options (.idleFires t))
    (hserving : Serving cursor) {d : Bool} (hd : d = true → cursor.inTransaction = true) :
    Reading q { s.track q (.idleFires t) with cursor := cursor, isDeclared := d } := by
  obtain ⟨t', harmed⟩ : ∃ t', Armed s t' := by
    refine h.timers.resolve_left fun hnone => ?_
    rw [hnone] at ht
    cases ht
  obtain rfl : t = t' := by
    have hmem := harmed.armed ▸ ht
    exact List.mem_singleton.mp hmem
  have hwait : s.cursor.waiting = 0 := by
    have hq := hquiet
    rw [Reader.isQuiet, harmed.opening] at hq
    simpa using hq
  have hlive : ¬(s.cursor.state = .done ∨ s.cursor.isErrored = true) := by
    rintro (hd | he)
    · exact harmed.live hd
    · exact harmed.live (h.serving.errored he)
  have htrack : s.track q (.idleFires t) =
      { s with idleAborts := s.idleAborts ++ [(s.now, s.lastNext)] } := if_neg hlive
  have hfired : (s.cursor.timers.idleArmed.erase t) = [] := by
    rw [harmed.armed]
    simp
  have heff := Effect.abort { s.cursor with
    timers := { s.cursor.timers with idleArmed := s.cursor.timers.idleArmed.erase t } }
  rw [show Cursor.abort _ = cursor from hcursor.symm] at heff
  rw [htrack]
  refine ⟨hserving, h.waiting.trans heff.waiting.symm, h.fetches.trans heff.fetches.symm, h.clock,
    .inl ?_, fun p hp => ?_, fun c hc hend => heff.done (h.ending c hc hend), ?_, hd⟩
  · rcases heff.idle (.inl hfired) with hnone | ⟨hsame, -⟩
    · exact hnone
    · exact hsame.trans hfired
  · rcases List.mem_append.mp hp with hp | hp
    · exact h.aborts p hp
    · rw [List.mem_singleton.mp hp]
      have hsince := harmed.since hwait
      exact Nat.le_trans (Nat.add_le_add_right hsince _) hdue
  · cases he : s.cursor.isEnded with
    | true =>
      have hordered := h.ordered
      rw [he] at hordered
      rw [show cursor.isEnded = true from heff.ended he]
      exact hordered
    | false =>
      have hordered := h.ordered
      cases cursor.isEnded with
      | true => exact hordered.ended (Nat.le_refl _)
      | false =>
        rw [he] at hordered
        exact hordered

/-- The answer to a statement. -/
theorem onAnswer (h : Reading q s) {a : Answer} (he : s.cursor.enabled (.answer a) = true)
    (hallows : s.allows q (.answer a) = true) (hok : IsOrderly q s (.cursor (.answer a))) :
    Reading q (s.onCursor q (.answer a)) := by
  have hserving : Serving (s.cursor.step q.options (.answer a)) := h.serving.step he
  have hd : ∀ b : Bool, (b && (s.cursor.step q.options (.answer a)).inTransaction) = true →
      (s.cursor.step q.options (.answer a)).inTransaction = true :=
    fun b hb => (Bool.and_eq_true_iff.mp hb).2
  cases hw : s.cursor.wire with
  | nil =>
    have hno : s.cursor.canAnswer a = true := he
    cases a <;> simp [canAnswer, hw] at hno
  | cons stmt stmts =>
    have hcursor : s.cursor.step q.options (.answer a) =
        { s.cursor with wire := stmts }.answered q.options stmt a := by
      simp only [Cursor.step, hw]
    have htrack : s.track q (.answer a) = s.answered q stmt a := by
      simp only [Reader.track, hw]
    rw [Reader.onCursor, htrack]
    by_cases hfetch : stmt = .fetch
    · subst hfetch
      cases a with
      | ok isShort =>
        have hlive : s.cursor.isEnded = false := by
          simp only [Cursor.enabled, canAnswer, hw, List.isEmpty_cons, Bool.not_false,
            Bool.true_and, Bool.not_eq_true'] at he
          exact he
        simp only [Reader.allows, hw, Bool.and_eq_true, decide_eq_true_eq] at hallows
        refine h.fetchOk hw hlive hallows.2 (fun hfull hidle => ?_) hcursor (hd _) hserving
        subst hfull
        exact hok (by rw [hw]; rfl) hidle
      | failed => exact h.fetchFailed hw hcursor (.inl rfl) (hd _)
    · have heff := Effect.answered (o := q.options) h.serving hw hfetch a
      rw [← hcursor] at heff
      have hsame : ∀ {s' : Reader Row}, Reading q s' → s'.cursor = s.cursor →
          Reading q { s' with
            cursor := s.cursor.step q.options (.answer a)
            isDeclared := s'.isDeclared &&
              (s.cursor.step q.options (.answer a)).inTransaction } := by
        intro s' hs' hc
        exact hs'.of_effect (hc ▸ heff) hserving (hd _)
      have hplain : Reading q { s with
          cursor := s.cursor.step q.options (.answer a)
          isDeclared := s.isDeclared && (s.cursor.step q.options (.answer a)).inTransaction } :=
        hsame h rfl
      have hdeclared : ∀ b : Bool, Reading q { s with
          cursor := s.cursor.step q.options (.answer a)
          isDeclared := b && (s.cursor.step q.options (.answer a)).inTransaction } :=
        fun b => h.of_effect heff hserving (hd b)
      cases stmt with
      | begin rest => cases a <;> exact hplain
      | opening stmt rest =>
        cases a with
        | failed => cases stmt <;> exact hplain
        | ok isShort =>
          cases stmt with
          | declare => exact hdeclared true
          | _ => exact hplain
      | fetch => exact absurd rfl hfetch
      | close =>
        cases a with
        | ok isShort => exact hdeclared false
        | failed => exact hplain
      | commit =>
        cases a with
        | ok isShort => exact hsame h.closed rfl
        | failed => exact hplain
      | closeRollback => cases a <;> exact hsame h.closed rfl
      | rollback c =>
        cases c with
        | next => cases a <;> exact hsame h.cleaned rfl
        | _ => cases a <;> exact hplain

/-- An event of the cursor. -/
theorem onCursor (h : Reading q s) {e : CursorEvent} (he : s.cursor.enabled e = true)
    (hallows : s.allows q e = true) (hok : IsOrderly q s (.cursor e)) :
    Reading q (s.onCursor q e) := by
  have hserving : Serving (s.cursor.step q.options e) := h.serving.step he
  have hd : ∀ b : Bool, (b && (s.cursor.step q.options e).inTransaction) = true →
      (s.cursor.step q.options e).inTransaction = true :=
    fun b hb => (Bool.and_eq_true_iff.mp hb).2
  cases e with
  | open' => exact h.of_effect (Effect.open' h.serving) hserving (hd _)
  | next => exact h.next hok (hd _)
  | close => exact h.of_effect (Effect.close _) hserving (hd _)
  | acquired =>
    have ho : s.cursor.opening = .acquiring := by simpa [Cursor.enabled] using he
    exact h.of_effect (Effect.acquired ho _) hserving (hd _)
  | acquireFailed =>
    have ho : s.cursor.opening = .acquiring := by simpa [Cursor.enabled] using he
    exact h.of_effect (Effect.acquireFailed ho) hserving (hd _)
  | resumed =>
    simp only [Cursor.enabled, Bool.and_eq_true, decide_eq_true_eq, Bool.or_eq_true, beq_iff_eq]
      at he
    exact h.resume he.1 he.2 (hd _)
  | answer a => exact h.onAnswer he hallows hok
  | ended c =>
    have hc : c ∈ s.cursor.ends := by simpa [Cursor.enabled] using he
    have hopener := (h.serving.ending (List.ne_nil_of_mem hc)).2
    have heff : Effect s.cursor (s.cursor.step q.options (.ended c)) := by
      have hends : Effect s.cursor { s.cursor with ends := s.cursor.ends.erase c } :=
        .of_same rfl rfl rfl id ⟨rfl, rfl⟩ id
      refine hends.trans (Effect.releaseOrThrow ?_)
      rintro rfl
      exact absurd hc hopener
    cases c with
    | next => exact h.cleaned.of_effect heff hserving (hd _)
    | _ => exact h.of_effect heff hserving (hd _)
  | lost =>
    have heff : Effect s.cursor { s.cursor with inTransaction := false } :=
      .of_same rfl rfl rfl id ⟨rfl, rfl⟩ id
    exact h.of_effect heff hserving (hd _)
  | idleFires t =>
    simp only [Reader.allows, Bool.and_eq_true, decide_eq_true_eq] at hallows
    simp only [Cursor.enabled, List.contains_eq_mem, decide_eq_true_eq] at he
    exact h.idleFires he hallows.1 hallows.2 rfl hserving (hd _)
  | deadlineFires =>
    have heff : Effect s.cursor { s.cursor with
        timers := { s.cursor.timers with deadline := false } } :=
      .of_same rfl rfl rfl id ⟨rfl, rfl⟩ id
    exact h.of_effect (heff.trans (Effect.abort _)) hserving (hd _)

/-- The rows of a FETCH are lost. -/
theorem fetchLost (h : Reading q s) (he : s.enabled q .fetchLost = true)
    (hok : s.cursor.fetching = true ∨ q.rows.length ≤ s.taken) :
    Reading q (s.step q .fetchLost) := by
  simp only [Reader.enabled, Bool.and_eq_true, decide_eq_true_eq, Bool.not_eq_true'] at he
  obtain ⟨⟨hhead, hdeclared⟩, hlive⟩ := he
  obtain ⟨stmts, hw⟩ : ∃ stmts, s.cursor.wire = .fetch :: stmts := by
    cases hw : s.cursor.wire with
    | nil =>
      rw [hw] at hhead
      cases hhead
    | cons stmt stmts =>
      rw [hw] at hhead
      cases hhead
      exact ⟨stmts, rfl⟩
  have hl : s.cursor.hasLease = true := h.serving.transaction (h.declared hdeclared)
  have hcursor : s.cursor.step q.options (.answer .failed) =
      { s.cursor with wire := stmts }.cleanup .next := by
    simp only [Cursor.step, hw]
    rfl
  have htrack : s.track q (.answer .failed) = s.answered q .fetch .failed := by
    simp only [Reader.track, hw]
  show Reading q { s.onCursor q (.answer .failed) with taken := s.taken + (s.batch q).length }
  rw [Reader.onCursor, htrack]
  refine h.fetchFailed hw hcursor ?_ fun hb => (Bool.and_eq_true_iff.mp hb).2
  rcases hok with hf | hle
  · right
    refine ⟨Nat.le_add_right _ _, ?_⟩
    rw [hcursor, Cursor.cleanup, if_pos, if_pos]
    · rfl
    · exact hf
    · exact hl
  · left
    have hnil : s.batch q = [] := by
      rw [Reader.batch, List.drop_eq_nil_of_le hle, List.take_nil]
    rw [hnil]
    rfl

theorem step (h : Reading q s) {e : ReaderEvent} (he : s.enabled q e = true)
    (hok : IsOrderly q s e) : Reading q (s.step q e) := by
  cases e with
  | cursor e =>
    rw [Reader.enabled, Bool.and_eq_true] at he
    exact h.onCursor he.1 he.2 hok
  | tick ms =>
    refine ⟨h.serving, h.waiting, h.fetches, Nat.le_add_right_of_le h.clock, ?_, h.aborts, h.ending,
      h.ordered, h.declared⟩
    exact h.timers.imp_right fun ⟨t, ht⟩ =>
      ⟨t, ht.armed, ht.timer, ht.since, ht.opening, ht.live, ht.calls⟩
  | fetchLost => exact h.fetchLost he hok

theorem init (q : Query Row) : Reading q {} where
  serving := .init
  waiting := rfl
  fetches := rfl
  clock := Nat.le_refl _
  timers := .inl rfl
  aborts := fun _ hp => nomatch hp
  ending := fun _ hc => nomatch hc
  ordered := .init q
  declared := fun hd => nomatch hd

theorem guarded (h : Reading q s) : Guarded q s := by
  refine ⟨?_, fun hne => ?_, fun hne hquiet c hc => ?_, h.aborts, ?_, fun before after hcalls => ?_⟩
  · rcases h.timers with hnone | ⟨t, ht⟩
    · rw [hnone]
      exact Nat.zero_le _
    · rw [ht.armed]
      exact Nat.le_refl _
  · obtain ⟨t, ht⟩ := h.timers.resolve_left hne
    exact ht.live
  · obtain ⟨t, ht⟩ := h.timers.resolve_left hne
    refine (ht.calls c hc).resolve_left fun hw => ?_
    have hzero : s.cursor.waiting = 0 := by
      rw [Reader.isQuiet, ht.opening] at hquiet
      simpa using hquiet
    exact List.countP_eq_zero.mp (h.waiting.trans hzero) c hc hw
  · exact (Call.delivered_prefix h.ordered.order).trans h.ordered.read_prefix
  · have hnulls := h.ordered.nulls
    rw [hcalls, Call.nulls_append] at hnulls
    exact hnulls.2.1 rfl

end Reading

/-- **The idle guard is exact and the rows are delivered in order**, in every state of every run in
which a full batch arrives while the cursor is open and no other FETCH is under way, and `next()` is
called on a closed cursor only when all rows were fetched. -/
theorem reads_exactly (q : Query Row) : ∀ s, (Reader.machine q).Reach (IsOrderly q) (· = {}) s →
    Guarded q s := by
  intro s h
  have hreading : Reading q s := by
    refine h.invariant ?_ fun s e hs he hok => hs.step he hok
    rintro s rfl
    exact .init q
  exact hreading.guarded

/-! ### Two runs -/

instance (q : Query Row) (s : Reader Row) (e : ReaderEvent) : Decidable (IsOrderly q s e) := by
  unfold IsOrderly
  split <;> infer_instance

/-- Five rows, of which a FETCH brings two. -/
def five : Query Nat where
  rows := [1, 2, 3, 4, 5]
  fetchSize := 2
  fetchSize_pos := by decide

def opens : List ReaderEvent :=
  [.cursor .acquired, .cursor (.answer (.ok false)), .cursor (.answer (.ok false)),
    .cursor (.answer (.ok false))]

/-- Batches one after the other, and a last call. -/
def inTurn : List ReaderEvent :=
  .cursor .next :: opens ++ [.cursor .resumed, .cursor (.answer (.ok false)), .tick 1000,
    .cursor .next, .cursor .resumed, .cursor (.answer (.ok false)), .cursor .next, .cursor .resumed,
    .cursor (.answer (.ok true)), .cursor (.answer (.ok false)), .cursor (.answer (.ok false)),
    .cursor .next]

theorem reads_exactly_inTurn : Guarded five ((Reader.machine five).exec {} inTurn) :=
  have hruns : (Reader.machine five).Runs (IsOrderly five) {} inTurn := by decide +kernel
  have hstart : (Reader.machine five).Reach (IsOrderly five) (· = {}) {} := .start rfl
  reads_exactly five _ (hstart.exec hruns)

/-- Two calls at once: each full batch arms a timer, and only the second can be cleared. -/
def atOnce : List ReaderEvent :=
  .cursor .next :: .cursor .next :: opens ++ [.cursor .resumed, .cursor .resumed,
    .cursor (.answer (.ok false)), .cursor (.answer (.ok false))]

theorem timers_leak : ¬ ∀ (q : Query Nat) (s : Reader Nat),
    (Reader.machine q).Reach Machine.Free (· = {}) s → Guarded q s := by
  intro h
  have hruns : (Reader.machine five).Runs Machine.Free {} atOnce := by decide +kernel
  have hstart : (Reader.machine five).Reach Machine.Free (· = {}) {} := .start rfl
  have hsingle := (h five _ (hstart.exec hruns)).single
  exact absurd hsingle (by decide +kernel)

end Minipg.Cursor
