import Mathlib.Data.List.Basic

/-!
# Transaction blocks

A session of an SQL server, as far as transactions are concerned.  Statements outside a block
commit on their own.  BEGIN opens a block; a statement that fails makes the block a failed one,
which refuses everything but its end and ROLLBACK TO; COMMIT of a failed block rolls it back and
is no error.  BEGIN inside a block, and COMMIT or ROLLBACK outside one, are warnings only.  A
session that is lost aborts its block.

The effects of a statement are known by its number.  `breaks` says that a statement fails for
a reason of its own; ROLLBACK and ROLLBACK TO have none.  `ended` remembers the blocks that are
over, by the statement that opened them, and whether they were committed.
-/

universe u

namespace Blocks

inductive Command
  | begin
  | commit
  | rollback
  | savepoint (name : String)
  | release (name : String)
  | rollbackTo (name : String)
  | work
  deriving DecidableEq, Repr

/-- Whether the command opens or ends a block. -/
def Command.isControl : Command → Bool
  | .begin | .commit | .rollback => true
  | _ => false

/-- The transaction status that the server reports after a statement. -/
inductive TxStatus
  | idle
  | active
  | failed
  deriving DecidableEq, Repr

variable {ι : Type u}

structure Block (ι : Type u) where
  opener : ι
  isFailed : Bool := false
  effects : List ι := []
  points : List (String × List ι) := []
  deriving DecidableEq, Repr

structure Backend (ι : Type u) where
  block : Option (Block ι) := none
  durable : List ι := []
  ended : List (ι × Bool) := []
  deriving DecidableEq, Repr

/-- The latest savepoint of that name: the effects before it, and the savepoints below it. -/
def find (n : String) : List (String × List ι) → Option (List ι × List (String × List ι))
  | [] => none
  | (m, es) :: ps => if m = n then some (es, ps) else find n ps

@[simp] theorem find_cons_self (n : String) (es : List ι) (ps : List (String × List ι)) :
    find n ((n, es) :: ps) = some (es, ps) := if_pos rfl

namespace Backend

variable (s : Backend ι) (b : Block ι) (i : ι)

def status : TxStatus :=
  match s.block with
  | none => .idle
  | some b => if b.isFailed then .failed else .active

def setBlock : Backend ι := { s with block := some b }

/-- The statement fails, and the block with it. -/
def fail : Bool × Backend ι := (false, s.setBlock { b with isFailed := true })

def finish (isCommitted : Bool) : Backend ι := { s with
  block := none
  durable := if isCommitted then s.durable ++ b.effects else s.durable
  ended := s.ended ++ [(b.opener, isCommitted)] }

/-- A statement outside a block. -/
def alone (breaks : Bool) : Command → Bool × Backend ι
  | .begin => if breaks then (false, s) else (true, s.setBlock { opener := i })
  | .commit | .rollback => (true, s)
  | .savepoint _ | .release _ | .rollbackTo _ => (false, s)
  | .work => if breaks then (false, s) else (true, { s with durable := s.durable ++ [i] })

/-- A statement in a block that has not failed. -/
def within (breaks : Bool) : Command → Bool × Backend ι
  | .begin => if breaks then s.fail b else (true, s)
  | .commit => (!breaks, s.finish b !breaks)
  | .rollback => (true, s.finish b false)
  | .savepoint n =>
    if breaks then s.fail b
    else (true, s.setBlock { b with points := (n, b.effects) :: b.points })
  | .release n =>
    match find n b.points with
    | none => s.fail b
    | some (_, ps) => if breaks then s.fail b else (true, s.setBlock { b with points := ps })
  | .rollbackTo n =>
    match find n b.points with
    | none => s.fail b
    | some (es, ps) => (true, s.setBlock { b with effects := es, points := (n, es) :: ps })
  | .work =>
    if breaks then s.fail b else (true, s.setBlock { b with effects := b.effects ++ [i] })

/-- A statement in a failed block. -/
def afterFailure : Command → Bool × Backend ι
  | .commit | .rollback => (true, s.finish b false)
  | .rollbackTo n =>
    match find n b.points with
    | none => (false, s)
    | some (es, ps) =>
      (true, s.setBlock { b with isFailed := false, effects := es, points := (n, es) :: ps })
  | _ => (false, s)

/-- Whether the statement succeeds, and the session after it. -/
def exec (c : Command) (breaks : Bool) : Bool × Backend ι :=
  match s.block with
  | none => s.alone i breaks c
  | some b => if b.isFailed then s.afterFailure b c else s.within b i breaks c

/-- The connection to the client is lost. -/
def lose : Backend ι :=
  match s.block with
  | none => s
  | some b => s.finish b false

variable {s b i} {c : Command} {breaks : Bool}

theorem exec_alone (h : s.block = none) : s.exec i c breaks = s.alone i breaks c := by
  unfold exec
  rw [h]

theorem exec_within (h : s.block = some b) (hf : b.isFailed = false) :
    s.exec i c breaks = s.within b i breaks c := by
  unfold exec
  rw [h]
  simp only [hf, Bool.false_eq_true, if_false]

theorem exec_afterFailure (h : s.block = some b) (hf : b.isFailed = true) :
    s.exec i c breaks = s.afterFailure b c := by
  unfold exec
  rw [h]
  simp only [hf, if_true]

@[simp] theorem setBlock_block : (s.setBlock b).block = some b := rfl
@[simp] theorem setBlock_durable : (s.setBlock b).durable = s.durable := rfl
@[simp] theorem setBlock_ended : (s.setBlock b).ended = s.ended := rfl
@[simp] theorem setBlock_setBlock {b' : Block ι} : (s.setBlock b).setBlock b' = s.setBlock b' := rfl
@[simp] theorem finish_block {x : Bool} : (s.finish b x).block = none := rfl
@[simp] theorem setBlock_finish {b' : Block ι} {x : Bool} :
    (s.setBlock b').finish b x = s.finish b x := rfl

/-! ### What a statement does to the block -/

variable (s) in
/-- The statement that opened the block the session is in. -/
def opener : Option ι := s.block.map (·.opener)

@[simp] theorem opener_setBlock : (s.setBlock b).opener = some b.opener := rfl
@[simp] theorem opener_finish {x : Bool} : (s.finish b x).opener = none := rfl

theorem opener_of_block (h : s.block = some b) : s.opener = some b.opener := by
  unfold opener
  rw [h]
  rfl

theorem opener_eq_none : s.opener = none ↔ s.block = none := Option.map_eq_none_iff

/-- A session that is lost leaves no block. -/
theorem lose_opener : s.lose.opener = none := by
  unfold lose
  split
  · rename_i h
    exact opener_eq_none.mpr h
  · rfl

/-- A statement that neither opens nor ends a block leaves it where it is. -/
theorem exec_keeps (hc : c.isControl = false) :
    (s.exec i c breaks).2.opener = s.opener ∧ (s.exec i c breaks).2.ended = s.ended := by
  cases hb : s.block with
  | none =>
    rw [exec_alone hb]
    cases c with
    | begin | commit | rollback => cases hc
    | savepoint _ | release _ | rollbackTo _ => exact ⟨rfl, rfl⟩
    | work => cases breaks <;> exact ⟨rfl, rfl⟩
  | some b =>
    rw [opener_of_block hb]
    cases hf : b.isFailed with
    | false =>
      rw [exec_within hb hf]
      cases c with
      | begin | commit | rollback => cases hc
      | savepoint _ | work => cases breaks <;> exact ⟨rfl, rfl⟩
      | release n =>
        simp only [within]
        split
        · exact ⟨rfl, rfl⟩
        · split <;> exact ⟨rfl, rfl⟩
      | rollbackTo n =>
        simp only [within]
        split <;> exact ⟨rfl, rfl⟩
    | true =>
      rw [exec_afterFailure hb hf]
      cases c with
      | begin | commit | rollback => cases hc
      | savepoint _ | release _ | work => exact ⟨opener_of_block hb, rfl⟩
      | rollbackTo n =>
        simp only [afterFailure]
        split
        · exact ⟨opener_of_block hb, rfl⟩
        · exact ⟨rfl, rfl⟩

/-- Only the statement itself can be the opener of a new block. -/
theorem exec_opener : (s.exec i c breaks).2.opener = s.opener ∨
    (s.exec i c breaks).2.opener = none ∨ (s.exec i c breaks).2.opener = some i := by
  cases hc : c.isControl with
  | false => exact .inl (exec_keeps hc).1
  | true =>
    cases hb : s.block with
    | none =>
      rw [exec_alone hb]
      cases c with
      | commit | rollback => exact .inl rfl
      | begin =>
        cases breaks with
        | false => exact .inr (.inr rfl)
        | true => exact .inl rfl
      | savepoint _ | release _ | rollbackTo _ | work => cases hc
    | some b =>
      cases hf : b.isFailed with
      | false =>
        rw [exec_within hb hf]
        cases c with
        | commit | rollback => exact .inr (.inl rfl)
        | begin =>
          cases breaks with
          | false => exact .inl rfl
          | true => exact .inl (opener_of_block hb).symm
        | savepoint _ | release _ | rollbackTo _ | work => cases hc
      | true =>
        rw [exec_afterFailure hb hf]
        cases c with
        | commit | rollback => exact .inr (.inl rfl)
        | begin => exact .inl rfl
        | savepoint _ | release _ | rollbackTo _ | work => cases hc

/-- After COMMIT or ROLLBACK no block is open, whatever the answer is. -/
theorem exec_ends (hc : c = .commit ∨ c = .rollback) : (s.exec i c breaks).2.opener = none := by
  cases hb : s.block with
  | none =>
    rw [exec_alone hb]
    obtain rfl | rfl := hc <;> exact opener_eq_none.mpr hb
  | some b =>
    cases hf : b.isFailed with
    | false =>
      rw [exec_within hb hf]
      obtain rfl | rfl := hc <;> rfl
    | true =>
      rw [exec_afterFailure hb hf]
      obtain rfl | rfl := hc <;> rfl

/-- A BEGIN that fails opens nothing. -/
theorem exec_begin_fails (h : (s.exec i .begin breaks).1 = false) :
    (s.exec i .begin breaks).2.opener = s.opener := by
  cases hb : s.block with
  | none =>
    rw [exec_alone hb] at h ⊢
    cases breaks with
    | false => cases h
    | true => rfl
  | some b =>
    cases hf : b.isFailed with
    | false =>
      rw [exec_within hb hf] at h ⊢
      cases breaks with
      | false => cases h
      | true => exact (opener_of_block hb).symm
    | true =>
      rw [exec_afterFailure hb hf]
      rfl

theorem exec_begin (h : s.block = none) :
    s.exec i .begin breaks = if breaks then (false, s) else (true, s.setBlock { opener := i }) := by
  rw [exec_alone h]
  rfl

theorem exec_begin_ended : (s.exec i .begin breaks).2.ended = s.ended := by
  cases hb : s.block with
  | none =>
    rw [exec_alone hb]
    cases breaks <;> rfl
  | some b =>
    cases hf : b.isFailed with
    | false =>
      rw [exec_within hb hf]
      cases breaks <;> rfl
    | true =>
      rw [exec_afterFailure hb hf]
      rfl

/-! ### What is committed -/

variable {j : ι}

theorem mem_finish_ended {x : Bool} :
    (j, true) ∈ (s.finish b x).ended ↔ (j, true) ∈ s.ended ∨ j = b.opener ∧ x = true := by
  simp [finish, eq_comm]

/-- Only the block that is open can end. -/
theorem mem_exec_ended {y : ι × Bool} (hy : y ∈ (s.exec i c breaks).2.ended) :
    y ∈ s.ended ∨ s.opener = some y.1 := by
  have hfin : ∀ {b : Block ι} {x : Bool}, s.block = some b → y ∈ (s.finish b x).ended →
      y ∈ s.ended ∨ s.opener = some y.1 := by
    intro b x hb hy
    rcases List.mem_append.mp hy with hy | hy
    · exact .inl hy
    · rw [List.mem_singleton.mp hy]
      exact .inr (opener_of_block hb)
  cases hc : c.isControl with
  | false => exact .inl ((exec_keeps hc).2 ▸ hy)
  | true =>
    cases c with
    | savepoint _ | release _ | rollbackTo _ | work => cases hc
    | begin => exact .inl (exec_begin_ended ▸ hy)
    | commit | rollback =>
      cases hb : s.block with
      | none =>
        rw [exec_alone hb] at hy
        exact .inl hy
      | some b =>
        cases hf : b.isFailed with
        | false =>
          rw [exec_within hb hf] at hy
          exact hfin hb hy
        | true =>
          rw [exec_afterFailure hb hf] at hy
          exact hfin hb hy

theorem mem_lose_ended {y : ι × Bool} (hy : y ∈ s.lose.ended) :
    y ∈ s.ended ∨ s.opener = some y.1 := by
  unfold lose at hy
  split at hy
  · exact .inl hy
  · rename_i b hb
    rcases List.mem_append.mp hy with hy | hy
    · exact .inl hy
    · rw [List.mem_singleton.mp hy]
      exact .inr (opener_of_block hb)

theorem lose_committed : (j, true) ∈ s.lose.ended ↔ (j, true) ∈ s.ended := by
  unfold lose
  split
  · exact Iff.rfl
  · rw [mem_finish_ended]
    simp

theorem exec_rollback_committed :
    (j, true) ∈ (s.exec i .rollback breaks).2.ended ↔ (j, true) ∈ s.ended := by
  have hback : ∀ b : Block ι, (j, true) ∈ (s.finish b false).ended ↔ (j, true) ∈ s.ended := by
    intro b
    rw [mem_finish_ended]
    simp
  cases hb : s.block with
  | none =>
    rw [exec_alone hb]
    exact Iff.rfl
  | some b =>
    cases hf : b.isFailed with
    | false =>
      rw [exec_within hb hf]
      exact hback b
    | true =>
      rw [exec_afterFailure hb hf]
      exact hback b

/-- COMMIT of a block that has not failed commits it, if it succeeds. -/
theorem exec_commit_committed (ho : s.opener = some j) (hf : s.status ≠ .failed) :
    (j, true) ∈ (s.exec i .commit breaks).2.ended ↔
      (j, true) ∈ s.ended ∨ (s.exec i .commit breaks).1 = true := by
  cases hb : s.block with
  | none => exact nomatch (opener_eq_none.mpr hb).symm.trans ho
  | some b =>
    obtain rfl : b.opener = j := Option.some.inj ((opener_of_block hb).symm.trans ho)
    have hbf : b.isFailed = false := by
      cases hbf : b.isFailed with
      | false => rfl
      | true => exact absurd (by unfold status; simp [hb, hbf]) hf
    rw [exec_within hb hbf]
    simp only [within, mem_finish_ended, true_and]

/-! ### Where the effects come from -/

/-- `P i w` says that statement `i` was executed in the block that `w` opened, or outside a block.
Every effect comes from such a statement, and what is durable from one outside a block or from a
block that was committed. -/
structure Sourced (s : Backend ι) (P : ι → Option ι → Prop) : Prop where
  durable : ∀ i ∈ s.durable, P i none ∨ ∃ b, (b, true) ∈ s.ended ∧ P i (some b)
  effects : ∀ b, s.block = some b → ∀ i ∈ b.effects, P i (some b.opener)
  points : ∀ b, s.block = some b → ∀ x ∈ b.points, ∀ i ∈ x.2, P i (some b.opener)

theorem mem_of_find {n : String} {ps qs : List (String × List ι)} {es : List ι}
    (h : find n ps = some (es, qs)) : (n, es) ∈ ps ∧ ∀ x ∈ qs, x ∈ ps := by
  induction ps with
  | nil => cases h
  | cons p ps ih =>
    obtain ⟨m, es'⟩ := p
    rw [find] at h
    split at h
    · rename_i hm
      obtain ⟨rfl, rfl⟩ := Prod.mk.inj (Option.some.inj h)
      exact ⟨hm ▸ List.mem_cons_self, fun x hx => List.mem_cons_of_mem _ hx⟩
    · obtain ⟨hmem, hsub⟩ := ih h
      exact ⟨List.mem_cons_of_mem _ hmem, fun x hx => List.mem_cons_of_mem _ (hsub x hx)⟩

namespace Sourced

variable {P P' : ι → Option ι → Prop}

theorem mono (h : Sourced s P) (hP : ∀ i w, P i w → P' i w) : Sourced s P' where
  durable i hi := (h.durable i hi).imp (hP i none) fun ⟨b, hb, hp⟩ => ⟨b, hb, hP i _ hp⟩
  effects b hb i hi := hP i _ (h.effects b hb i hi)
  points b hb x hx i hi := hP i _ (h.points b hb x hx i hi)

theorem setBlock (h : Sourced s P) {b' : Block ι} (he : ∀ i ∈ b'.effects, P i (some b'.opener))
    (hp : ∀ x ∈ b'.points, ∀ i ∈ x.2, P i (some b'.opener)) : Sourced (s.setBlock b') P where
  durable := h.durable
  effects := by
    rintro b hb
    obtain rfl : b' = b := Option.some.inj hb
    exact he
  points := by
    rintro b hb
    obtain rfl : b' = b := Option.some.inj hb
    exact hp

theorem finish (h : Sourced s P) (hb : s.block = some b) (x : Bool) : Sourced (s.finish b x) P where
  durable i hi := by
    have hold : i ∈ s.durable → P i none ∨ ∃ d, (d, true) ∈ (s.finish b x).ended ∧ P i (some d) :=
      fun hi => (h.durable i hi).imp_right fun ⟨d, hd, hp⟩ => ⟨d, List.mem_append_left _ hd, hp⟩
    cases x with
    | false => exact hold hi
    | true =>
      rcases List.mem_append.mp hi with hi | hi
      · exact hold hi
      · exact .inr ⟨b.opener, List.mem_append_right _ List.mem_cons_self, h.effects b hb i hi⟩
  effects _ hn := nomatch hn
  points _ hn := nomatch hn

theorem lose (h : Sourced s P) : Sourced s.lose P := by
  unfold Backend.lose
  split
  · exact h
  · exact h.finish (by assumption) false

/-- A statement is the source of its own effect. -/
theorem exec (h : Sourced s P) (hi : P i s.opener) : Sourced (s.exec i c breaks).2 P := by
  cases hb : s.block with
  | none =>
    rw [opener_eq_none.mpr hb] at hi
    rw [exec_alone hb]
    cases c with
    | commit | rollback | savepoint _ | release _ | rollbackTo _ => exact h
    | begin =>
      cases breaks with
      | true => exact h
      | false => exact h.setBlock (fun _ hj => nomatch hj) (fun _ hx => nomatch hx)
    | work =>
      cases breaks with
      | true => exact h
      | false =>
        refine ⟨fun j hj => ?_, h.effects, h.points⟩
        rcases List.mem_append.mp hj with hj | hj
        · exact h.durable j hj
        · exact .inl (List.mem_singleton.mp hj ▸ hi)
  | some b =>
    rw [opener_of_block hb] at hi
    have hfail : Sourced (s.fail b).2 P := h.setBlock (h.effects b hb) (h.points b hb)
    have hback : ∀ {n es ps f}, find n b.points = some (es, ps) → Sourced (s.setBlock
        { b with isFailed := f, effects := es, points := (n, es) :: ps }) P := by
      intro n es ps f hf
      obtain ⟨hmem, hsub⟩ := mem_of_find hf
      refine h.setBlock (h.points b hb _ hmem) (fun x hx => ?_)
      rcases List.mem_cons.mp hx with rfl | hx
      · exact h.points b hb _ hmem
      · exact h.points b hb x (hsub x hx)
    cases hf : b.isFailed with
    | false =>
      rw [exec_within hb hf]
      cases c with
      | commit => exact h.finish hb _
      | rollback => exact h.finish hb false
      | begin => cases breaks with
        | true => exact hfail
        | false => exact h
      | savepoint n => cases breaks with
        | true => exact hfail
        | false =>
          refine h.setBlock (h.effects b hb) (fun x hx => ?_)
          rcases List.mem_cons.mp hx with rfl | hx
          · exact h.effects b hb
          · exact h.points b hb x hx
      | work => cases breaks with
        | true => exact hfail
        | false =>
          refine h.setBlock (fun j hj => ?_) (h.points b hb)
          rcases List.mem_append.mp hj with hj | hj
          · exact h.effects b hb j hj
          · exact List.mem_singleton.mp hj ▸ hi
      | release n =>
        simp only [within]
        split
        · exact hfail
        · rename_i hfind
          split
          · exact hfail
          · exact h.setBlock (h.effects b hb) (fun x hx => h.points b hb x ((mem_of_find hfind).2 x hx))
      | rollbackTo n =>
        simp only [within]
        split
        · exact hfail
        · exact hback (by assumption)
    | true =>
      rw [exec_afterFailure hb hf]
      cases c with
      | commit | rollback => exact h.finish hb false
      | begin | savepoint _ | release _ | work => exact h
      | rollbackTo n =>
        simp only [afterFailure]
        split
        · exact h
        · exact hback (by assumption)

end Sourced

end Backend

end Blocks
