import Minipg.Decode.Rows

/-!
# Compiled and interpreted rows

In object mode the two mappers build the same row: the generated literal evaluates, part by part,
to what the interpreter assembles (`body_eval`).  In array mode the interpreter ignores Collect
and Transform, and they agree exactly on the cells that no transform changes
(`mappers_agree_iff`).
-/

namespace Minipg.Rows

variable {V ε : Type} {X xforms : List (Xform V ε)} {vals : List (Cell V)}

/-! ### Parts of a literal -/

theorem litKey_put (obj : Props V) (k : String) (v : RowValue V) :
    (litKey k).put obj v = setKey obj k v := by
  unfold litKey setKey
  split
  · rfl
  · rfl

theorem append_eval (qs : JsParts) : ∀ (ps : JsParts) (obj : Props V),
    (ps.append qs).eval X vals obj =
      match ps.eval X vals obj with
      | .ok obj => qs.eval X vals obj
      | .error e => .error e
  | .nil, _ => rfl
  | .cons k e rest, obj => by
    simp only [JsParts.append, JsParts.eval]
    cases e.eval X vals with
    | ok v => exact append_eval qs rest (k.put obj v)
    | error x => rfl

/-! ### Transforms keep their numbers -/

theorem colVal_grows (c : CodegenCol V ε) (i : Nat) (xforms : List (Xform V ε)) :
    xforms <+: (colVal c i xforms).2 := by
  unfold colVal
  split
  · exact List.prefix_rfl
  · exact List.prefix_append xforms _

theorem leafParts_grows : ∀ (ls : List (Leaf V ε)) (xforms : List (Xform V ε)),
    xforms <+: (leafParts ls xforms).2
  | [], _ => List.prefix_rfl
  | l :: ls, xforms => (colVal_grows l.col l.i xforms).trans (leafParts_grows ls _)

mutual

theorem body_grows : ∀ (node : Node V ε) (xforms : List (Xform V ε)),
    xforms <+: (node.body xforms).2
  | .mk leaves groups _, xforms => (leafParts_grows leaves xforms).trans (parts_grows groups _)

theorem parts_grows : ∀ (groups : Groups V ε) (xforms : List (Xform V ε)),
    xforms <+: (groups.parts xforms).2
  | .nil, _ => List.prefix_rfl
  | .cons _ node rest, xforms => (body_grows node xforms).trans (parts_grows rest _)

end

/-- The expression of a column finds its own transform. -/
theorem colVal_eval (l : Leaf V ε) (h : (colVal l.col l.i xforms).2 <+: X) :
    (colVal l.col l.i xforms).1.eval X vals = (l.value vals).map .cell := by
  unfold colVal at h ⊢
  unfold Leaf.value
  cases hx : l.col.xform with
  | none => rfl
  | some f =>
    rw [hx] at h
    obtain ⟨more, hmore⟩ := h
    have hget : X[xforms.length]? = some f := by
      rw [← hmore]
      simp
    show (callTemp X vals l.i xforms.length).map RowValue.cell = _
    unfold callTemp
    cases cellAt vals l.i with
    | none => rfl
    | some v => rw [hget]

theorem leafParts_eval : ∀ (ls : List (Leaf V ε)) (xforms : List (Xform V ε)) (obj : Props V),
    (leafParts ls xforms).2 <+: X →
      (leafParts ls xforms).1.eval X vals obj = assembleLeaves vals ls obj
  | [], _, _, _ => rfl
  | l :: ls, xforms, obj, h => by
    have hl : (colVal l.col l.i xforms).1.eval X vals = (l.value vals).map .cell :=
      colVal_eval l ((leafParts_grows ls _).trans h)
    simp only [leafParts, JsParts.eval, assembleLeaves, hl]
    cases l.value vals with
    | ok c =>
      show (leafParts ls _).1.eval X vals ((litKey l.key).put obj (.cell c)) = _
      rw [litKey_put]
      exact leafParts_eval ls _ _ h
    | error e => rfl

/-! ### Groups that are null -/

mutual

theorem groupAllNull_eq : ∀ node : Node V ε,
    node.groupAllNull vals = node.allIdx.all fun i => (cellAt vals i).isNone
  | .mk leaves groups _ => by
    have hg := allNull_eq groups
    simp [Node.groupAllNull, Node.allIdx, hg, Function.comp_def]

theorem allNull_eq : ∀ groups : Groups V ε,
    groups.allNull vals = groups.allIdx.all fun i => (cellAt vals i).isNone
  | .nil => rfl
  | .cons _ node rest => by
    have hn := groupAllNull_eq node
    have hg := allNull_eq rest
    simp [Groups.allNull, Groups.allIdx, hn, hg]

end

/-- The test around a group is the one that the interpreter makes, where the group has a column. -/
theorem guard_eval {node : Node V ε} (h : node.allIdx ≠ []) (b : JsExpr) :
    (node.guard b).eval X vals =
      if node.isMissed vals then .ok (.cell none) else b.eval X vals := by
  obtain ⟨leaves, groups, nullable⟩ := node
  unfold Node.guard Node.isMissed
  cases nullable with
  | false => rfl
  | true =>
    simp only [Bool.true_and, Bool.true_eq_false, if_false]
    by_cases hreq : leaves.filter (fun l => !l.col.nullable) = []
    · have hany : (leaves.any fun l => !l.col.nullable) = false := by
        rw [List.any_eq_false]
        exact List.filter_eq_nil_iff.mp hreq
      rw [if_neg (not_not.mpr hreq), if_pos h, hany, if_neg Bool.false_ne_true, groupAllNull_eq]
      rfl
    · have hany : (leaves.any fun l => !l.col.nullable) = true := by
        obtain ⟨l, hl⟩ := List.exists_mem_of_ne_nil _ hreq
        obtain ⟨hmem, hl⟩ := List.mem_filter.mp hl
        exact List.any_eq_true.mpr ⟨l, hmem, hl⟩
      rw [if_pos hreq, hany, if_pos rfl]
      show (if (NullTest.anyNull _).holds vals = true then _ else _) = _
      simp [NullTest.holds, List.any_filter, List.any_map, Function.comp_def]

/-! ### Every group has a column -/

mutual

def Node.Full : Node V ε → Prop
  | .mk _ groups _ => groups.Full

def Groups.Full : Groups V ε → Prop
  | .nil => True
  | .cons _ node rest => node.allIdx ≠ [] ∧ node.Full ∧ rest.Full

end

theorem enter_allIdx {key : String} {nullable : Bool} {f : Node V ε → Node V ε}
    (hf : ∀ node, (f node).allIdx ≠ []) : ∀ groups : Groups V ε,
    (groups.enter key nullable f).allIdx ≠ []
  | .nil => by simpa [Groups.enter, Groups.allIdx] using hf _
  | .cons k node rest => by
    unfold Groups.enter
    split
    · simp [Groups.allIdx, hf]
    · simp [Groups.allIdx, enter_allIdx hf rest]

theorem insert_allIdx (leaf : Leaf V ε) : ∀ (path : List (String × Bool)) (node : Node V ε),
    (node.insert leaf path).allIdx ≠ []
  | [], .mk leaves groups nullable => by simp [Node.insert, Node.allIdx]
  | (seg, segNullable) :: path, .mk leaves groups nullable => by
    have hg : (groups.enter seg segNullable (Node.insert leaf path)).allIdx ≠ [] :=
      enter_allIdx (fun node => insert_allIdx leaf path node) groups
    simp [Node.insert, Node.allIdx, hg]

theorem enter_full {key : String} {nullable : Bool} {f : Node V ε → Node V ε}
    (hidx : ∀ node, (f node).allIdx ≠ []) (hf : ∀ node, node.Full → (f node).Full) :
    ∀ groups : Groups V ε, groups.Full → (groups.enter key nullable f).Full
  | .nil, _ => ⟨hidx _, hf _ trivial, trivial⟩
  | .cons k node rest, h => by
    unfold Groups.enter
    split
    · exact ⟨hidx node, hf node h.2.1, h.2.2⟩
    · exact ⟨h.1, h.2.1, enter_full hidx hf rest h.2.2⟩

theorem insert_full (leaf : Leaf V ε) : ∀ (path : List (String × Bool)) (node : Node V ε),
    node.Full → (node.insert leaf path).Full
  | [], .mk _ _ _, h => h
  | (_, _) :: path, .mk _ groups _, h =>
    enter_full (insert_allIdx leaf path) (insert_full leaf path) groups h

theorem foldl_full (l : List (CodegenCol V ε × Nat)) : ∀ root : Node V ε, root.Full →
    (l.foldl (fun root (c, i) => root.insert ⟨c.name, i, c⟩ c.segments) root).Full := by
  induction l with
  | nil => exact fun _ h => h
  | cons c l ih => exact fun root h => ih _ (insert_full _ _ root h)

theorem buildObjTree_full (cols : List (CodegenCol V ε)) : (buildObjTree cols).Full :=
  foldl_full cols.zipIdx (Node.empty false) trivial

/-! ### Object mode -/

mutual

/-- **The literal of a node evaluates to what the interpreter assembles.** -/
theorem body_eval : ∀ (node : Node V ε) (xforms : List (Xform V ε)) (obj : Props V), node.Full →
    (node.body xforms).2 <+: X → (node.body xforms).1.eval X vals obj = node.assemble vals obj
  | .mk leaves groups _, xforms, obj, hfull, h => by
    have hleaves : (leafParts leaves xforms).1.eval X vals obj = assembleLeaves vals leaves obj :=
      leafParts_eval leaves xforms obj ((parts_grows groups _).trans h)
    simp only [Node.body, append_eval, hleaves, Node.assemble]
    cases assembleLeaves vals leaves obj with
    | ok obj => exact parts_eval groups _ obj hfull h
    | error e => rfl

theorem parts_eval : ∀ (groups : Groups V ε) (xforms : List (Xform V ε)) (obj : Props V),
    groups.Full → (groups.parts xforms).2 <+: X →
      (groups.parts xforms).1.eval X vals obj = groups.assemble vals obj
  | .nil, _, _, _, _ => rfl
  | .cons key node rest, xforms, obj, hfull, h => by
    have hnode : (node.body xforms).1.eval X vals [] = node.assemble vals [] :=
      body_eval node xforms [] hfull.2.1 ((parts_grows rest _).trans h)
    simp only [Groups.parts, JsParts.eval, guard_eval hfull.1, Groups.assemble]
    by_cases hmiss : node.isMissed vals = true
    · rw [if_pos hmiss, if_pos hmiss]
      show (rest.parts _).1.eval X vals ((litKey key).put obj (.cell none)) = _
      rw [litKey_put]
      exact parts_eval rest _ _ hfull.2.2 h
    · rw [if_neg hmiss, if_neg hmiss]
      simp only [JsExpr.eval, hnode]
      cases node.assemble vals [] with
      | ok props =>
        show (rest.parts _).1.eval X vals ((litKey key).put obj (.object props)) = _
        rw [litKey_put]
        exact parts_eval rest _ _ hfull.2.2 h
      | error e => rfl

end

/-- Columns without a path are leaves of the root. -/
theorem insert_flat (l : List (CodegenCol V ε × Nat)) (h : ∀ p ∈ l, p.1.segments = [])
    (leaves : List (Leaf V ε)) :
    l.foldl (fun root (c, i) => root.insert ⟨c.name, i, c⟩ c.segments) (.mk leaves .nil false) =
      Node.mk (leaves ++ l.map fun (c, i) => ⟨c.name, i, c⟩) .nil false := by
  induction l generalizing leaves with
  | nil => simp
  | cons p l ih =>
    obtain ⟨c, i⟩ := p
    have hc : c.segments = [] := h (c, i) List.mem_cons_self
    have hl := ih (fun p hp => h p (List.mem_cons_of_mem _ hp)) (leaves ++ [⟨c.name, i, c⟩])
    show List.foldl _ (Node.insert ⟨c.name, i, c⟩ c.segments (.mk leaves .nil false)) l = _
    rw [hc]
    simpa [Node.insert] using hl

theorem assembleLeaves_flat (l : List (CodegenCol V ε × Nat)) (h : ∀ p ∈ l, p.1.xform = none)
    (obj : Props V) :
    assembleLeaves vals (l.map fun (c, i) => (⟨c.name, i, c⟩ : Leaf V ε)) obj =
      .ok (l.foldl (fun obj (c, i) => setKey obj c.name (.cell (cellAt vals i))) obj) := by
  induction l generalizing obj with
  | nil => rfl
  | cons p l ih =>
    obtain ⟨c, i⟩ := p
    have hc : c.xform = none := h (c, i) List.mem_cons_self
    have hv : (⟨c.name, i, c⟩ : Leaf V ε).value vals = .ok (cellAt vals i) := by
      simp [Leaf.value, hc]
    simp only [List.map_cons, assembleLeaves, hv, List.foldl_cons]
    exact ih (fun p hp => h p (List.mem_cons_of_mem _ hp)) _

/-- The flat row is the assembled one. -/
theorem assemble_flat (cols : List (CodegenCol V ε))
    (h : (cols.any fun c => c.path.isSome || c.xform.isSome) = false) :
    (buildObjTree cols).assemble vals [] = .ok (flatRow cols vals) := by
  have hplain : ∀ p ∈ cols.zipIdx, p.1.path = none ∧ p.1.xform = none := by
    rintro ⟨c, i⟩ hp
    have hc := List.any_eq_false.mp h c (List.fst_mem_of_mem_zipIdx hp)
    simpa using hc
  have htree : buildObjTree cols =
      Node.mk (cols.zipIdx.map fun (c, i) => (⟨c.name, i, c⟩ : Leaf V ε)) .nil false := by
    have hflat := insert_flat cols.zipIdx
      (fun p hp => by simp [CodegenCol.segments, (hplain p hp).1]) []
    simpa [buildObjTree, Node.empty] using hflat
  rw [htree]
  simp only [Node.assemble, assembleLeaves_flat cols.zipIdx (fun p hp => (hplain p hp).2)]
  rfl

/-- **Object rows are the same.** -/
theorem object_rows_agree (walks : List (Xform V ε)) (cols : List (CodegenCol V ε)) :
    compiledMapper walks cols vals .object = interpretedMapper cols vals .object := by
  have hbody : ((buildObjTree cols).body walks).1.eval ((buildObjTree cols).body walks).2 vals [] =
      (buildObjTree cols).assemble vals [] :=
    body_eval (buildObjTree cols) walks [] (buildObjTree_full cols) List.prefix_rfl
  simp only [compiledMapper, interpretedMapper, JsExpr.eval, hbody]
  split
  · rfl
  · rename_i hplain
    rw [assemble_flat cols (by simpa using hplain)]
    rfl

/-! ### Array mode -/

/-- The same row, or both throw. -/
def Agree : Except (Thrown ε) (RowValue V) → Except (Thrown ε) (RowValue V) → Prop
  | .ok a, .ok b => a = b
  | .error _, .error _ => True
  | _, _ => False

theorem Agree.refl : ∀ r : Except (Thrown ε) (RowValue V), Agree r r
  | .ok _ => rfl
  | .error _ => trivial

/-- Every transform maps its cell to itself, where it is not null. -/
def LeavesCells (cols : List (CodegenCol V ε)) (vals : List (Cell V)) : Prop :=
  ∀ p ∈ cols.zipIdx, ∀ f v, p.1.xform = some f → cellAt vals p.2 = some v →
    f (some v) = .ok (some v)

theorem callXform_eq_ok {f : Xform V ε} {c d : Cell V} :
    callXform f c = .ok d ↔ f c = .ok d := by
  unfold callXform
  cases f c with
  | ok c => simp
  | error e => simp

theorem value_eq_cell_iff {l : Leaf V ε} : l.value vals = .ok (cellAt vals l.i) ↔
    ∀ f v, l.col.xform = some f → cellAt vals l.i = some v → f (some v) = .ok (some v) := by
  unfold Leaf.value
  cases hx : l.col.xform with
  | none => simp
  | some f =>
    cases hc : cellAt vals l.i with
    | none => simp
    | some v =>
      dsimp only
      rw [callXform_eq_ok]
      constructor
      · intro h g w hg hw
        cases hg
        cases hw
        exact h
      · intro h
        exact h f v rfl rfl

theorem arrayParts_grows : ∀ (l : List (CodegenCol V ε × Nat)) (xforms : List (Xform V ε)),
    xforms <+: (arrayParts l xforms).2
  | [], _ => List.prefix_rfl
  | (c, i) :: l, xforms => (colVal_grows c i xforms).trans (arrayParts_grows l _)

/-- The elements are the cells exactly when every column keeps its cell. -/
theorem evalCells_eq_iff : ∀ (l : List (CodegenCol V ε × Nat)) (xforms : List (Xform V ε)),
    (arrayParts l xforms).2 <+: X →
      (evalCells X vals (arrayParts l xforms).1 = .ok (l.map fun p => cellAt vals p.2) ↔
        ∀ p ∈ l, ∀ f v, p.1.xform = some f → cellAt vals p.2 = some v → f (some v) = .ok (some v))
  | [], _, _ => by simp [arrayParts, evalCells]
  | (c, i) :: l, xforms, h => by
    have hl : (colVal c i xforms).1.eval X vals = ((⟨c.name, i, c⟩ : Leaf V ε).value vals).map .cell :=
      colVal_eval ⟨c.name, i, c⟩ ((arrayParts_grows l _).trans h)
    have ih := evalCells_eq_iff l (colVal c i xforms).2 h
    have hkeep : (⟨c.name, i, c⟩ : Leaf V ε).value vals = .ok (cellAt vals i) ↔ ∀ f v,
        c.xform = some f → cellAt vals i = some v → f (some v) = .ok (some v) := value_eq_cell_iff
    rw [List.forall_mem_cons, ← ih, ← hkeep]
    simp only [arrayParts, evalCells, hl, List.map_cons]
    cases (⟨c.name, i, c⟩ : Leaf V ε).value vals with
    | error e => simp [Except.map]
    | ok d =>
      simp only [Except.map]
      cases evalCells X vals (arrayParts l (colVal c i xforms).2).1 with
      | error e => simp
      | ok ds => simp

/-- **The mappers agree exactly in object mode, and on arrays of cells that no column nests and no
transform changes.** -/
theorem mappers_agree_iff (walks : List (Xform V ε)) (cols : List (CodegenCol V ε))
    (vals : List (Cell V)) (mode : RowMode) :
    Agree (compiledMapper walks cols vals mode) (interpretedMapper cols vals mode) ↔
      mode = .object ∨ (∀ c ∈ cols, c.path = none) ∧ LeavesCells cols vals := by
  cases mode with
  | object =>
    rw [object_rows_agree]
    exact iff_of_true (.refl _) (.inl rfl)
  | array =>
    have hcells : (List.range cols.length).map (cellAt vals) =
        cols.zipIdx.map fun p => cellAt vals p.2 := by
      rw [List.range_eq_range', ← List.zipIdx_map_snd 0 cols, List.map_map]
      rfl
    have hmode : ¬ RowMode.array = .object := by decide
    rw [or_iff_right hmode]
    simp only [compiledMapper, interpretedMapper, hcells]
    by_cases hpath : (cols.any fun c => c.path.isSome) = true
    · rw [if_pos hpath]
      refine iff_of_false (fun h => h) ?_
      rintro ⟨hnone, -⟩
      obtain ⟨c, hc, hsome⟩ := List.any_eq_true.mp hpath
      rw [hnone c hc] at hsome
      cases hsome
    · have hnone : ∀ c ∈ cols, c.path = none := by simpa using hpath
      have hiff : evalCells (arrayParts cols.zipIdx walks).2 vals (arrayParts cols.zipIdx walks).1 =
          .ok (cols.zipIdx.map fun p => cellAt vals p.2) ↔ LeavesCells cols vals :=
        evalCells_eq_iff cols.zipIdx walks List.prefix_rfl
      rw [if_neg hpath, and_iff_right hnone]
      refine Iff.trans ?_ hiff
      cases evalCells (arrayParts cols.zipIdx walks).2 vals (arrayParts cols.zipIdx walks).1 with
      | error e => simp [Except.map, Agree]
      | ok es => simp [Except.map, Agree]

/-- A transform is applied to an array row by the compiled mapper only. -/
theorem mappers_disagree_on_array : ¬ ∀ (cols : List (CodegenCol Nat Unit)) (vals : List (Cell Nat))
    (mode : RowMode), Agree (compiledMapper [] cols vals mode) (interpretedMapper cols vals mode) := by
  intro h
  have hagree := h [{ name := "a", xform := some fun c => .ok (c.map (· + 1)) }] [some 1] .array
  have heq : RowValue.array [some 2] = RowValue.array [some 1] := hagree
  simp at heq

end Minipg.Rows
