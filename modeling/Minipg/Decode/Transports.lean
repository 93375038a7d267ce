import Minipg.Decode.Plans

/-!
# One plan for every transport

The three plans are one plan, up to the format: `http_plan`, `neon_planCols`, and `http_plain` for a
query without a shape.  What is requested of the server is the format of the plan
(`resultFormat_plan`), and binary only of a type that has a decoder for it (`shape_requestable`).
-/

namespace Minipg.Plans

open Js Cells

variable {J : Type} {cfg : PlanConfig} {oids : List Int}

/-! ### Plans -/

@[simp] theorem asText_of_text {c : Column J} (h : c.format = .text) : c.asText = c := by
  cases c with
  | mk toCodegenCol json array_instant =>
    cases toCodegenCol
    cases h
    rfl

theorem tagArrayCol_asText (c : Column J) : tagArrayCol c.asText = (tagArrayCol c).asText := by
  show (if c.array.isSome ∨ c.json.isSome then c.asText else _) = _
  unfold tagArrayCol
  by_cases h : c.array.isSome ∨ c.json.isSome
  · rw [if_pos h, if_pos h]
  · rw [if_neg h, if_neg h]
    split
    · next hnone =>
      split
      · rfl
      · next elem helem =>
        rw [show elemOid c.oid = none from hnone] at helem
        cases helem
    · next elem helem =>
      split
      · next hnone =>
        rw [show elemOid c.oid = some elem from helem] at hnone
        cases hnone
      · next elem' helem' =>
        rw [show elemOid c.oid = some elem from helem] at helem'
        cases helem'
        rfl

theorem elementsAsText_array {c : Column J} {elem : Int} {js : Target}
    (h : c.array = some (elem, js)) : c.elementsAsText =
      if absent js ∧ elem ∈ instantOids then some (c.retarget h "string") else none := by
  unfold Column.elementsAsText
  split
  · next elem' js' h' =>
    rw [h] at h'
    cases h'
    rfl
  · next h' =>
    rw [h] at h'
    cases h'

theorem elementsAsText_scalar {c : Column J} (h : c.array = none) : c.elementsAsText = none := by
  unfold Column.elementsAsText
  split
  · next h' =>
    rw [h] at h'
    cases h'
  · rfl

theorem elementsAsText_asText (c : Column J) :
    c.asText.elementsAsText = c.elementsAsText.map Column.asText := by
  cases h : c.array with
  | none =>
    rw [elementsAsText_scalar h, elementsAsText_scalar (show c.asText.array = none from h)]
    rfl
  | some a =>
    obtain ⟨elem, js⟩ := a
    rw [elementsAsText_array h,
      elementsAsText_array (show c.asText.array = some (elem, js) from h)]
    split <;> rfl

theorem textInstant_asText (c : Column J) :
    textInstant c.asText = (textInstant c).map Column.asText := by
  have hiff : (absent c.asText.js ∧ c.asText.json.isNone ∧ c.asText.oid ∈ instantOids) ↔
      (absent c.js ∧ c.json.isNone ∧ c.oid ∈ instantOids) := Iff.rfl
  unfold textInstant
  by_cases h : absent c.js ∧ c.json.isNone ∧ c.oid ∈ instantOids
  · rw [if_pos h, if_pos (hiff.mpr h)]
    rfl
  · rw [if_neg h, if_neg (mt hiff.mp h)]
    exact elementsAsText_asText c

/-- There is no array type behind the column that is not tagged. -/
def Tagged (c : Column J) : Prop := c.array.isSome ∨ c.json.isSome ∨ elemOid c.oid = none

theorem tagArrayCol_of_tagged {c : Column J} (h : Tagged c) : tagArrayCol c = c := by
  unfold tagArrayCol
  split
  · rfl
  · next hplain =>
    obtain ⟨ha, hj⟩ := not_or.mp hplain
    have hnone := (h.resolve_left ha).resolve_left hj
    split
    · rfl
    · next elem helem =>
      rw [hnone] at helem
      cases helem

theorem tagArrayCol_tagged (c : Column J) : Tagged (tagArrayCol c) := by
  unfold tagArrayCol
  split
  · next h => exact h.elim .inl fun hj => .inr (.inl hj)
  · split
    · next h => exact .inr (.inr h)
    · exact .inl rfl

theorem instantOids_scalar {oid : Int} (h : oid ∈ instantOids) : elemOid oid = none := by
  have hcases : oid = 1082 ∨ oid = 1114 ∨ oid = 1184 := by simpa [instantOids] using h
  rcases hcases with rfl | rfl | rfl <;> rfl

/-- A column that was made text stays as it is. -/
theorem textInstant_once {c d : Column J} (h : textInstant c = some d) :
    Tagged d ∧ textInstant d = none := by
  unfold textInstant at h
  split at h
  · next hc =>
    obtain ⟨-, -, ho⟩ := hc
    have ha : c.array = none := Option.not_isSome_iff_eq_none.mp fun ha => c.array_instant ha ho
    cases h
    refine ⟨.inr (.inr (instantOids_scalar ho)), ?_⟩
    unfold textInstant
    rw [if_neg (by simp [absent])]
    exact elementsAsText_scalar ha
  · next hc =>
    cases ha : c.array with
    | none =>
      rw [elementsAsText_scalar ha] at h
      cases h
    | some a =>
      obtain ⟨elem, js⟩ := a
      rw [elementsAsText_array ha] at h
      split at h
      · cases h
        have hstring : (c.retarget ha "string").array = some (elem, some "string") := rfl
        have hiff : (absent (c.retarget ha "string").js ∧ (c.retarget ha "string").json.isNone ∧
            (c.retarget ha "string").oid ∈ instantOids) ↔
            (absent c.js ∧ c.json.isNone ∧ c.oid ∈ instantOids) := Iff.rfl
        refine ⟨.inl rfl, ?_⟩
        unfold textInstant
        rw [if_neg (mt hiff.mp hc), elementsAsText_array hstring, if_neg (by simp [absent])]
      · cases h

theorem resolveCol_idem (c : Column J) :
    Connection.resolveCol cfg (Connection.resolveCol cfg c) = Connection.resolveCol cfg c := by
  unfold Connection.resolveCol
  by_cases ht : cfg.temporal = .string
  · simp only [if_pos ht]
    cases h : textInstant (tagArrayCol c) with
    | none => simp [tagArrayCol_of_tagged (tagArrayCol_tagged c), h]
    | some d =>
      obtain ⟨htagged, hnone⟩ := textInstant_once h
      simp [tagArrayCol_of_tagged htagged, hnone]
  · simp only [if_neg ht]
    exact tagArrayCol_of_tagged (tagArrayCol_tagged c)

theorem resolveCol_asText (c : Column J) :
    Connection.resolveCol cfg c.asText = (Connection.resolveCol cfg c).asText := by
  unfold Connection.resolveCol
  by_cases ht : cfg.temporal = .string
  · simp only [if_pos ht, tagArrayCol_asText, textInstant_asText]
    cases textInstant (tagArrayCol c) <;> rfl
  · simp only [if_neg ht, tagArrayCol_asText]

theorem resolved_text (oid : Int) :
    (Connection.resolveCol cfg (Column.plain (J := J) oid .text)).format = .text := by
  have h := @resolveCol_asText J cfg (Column.plain oid .text)
  have hplain : (Column.plain (J := J) oid .text).asText = Column.plain oid .text := rfl
  rw [hplain] at h
  rw [h]
  rfl

theorem http_planCol :
    HttpClient.planCol cfg "bigint" = Connection.resolveCol (J := J) cfg := by
  funext c
  have hint8 : ∀ c : Column J, HttpClient.int8Col "bigint" c = c := by
    intro c
    unfold HttpClient.int8Col
    rw [if_neg fun h => h.1 rfl]
  unfold HttpClient.planCol Connection.resolveCol
  by_cases ht : cfg.temporal = .string
  · simp only [if_pos ht]
    cases textInstant (tagArrayCol c) with
    | none => exact hint8 _
    | some d => rfl
  · simp only [if_neg ht]
    exact hint8 _

theorem neon_planCols (shape : Option (List (ShapeCol J))) :
    NeonHttpClient.planCols cfg shape oids = HttpClient.planCols cfg "bigint" shape oids := by
  unfold NeonHttpClient.planCols HttpClient.planCols
  rw [http_planCol]
  unfold Connection.resolveCol
  by_cases ht : cfg.temporal = .string
  · simp [ht]
  · simp [ht]

/-- What a column of a shape comes to, where the result reports this type. -/
def settled (cfg : PlanConfig) (oid : Int) : ShapeCol J → Column J
  | .unknown => Connection.resolveCol cfg (.plain oid .text)
  | .known c => Connection.resolveCol cfg c

theorem connection_plan (cols : List (ShapeCol J)) : Connection.planCols cfg cols oids =
    cols.zipIdx.map fun p => settled cfg (oids[p.2]?.getD 0) p.1 := by
  unfold Connection.planCols mergeUnknownCols Connection.resolveCols
  rw [List.zipIdx_map, List.map_map, List.map_map]
  refine List.map_congr_left fun p _ => ?_
  obtain ⟨c, j⟩ := p
  cases c with
  | unknown => rfl
  | known c => exact resolveCol_idem c

theorem http_plan (cols : List (ShapeCol J)) :
    HttpClient.planCols cfg "bigint" (some cols) oids =
      (Connection.planCols cfg cols oids).map Column.asText := by
  rw [connection_plan]
  unfold HttpClient.planCols mergeUnknownCols
  rw [http_planCol]
  dsimp only
  rw [List.zipIdx_map, List.map_map, List.map_map, List.map_map]
  refine List.map_congr_left fun p _ => ?_
  obtain ⟨c, j⟩ := p
  cases c with
  | unknown => exact resolveCol_asText (.plain (oids[j]?.getD 0) .text)
  | known c => exact resolveCol_asText c

theorem resultFormat_plan (cols : List (ShapeCol J)) :
    Connection.resultFormat (Connection.resolveCols cfg cols) =
      (Connection.planCols cfg cols oids).map fun c => c.format := by
  rw [connection_plan]
  unfold Connection.resultFormat Connection.resolveCols
  conv_lhs => rw [← List.zipIdx_map_fst 0 cols]
  rw [List.map_map, List.map_map, List.map_map]
  refine List.map_congr_left fun p _ => ?_
  obtain ⟨c, j⟩ := p
  cases c with
  | unknown => exact (resolved_text _).symm
  | known c => rfl

/-- The plan of a query without a shape. -/
theorem http_plain (reuse : Bool) : HttpClient.planCols cfg "bigint" none oids =
    (Connection.planCols (J := J) cfg (Connection.plainCols cfg reuse oids) oids).map
      Column.asText := by
  have hstripped : (Connection.plainCols (J := J) cfg reuse oids).map ShapeCol.asText =
      oids.map fun oid => .known (.plain oid .text) := by
    unfold Connection.plainCols
    rw [List.map_map]
    rfl
  rw [← http_plan]
  unfold HttpClient.planCols mergeUnknownCols
  dsimp only
  rw [hstripped, List.zipIdx_map, List.map_map, List.map_map, List.map_map]
  conv_lhs => rw [← List.zipIdx_map_fst 0 oids, List.map_map]
  rfl

/-! ### Requested columns -/

theorem resolveLeaf_binary {leaf : Declared J} {c : Column J}
    (h : resolveLeaf leaf = .ok (.known c)) (hb : c.format = .binary) :
    c.oid ∈ binaryFast ∨ c.oid = 700 := by
  cases leaf with
  | custom oid sentinel target isArray =>
    cases h
    cases isArray <;> cases hb
  | json jsonb marker =>
    cases h
    cases hb
  | type t =>
    by_cases hu : t = ascii "unknown"
    · simp only [resolveLeaf, if_pos hu] at h
      cases h
    cases hs : splitType t with
    | error e =>
      simp only [resolveLeaf, if_neg hu, hs, bind, Except.bind] at h
      cases h
    | ok p =>
      obtain ⟨pg, js⟩ := p
      simp only [resolveLeaf, if_neg hu, hs, bind, Except.bind] at h
      split at h
      · cases h
        cases hb
      split at h
      · split at h
        · cases h
          cases hb
        · split at h
          · cases h
          split at h
          · cases h
          · cases h
            cases hb
      · split at h
        · cases h
        · next oid hoid =>
          cases h
          by_cases h700 : oid = 700
          · exact .inr (by rw [h700]; rfl)
          · simp only [Column.scalar, if_neg h700] at hb
            split at hb
            · next hfast => exact .inl hfast.1
            · cases hb

theorem resolveCol_binary {c : Column J} (h : (Connection.resolveCol cfg c).format = .binary) :
    c.format = .binary ∧ (Connection.resolveCol cfg c).oid = c.oid := by
  have htag : (tagArrayCol c).format = c.format ∧ (tagArrayCol c).oid = c.oid := by
    unfold tagArrayCol
    split
    · exact ⟨rfl, rfl⟩
    split <;> exact ⟨rfl, rfl⟩
  unfold Connection.resolveCol at h ⊢
  by_cases ht : cfg.temporal = .string
  · simp only [if_pos ht] at h ⊢
    unfold textInstant at h ⊢
    by_cases hi : absent (tagArrayCol c).js ∧ (tagArrayCol c).json.isNone ∧
        (tagArrayCol c).oid ∈ instantOids
    · rw [if_pos hi] at h
      cases h
    · rw [if_neg hi] at h ⊢
      cases ha : (tagArrayCol c).array with
      | none =>
        rw [elementsAsText_scalar ha] at h ⊢
        exact ⟨htag.1 ▸ h, htag.2⟩
      | some a =>
        obtain ⟨elem, js⟩ := a
        rw [elementsAsText_array ha] at h ⊢
        split at h
        · next hc =>
          rw [if_pos hc]
          exact ⟨htag.1 ▸ h, htag.2⟩
        · next hc =>
          rw [if_neg hc]
          exact ⟨htag.1 ▸ h, htag.2⟩
  · simp only [if_neg ht] at h ⊢
    exact ⟨htag.1 ▸ h, htag.2⟩

/-- The columns of a shape. -/
def shapeCols (leaves : List (Declared J)) : Except JsError (List (ShapeCol J)) :=
  collect resolveLeaf leaves

theorem mem_collect {α β ε : Type} {f : α → Except ε β} : ∀ {l : List α} {bs : List β},
    collect f l = .ok bs → ∀ b ∈ bs, ∃ a ∈ l, f a = .ok b
  | [], bs, h, b, hb => by
    cases h
    cases hb
  | a :: l, bs, h, b, hb => by
    cases ha : f a with
    | error e =>
      simp only [collect, ha, bind, Except.bind] at h
      cases h
    | ok b' =>
      cases hl : collect f l with
      | error e =>
        simp only [collect, ha, hl, bind, Except.bind] at h
        cases h
      | ok bs' =>
        simp only [collect, ha, hl, bind, Except.bind, pure, Except.pure] at h
        cases h
        rcases List.mem_cons.mp hb with rfl | hb
        · exact ⟨a, List.mem_cons_self, ha⟩
        · obtain ⟨a', ha', hf⟩ := mem_collect hl b hb
          exact ⟨a', List.mem_cons_of_mem _ ha', hf⟩

/-- Every column that is requested as binary is of a type that can be. -/
def Requestable (cols : List (ShapeCol J)) : Prop :=
  ∀ c, .known c ∈ cols → c.format = .binary → c.oid ∈ binaryFast ∨ c.oid = 700

theorem shape_requestable {leaves : List (Declared J)} {cols : List (ShapeCol J)}
    (h : shapeCols leaves = .ok cols) : Requestable cols := by
  intro c hc hb
  obtain ⟨leaf, -, hleaf⟩ := mem_collect h _ hc
  exact resolveLeaf_binary hleaf hb

theorem plain_requestable (reuse : Bool) :
    Requestable (Connection.plainCols (J := J) cfg reuse oids) := by
  intro c hc hb
  obtain ⟨oid, -, hoid⟩ := List.mem_map.mp hc
  cases hoid
  have hformat : (if reuse = true ∧ cfg.reuseBinaryOids oid = true then WireFormat.binary
      else .text) = .binary := hb
  split at hformat
  · next hreuse =>
    have hfast := of_decide_eq_true hreuse.2
    exact .inl hfast.1
  · cases hformat

end Minipg.Plans
