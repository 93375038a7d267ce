import Minipg.Shaped.Leaves

/-!
# The scanner and the shape

On every document of a shape the generated code returns what the shape makes of the parsed document,
and leaves the cursor behind it (`scanner_decodes`).
-/

namespace Minipg.Shaped

open Js
open Cells (Runtime)
open Json (Ast Chars Reads ReadsMembers fuel_rules skipWs)
open Mappers (Call JsonKind JsonMarker JsonSpec JsonType)
open Plans (hexOnly splitType)
open Encode (ok_of_bind)
open Cursor (Delimited before braces)
open Cursor.Brackets (Balanced Closed)

/-- The code of a field, with what it implements. -/
structure Reader where
  code : Code
  form : Form
  decode : Ast → Decoded
  ok : Implements code form decode

/-! ### The order of the fields -/

section Order

variable {α β : Type} (entries : List (JsString × α)) (type : JsonType)

theorem wireOrder_perm : (wireOrder entries type).Perm entries.zipIdx := by
  cases type with
  | json => exact .refl _
  | jsonb => exact List.mergeSort_perm _ _

/-- Only the keys matter. -/
theorem wireOrder_map (f : α → β) : wireOrder (entries.map (Prod.map id f)) type =
    (wireOrder entries type).map (Prod.map (Prod.map id f) id) := by
  have hidx : (entries.map (Prod.map id f)).zipIdx =
      entries.zipIdx.map (Prod.map (Prod.map id f) id) := List.zipIdx_map ..
  cases type with
  | json => exact hidx
  | jsonb =>
    unfold wireOrder
    dsimp only
    rw [hidx]
    exact (List.map_mergeSort (f := Prod.map (Prod.map id f) id) fun a _ b _ => rfl).symm

theorem wireOrder_indices : ((wireOrder entries type).map Prod.snd).Nodup := by
  have hperm := (wireOrder_perm entries type).map Prod.snd
  rw [List.zipIdx_map_snd] at hperm
  exact hperm.nodup_iff.mpr List.nodup_range'

theorem lookup_zip {γ : Type} (g : α → γ) {w : List (α × Nat)} (hnodup : (w.map Prod.snd).Nodup)
    {e : α × Nat} (he : e ∈ w) :
    ((w.map Prod.snd).zip (w.map fun e => g e.1)).lookup e.2 = some (g e.1) := by
  induction w with
  | nil => cases he
  | cons x w ih =>
    rw [List.map_cons, List.nodup_cons] at hnodup
    rw [List.map_cons, List.map_cons, List.zip_cons_cons, List.lookup_cons]
    rcases List.mem_cons.mp he with rfl | hmem
    · rw [beq_self_eq_true]
    · have hne : (e.2 == x.2) = false := by
        refine beq_eq_false_iff_ne.mpr fun h => hnodup.1 ?_
        exact h ▸ List.mem_map_of_mem hmem
      rw [hne]
      exact ih hnodup.2 hmem

end Order

/-- Of a key that is there once, the last member is the only one. -/
theorem member_of_count {k : JsString} {v : Ast} {ms : List (JsString × Ast)} (hmem : (k, v) ∈ ms)
    (hcount : (ms.map Prod.fst).count k = 1) : member k ms = some v := by
  have hone : (ms.filter fun m => m.1 = k).length = 1 := by
    rw [← List.countP_eq_length_filter, ← hcount, List.count_eq_countP, List.countP_map]
    refine List.countP_congr fun m _ => ?_
    simp
  obtain ⟨m, hm⟩ := List.length_eq_one_iff.mp hone
  have heq : ∀ m' ∈ ms, m'.1 = k → m' = m := by
    intro m' hm' hk
    have hin : m' ∈ ms.filter fun m => m.1 = k := List.mem_filter.mpr ⟨hm', decide_eq_true hk⟩
    rw [hm] at hin
    exact List.mem_singleton.mp hin
  unfold member
  cases hfind : ms.reverse.find? fun m => m.1 = k with
  | none =>
    have hnone := List.find?_eq_none.mp hfind (k, v) (List.mem_reverse.mpr hmem)
    exact absurd (decide_eq_true rfl) hnone
  | some x =>
    have hfound := List.find?_some hfind
    have hkey : x.1 = k := of_decide_eq_true hfound
    have hin := List.mem_reverse.mp (List.mem_of_find?_eq_some hfind)
    rw [heq x hin hkey, ← heq (k, v) hmem rfl]
    rfl

/-! ### The members of an object -/

section Members

variable {post : List UInt8} {s t rest : JsString} {ms : List (JsString × Ast)}

theorem ReadsMembers.open (h : ReadsMembers s ms rest) : ∃ t, skipWs s = 34 :: t := by
  have hparse := h.2 (s.length + 1) (by omega)
  rw [Json.parseMembers] at hparse
  cases hs : skipWs s with
  | nil =>
    rw [hs] at hparse
    cases hparse
  | cons u t =>
    rw [hs] at hparse
    dsimp only at hparse
    split at hparse
    · rename_i hu
      exact ⟨t, by rw [hu]⟩
    · cases hparse

theorem MembersOf.open {forms : List (JsString × Form)} (h : MembersOf forms s ms rest) :
    ∃ t, skipWs s = 34 :: t := by
  cases h with
  | last hs _ _ _ _ => exact ⟨_, hs⟩
  | member hs _ _ _ _ _ => exact ⟨_, hs⟩
  | others h => exact ReadsMembers.open h

/-- The key of a member is passed over, and its value is read. -/
theorem field_text (f : Reader) {k t' t'' r : JsString} {v : Ast} (hs : skipWs s = 34 :: t)
    (hk : Chars t k t') (hcol : skipWs t' = 58 :: t'') (hv : f.form t'' v r)
    (hwf : isWellFormed s) (hdelim : Delimited r) :
    ∃ r', (r' = r ∨ r' = skipWs r) ∧ isWellFormed r ∧
      f.code (((before post (skipWs s)).skipString.skipWs.advance 1).skipWs) =
        some (f.decode v, before post r') := by
  have hskip := Neon.wellFormed_behind hs (by decide) hwf
  obtain ⟨hwf', -⟩ := @Cursor.chars_text post t t' hskip k hk
  have hwf'' := Neon.wellFormed_behind hcol (by decide) hwf'
  obtain ⟨r', hr', hrun⟩ := f.ok.runs hv hwf'' hdelim post
  refine ⟨r', hr', Neon.reads_wellFormed (f.ok.reads hv) hwf'', ?_⟩
  rw [hs, Cursor.skipString_text hskip hk, Cursor.skipWs_before, hcol,
    Cursor.advance_cons (by decide), Cursor.skipWs_before]
  exact hrun

/-- What the shape makes of the member of a field. -/
def byName (ms : List (JsString × Ast)) (f : JsString × Reader) : Decoded :=
  ((member f.1 ms).map f.2.decode).getD .null

/-- **The fields are read in the order of the wire**, and what is left of the object ends where the
object does. -/
theorem fields_text {full : List (JsString × Ast)} : ∀ {fs : List (JsString × Reader)}
    {s rest : JsString} {ms : List (JsString × Ast)},
    MembersOf (fs.map (Prod.map id Reader.form)) s ms rest → isWellFormed s → ms <:+ full →
    (∀ f ∈ fs, (full.map Prod.fst).count f.1 = 1) → ∀ {first : Bool} {t : JsString},
    isWellFormed t → braces.Balanced t s →
    (if first then before post t else ((before post t).skipWs.advance 1).skipWs) =
      before post (skipWs s) →
    ∃ r, isWellFormed r ∧ braces.Closed r rest ∧
      fieldsCode first (fs.map fun f => f.2.code) (before post t) =
        some (fs.map (byName full), before post r) := by
  intro fs
  induction fs with
  | nil =>
    intro s rest ms h hwf _ _ first t ht hbal _
    cases h with
    | others h =>
      have hclose := (Cursor.braces_rules.read _).2.2 (h.2 _ (Nat.le_add_right _ _))
      exact ⟨t, ht, hbal.trans hclose, rfl⟩
  | cons f fs ih =>
    intro s rest ms h hwf hfull hcount first t ht hbal hstart
    have hvalue : ∀ {v : Ast}, (f.1, v) ∈ full → byName full f = f.2.decode v := by
      intro v hv
      unfold byName
      rw [member_of_count hv (hcount f List.mem_cons_self)]
      rfl
    have hread : ∀ {r' : JsString} {v : Ast} {vs : List Decoded} {c : Cursor},
        f.2.code (((before post (skipWs s)).skipString.skipWs.advance 1).skipWs) =
          some (f.2.decode v, before post r') →
        fieldsCode false (fs.map fun f => f.2.code) (before post r') = some (vs, c) →
        fieldsCode first ((f :: fs).map fun f => f.2.code) (before post t) =
          some (f.2.decode v :: vs, c) := by
      intro r' v vs c hrun hrest
      rw [List.map_cons, fieldsCode, hstart, hrun]
      show (fieldsCode false (fs.map fun f => f.2.code) (before post r') >>= fun p => _) = _
      rw [hrest]
      rfl
    generalize hforms : (f :: fs).map (Prod.map id Reader.form) = forms at h
    cases h with
    | others _ => cases hforms
    | @last k form _ t₁ t₂ t₃ r _ v hs hk hcol hv hr =>
      obtain ⟨hf, hfs⟩ := List.cons.inj hforms
      obtain rfl := List.map_eq_nil_iff.mp hfs
      cases hf
      obtain ⟨r', hnear, hwfr, hrun⟩ := @field_text post s t₁ f.2 _ _ _ _ _ hs hk hcol hv hwf
        ⟨125, rest, hr, .inr (.inl rfl)⟩
      have hwf' : isWellFormed r' := by
        rcases hnear with rfl | rfl
        · exact hwfr
        · exact Json.wellFormed_skipWs hwfr
      have hend : skipWs r' = 125 :: rest := (skipWs_near hnear).trans hr
      refine ⟨r', hwf', Cursor.closed_at Cursor.isWs_braces hend, ?_⟩
      rw [hread hrun rfl, List.map_cons, hvalue (hfull.subset List.mem_cons_self)]
      rfl
    | @member k form entries _ t₁ t₂ t₃ r r₁ _ v ms hs hk hcol hv hr hms =>
      obtain ⟨hf, hfs⟩ := List.cons.inj hforms
      cases hf
      obtain ⟨r', hnear, hwfr, hrun⟩ := @field_text post s t₁ f.2 _ _ _ _ _ hs hk hcol hv hwf
        ⟨44, r₁, hr, .inl rfl⟩
      have hwf' : isWellFormed r' := by
        rcases hnear with rfl | rfl
        · exact hwfr
        · exact Json.wellFormed_skipWs hwfr
      have hnext : skipWs r' = 44 :: r₁ := (skipWs_near hnear).trans hr
      rw [← hfs] at hms
      have hcomma : (if (false : Bool) then before post r'
          else ((before post r').skipWs.advance 1).skipWs) = before post (skipWs r₁) := by
        rw [if_neg Bool.false_ne_true, Cursor.skipWs_before, hnext,
          Cursor.advance_cons (by decide), Cursor.skipWs_before]
      obtain ⟨r₂, hwf₂, hclose, hrest⟩ := ih hms (Neon.wellFormed_behind hr (by decide) hwfr)
        ((List.suffix_cons _ _).trans hfull) (fun f' hf' => hcount f' (List.mem_cons_of_mem f hf'))
        hwf' (Cursor.balanced_behind Cursor.isWs_braces hnext (by decide)) hcomma
      refine ⟨r₂, hwf₂, hclose, ?_⟩
      rw [hread hrun hrest, List.map_cons, hvalue (hfull.subset List.mem_cons_self)]

end Members

/-! ### Objects -/

section Objects

variable (fs : List (JsString × Reader)) (type : JsonType) {s rest : JsString} {a : Ast}

def codes : List (JsString × Code) := fs.map (Prod.map id Reader.code)

def forms : List (JsString × Form) := fs.map (Prod.map id Reader.form)

def decoders : List (JsString × (Ast → Decoded)) := fs.map (Prod.map id Reader.decode)

/-- The values in the order of the wire make the object in the order of the shape. -/
theorem literal_text (ms : List (JsString × Ast)) :
    literal (codes fs) (((wireOrder (codes fs) type).map Prod.snd).zip
      (((wireOrder fs type).map Prod.fst).map (byName ms))) =
        objectDecode (decoders fs) (.object ms) := by
  have hindices : (wireOrder (codes fs) type).map Prod.snd =
      (wireOrder fs type).map Prod.snd := by
    unfold codes
    rw [wireOrder_map, List.map_map]
    rfl
  have hidx : (codes fs).zipIdx = fs.zipIdx.map (Prod.map (Prod.map id Reader.code) id) :=
    List.zipIdx_map ..
  have hvalue : ∀ e ∈ fs.zipIdx, (((wireOrder fs type).map Prod.snd).zip
      ((wireOrder fs type).map (byName ms ∘ Prod.fst))).lookup e.2 = some (byName ms e.1) :=
    fun e he => lookup_zip (byName ms) (wireOrder_indices fs type)
      ((wireOrder_perm fs type).mem_iff.mpr he)
  unfold literal objectDecode decoders
  rw [hindices, hidx, List.map_map, List.map_map, Decoded.object.injEq]
  have hfst : fs = fs.zipIdx.map Prod.fst := (List.zipIdx_map_fst 0 fs).symm
  conv_rhs => rw [hfst]
  rw [List.map_map, List.map_map]
  refine List.map_congr_left fun e he => ?_
  show (e.1.1, ((List.zip _ _).lookup e.2).getD Decoded.null) = (e.1.1, byName ms e.1)
  rw [hvalue e he]
  rfl

theorem MembersOf.reads {fs : List (JsString × Reader)} : ∀ {s rest : JsString}
    {ms : List (JsString × Ast)}, MembersOf (forms fs) s ms rest → ReadsMembers s ms rest := by
  induction fs with
  | nil =>
    intro s rest ms h
    cases h with
    | others h => exact h
  | cons f fs ih =>
    intro s rest ms h
    generalize hforms : forms (f :: fs) = entries at h
    cases h with
    | others _ => cases hforms
    | last hs hk hcol hv hr =>
      obtain ⟨hf, -⟩ := List.cons.inj hforms
      cases hf
      exact fuel_rules.lastMember hs (Json.parseChars_iff.mpr hk) hcol (f.2.ok.reads hv) hr
    | member hs hk hcol hv hr hms =>
      obtain ⟨hf, hfs⟩ := List.cons.inj hforms
      cases hf
      rw [← hfs] at hms
      exact fuel_rules.member hs (Json.parseChars_iff.mpr hk) hcol (f.2.ok.reads hv) hr (ih hms)

variable {fs type}

/-- Without members every key is null. -/
theorem literal_empty : literal (codes fs) [] = objectDecode (decoders fs) (.object []) := by
  have hidx : (codes fs).zipIdx.map Prod.fst = codes fs := List.zipIdx_map_fst 0 _
  have hkeys : (codes fs).map Prod.fst = (decoders fs).map Prod.fst := by
    unfold codes decoders
    rw [List.map_map, List.map_map]
    rfl
  unfold literal objectDecode
  rw [Decoded.object.injEq]
  calc (codes fs).zipIdx.map (fun e => (e.1.1, (List.lookup e.2 []).getD Decoded.null))
      = ((codes fs).zipIdx.map Prod.fst).map (fun e => (e.1, Decoded.null)) := by
        rw [List.map_map]
        rfl
    _ = ((decoders fs).map Prod.fst).map (fun k => (k, Decoded.null)) := by
        rw [hidx, ← hkeys, List.map_map]
        rfl
    _ = (decoders fs).map fun e => (e.1, ((member e.1 []).map e.2).getD Decoded.null) := by
        rw [List.map_map]
        rfl

/-- The fields, as they come. -/
theorem wire_forms : (wireOrder (forms fs) type).map Prod.fst =
    forms ((wireOrder fs type).map Prod.fst) := by
  unfold forms
  rw [wireOrder_map, List.map_map, List.map_map]
  rfl

theorem ObjectOf.reads (h : ObjectOf (forms fs) type s a rest) : Reads s a rest := by
  cases h with
  | null h => exact h
  | empty hs ht => exact fuel_rules.emptyObject hs ht
  | members hs hms _ =>
    rw [wire_forms] at hms
    obtain ⟨t, ht⟩ := hms.open
    rw [skipWs_idem] at ht
    refine fuel_rules.object hs ?_ hms.reads
    rw [ht]
    exact fun h => absurd (Option.some.inj h) (by decide)

/-- **An object is read by the places of its members**, and is what the shape makes of them by
their names. -/
theorem object_text (h : ObjectOf (forms fs) type s a rest) (hwf : isWellFormed s)
    (post : List UInt8) : inlineObject (codes fs) type (before post s) =
      some (objectDecode (decoders fs) a, before post rest) := by
  have htext := @orNull_text post s rest a (objectCode (codes fs) type) h.reads
  unfold inlineObject
  rw [Cursor.skipWs_before, htext]
  cases h with
  | null _ => rfl
  | @empty _ t _ hs ht =>
    dsimp only
    unfold objectCode
    dsimp only
    rw [hs, Cursor.advance_cons (by decide), Cursor.skipWs_before, ht,
      if_pos (Cursor.peek_cons (by decide)), Cursor.advance_cons (by decide), literal_empty]
  | @members _ t ms _ hs hms hcount =>
    rw [wire_forms] at hms
    have hwf' := Json.wellFormed_skipWs (Neon.wellFormed_behind hs (by decide) hwf)
    obtain ⟨q, hq⟩ := hms.open
    rw [skipWs_idem] at hq
    have hcount' : ∀ f ∈ (wireOrder fs type).map Prod.fst, (ms.map Prod.fst).count f.1 = 1 := by
      intro f hf
      have hperm := (wireOrder_perm fs type).map Prod.fst
      rw [List.zipIdx_map_fst] at hperm
      exact hcount _ (List.mem_map_of_mem (hperm.mem_iff.mp hf))
    obtain ⟨r, hwfr, hclose, hrun⟩ := @fields_text post ms _ _ _ _ hms hwf' List.suffix_rfl hcount'
      true (skipWs t) hwf' (.word (c := []) (fun u hu => absurd hu List.not_mem_nil) _) (by
        rw [if_pos rfl, skipWs_idem])
    have horder : (wireOrder (codes fs) type).map (fun e => e.1.2) =
        ((wireOrder fs type).map Prod.fst).map fun f => f.2.code := by
      unfold codes
      rw [wireOrder_map, List.map_map, List.map_map]
      rfl
    dsimp only
    unfold objectCode
    dsimp only
    rw [hs, Cursor.advance_cons (by decide), Cursor.skipWs_before, horder, hrun,
      if_neg (by rw [hq]; exact Cursor.peek_ne (show Json.IsByte 125 125 by decide) (by decide))]
    show some (literal (codes fs) _, (before post r).skipObjEnd) = _
    rw [literal_text, Cursor.skipObjEnd_text hwfr hclose]

theorem inlineObject_skip (entries : List (JsString × Code)) (c : Cursor) :
    inlineObject entries type c.skipWs = inlineObject entries type c := by
  unfold inlineObject
  rw [Cursor.skipWs_idem]

/-! ### Markers -/

theorem inlineMarker_skip (kind : JsonKind) (entries : List (JsString × Code)) (c : Cursor) :
    inlineMarker kind entries type c.skipWs = inlineMarker kind entries type c := by
  cases kind with
  | object => exact inlineObject_skip entries c
  | array =>
    show orNull _ c.skipWs.skipWs = orNull _ c.skipWs
    rw [Cursor.skipWs_idem]

theorem marker_reads {kind : JsonKind} (h : markerForm kind (forms fs) type s a rest) :
    Reads s a rest := by
  cases kind with
  | object => exact ObjectOf.reads h
  | array =>
    rcases h with ⟨-, h⟩ | h
    · exact h
    · exact ArrayOf.reads ObjectOf.reads h

theorem marker_text {kind : JsonKind} (h : markerForm kind (forms fs) type s a rest)
    (hwf : isWellFormed s) (post : List UInt8) : inlineMarker kind (codes fs) type (before post s) =
      some (markerDecode kind (decoders fs) a, before post rest) := by
  cases kind with
  | object => exact object_text h hwf post
  | array =>
    have htext := @orNull_text post s rest a
      (arrayCode (inlineObject (codes fs) type) Cursor.skipWs) (marker_reads h)
    show orNull _ (before post s).skipWs = _
    rw [Cursor.skipWs_before, htext]
    rcases h with ⟨rfl, -⟩ | h
    · rfl
    · obtain ⟨vs, rfl, hrun⟩ := array_text ObjectOf.reads
        (fun t => .inr (Cursor.skipWs_before t)) (inlineObject_skip (codes fs))
        (fun {s v r} hv _ hwf _ => ⟨r, .inl rfl, object_text hv hwf post⟩) h (Nat.le_succ _) hwf
      exact hrun

end Objects

/-! ### The scanner -/

section Scanner

variable (rt : Runtime) (dateParse : JsString → Double) {calls : List Call}

/-- A type that the scanner knows. -/
theorem inlineType_reader {t : String} {code : Code}
    (h : inlineType rt dateParse t = .ok code) :
    ∃ f : Reader, f.code = code ∧ f.form = typeForm t ∧ f.decode = typeDecode rt dateParse t := by
  unfold inlineType at h
  unfold typeForm typeDecode
  cases hsplit : splitType (utf16 t) with
  | error e =>
    rw [hsplit] at h
    cases h
  | ok p =>
    obtain ⟨pg, js⟩ := p
    rw [hsplit] at h
    cases h
    exact ⟨⟨_, _, _, Leaf.implements rt dateParse (leaf pg js)⟩, rfl, rfl, rfl⟩

/-- A marker in a shape. -/
def markerReader (kind : JsonKind) (fs : List (JsString × Reader)) (type : JsonType) : Reader where
  code := inlineMarker kind (codes fs) type
  form := markerForm kind (forms fs) type
  decode := markerDecode kind (decoders fs)
  ok := ⟨marker_reads, fun {s a rest} h hwf _ post => ⟨rest, .inl rfl, by
    rw [← Cursor.skipWs_before, inlineMarker_skip, marker_text h hwf post]⟩⟩

def parsedReader : Reader where
  code := orNull (rdParsed rt)
  form := Reads
  decode := parsedDecode rt
  ok := parsed_implements rt

/-- **Every field of a shape is implemented.** -/
theorem inlineFields_readers : ∀ (spec : JsonSpec calls) {entries : List (JsString × Code)},
    inlineFields rt dateParse spec = .ok entries → ∃ fs : List (JsString × Reader),
      entries = codes fs ∧ specForms spec = forms fs ∧
        specDecoders rt dateParse spec = decoders fs := by
  intro spec
  induction spec with
  | nil =>
    intro entries h
    cases h
    exact ⟨[], rfl, rfl, rfl⟩
  | type key t rest ih =>
    intro entries h
    obtain ⟨code, hcode, h⟩ := ok_of_bind h
    obtain ⟨entries, hentries, h⟩ := ok_of_bind h
    cases h
    obtain ⟨f, rfl, hform, hdecode⟩ := inlineType_reader rt dateParse hcode
    obtain ⟨fs, rfl, hforms, hdecoders⟩ := ih hentries
    refine ⟨(utf16 key, f) :: fs, rfl, ?_, ?_⟩
    · rw [specForms, hforms, ← hform]
      rfl
    · rw [specDecoders, hdecoders, ← hdecode]
      rfl
  | transform key m rest ih =>
    intro entries h
    obtain ⟨code, hcode, h⟩ := ok_of_bind h
    obtain ⟨entries, hentries, h⟩ := ok_of_bind h
    cases h
    obtain ⟨f, rfl, hform, hdecode⟩ := inlineType_reader rt dateParse hcode
    obtain ⟨fs, rfl, hforms, hdecoders⟩ := ih hentries
    refine ⟨(utf16 key, f) :: fs, rfl, ?_, ?_⟩
    · rw [specForms, hforms, ← hform]
      rfl
    · rw [specDecoders, hdecoders, ← hdecode]
      rfl
  | json key kind type literal spec rest ihs ih =>
    intro entries h
    obtain ⟨precise, hprecise, h⟩ := ok_of_bind h
    obtain ⟨code, hcode, h⟩ := ok_of_bind h
    obtain ⟨entries, hentries, h⟩ := ok_of_bind h
    cases h
    obtain ⟨fs, rfl, hforms, hdecoders⟩ := ih hentries
    cases precise with
    | false =>
      cases hcode
      refine ⟨(utf16 key, parsedReader rt) :: fs, rfl, ?_, ?_⟩
      · rw [specForms, hprecise, hforms]
        rfl
      · rw [specDecoders, hprecise, hdecoders]
        rfl
    | true =>
      obtain ⟨nested, hnested, hcode⟩ := ok_of_bind hcode
      cases hcode
      obtain ⟨fs', rfl, hforms', hdecoders'⟩ := ihs hnested
      refine ⟨(utf16 key, markerReader kind fs' type) :: fs, rfl, ?_, ?_⟩
      · rw [specForms, hprecise, hforms, hforms']
        rfl
      · rw [specDecoders, hprecise, hdecoders, hdecoders']
        rfl

end Scanner

/-! ### Sorted documents -/

/-- Members whose values have the forms that are declared for their keys. -/
inductive NamedMembers (entries : List (JsString × Form)) :
    JsString → List (JsString × Ast) → JsString → Prop
  | last {k form s t t' t'' r rest v} : skipWs s = 34 :: t → Chars t k t' → skipWs t' = 58 :: t'' →
      (k, form) ∈ entries → form t'' v r → skipWs r = 125 :: rest →
      NamedMembers entries s [(k, v)] rest
  | member {k form s t t' t'' r r' rest v ms} : skipWs s = 34 :: t → Chars t k t' →
      skipWs t' = 58 :: t'' → (k, form) ∈ entries → form t'' v r → skipWs r = 44 :: r' →
      NamedMembers entries r' ms rest → NamedMembers entries s ((k, v) :: ms) rest

section Sorted

variable {entries : List (JsString × Form)} {s rest : JsString} {ms : List (JsString × Ast)}

theorem form_unique (hnodup : (entries.map Prod.fst).Nodup) {k : JsString} {form form' : Form}
    (h : (k, form) ∈ entries) (h' : (k, form') ∈ entries) : form = form' := by
  have heq := List.inj_on_of_nodup_map hnodup h h' rfl
  exact (Prod.mk.inj heq).2

/-- Members that have the keys of a list of fields, in its order, are the members of these. -/
theorem NamedMembers.ordered (hnodup : (entries.map Prod.fst).Nodup)
    (h : NamedMembers entries s ms rest) : ∀ {fields : List (JsString × Form)},
    (∀ e ∈ fields, e ∈ entries) → fields.map Prod.fst = ms.map Prod.fst →
    MembersOf fields s ms rest := by
  induction h with
  | last hs hk hcol hmem hv hr =>
    intro fields hfields hkeys
    cases fields with
    | nil => cases hkeys
    | cons e fields =>
      obtain ⟨k, form⟩ := e
      obtain ⟨rfl, hrest⟩ := List.cons.inj hkeys
      obtain rfl := List.map_eq_nil_iff.mp hrest
      rw [form_unique hnodup hmem (hfields _ List.mem_cons_self)] at hv
      exact .last hs hk hcol hv hr
  | member hs hk hcol hmem hv hr _ ih =>
    intro fields hfields hkeys
    cases fields with
    | nil => cases hkeys
    | cons e fields =>
      obtain ⟨k, form⟩ := e
      obtain ⟨rfl, hrest⟩ := List.cons.inj hkeys
      rw [form_unique hnodup hmem (hfields _ List.mem_cons_self)] at hv
      exact .member hs hk hcol hv hr
        (ih (fun e he => hfields e (List.mem_cons_of_mem _ he)) hrest)

/-- An object of jsonb: the keys of the shape, sorted as the server sorts them. -/
structure IsSorted (entries : List (JsString × Form)) (s : JsString) (ms : List (JsString × Ast))
    (rest : JsString) : Prop where
  members : ∃ t, skipWs s = 123 :: t ∧ NamedMembers entries (skipWs t) ms rest
  keys : (ms.map Prod.fst).Perm (entries.map Prod.fst)
  distinct : (ms.map Prod.fst).Nodup
  wellFormed : ∀ k ∈ ms.map Prod.fst, isWellFormed k
  sorted : (ms.map Prod.fst).Pairwise fun a b => keyLe a b

theorem IsSorted.objectOf (h : IsSorted entries s ms rest) :
    ObjectOf entries .jsonb s (.object ms) rest := by
  obtain ⟨t, hs, hms⟩ := h.members
  have hwire := wireOrder_sorted h.keys h.wellFormed h.sorted
  have hperm := (wireOrder_perm entries .jsonb).map Prod.fst
  rw [List.zipIdx_map_fst] at hperm
  have hnodup : (entries.map Prod.fst).Nodup := h.keys.nodup_iff.mp h.distinct
  refine .members hs (hms.ordered hnodup (fun e he => hperm.mem_iff.mp he) ?_) fun e he => ?_
  · rw [List.map_map]
    exact hwire
  · exact List.count_eq_one_of_mem h.distinct (h.keys.mem_iff.mpr (List.mem_map_of_mem he))

end Sorted

/-- **A jsonb column is read in the order of the server**: whatever the order of the shape, an
object that has its keys, sorted, is what the shape makes of it by their names. -/
theorem jsonb_decodes (rt : Runtime) (dateParse : JsString → Double) {calls : List Call}
    {literal : Bool} {spec : JsonSpec calls} {code : Code}
    (hcode : genJsonParser rt dateParse ⟨.object, .jsonb, literal, spec⟩ = .ok (some code))
    {s rest : JsString} {ms : List (JsString × Ast)} (h : IsSorted (specForms spec) s ms rest)
    (hwf : isWellFormed s) (post : List UInt8) : code ⟨utf8 s, post⟩ =
      some (objectDecode (specDecoders rt dateParse spec) (.object ms), ⟨utf8 rest, post⟩) := by
  obtain ⟨precise, -, hcode⟩ := ok_of_bind hcode
  cases precise with
  | false => cases hcode
  | true =>
    obtain ⟨entries, hentries, hcode⟩ := ok_of_bind hcode
    cases hcode
    obtain ⟨fs, rfl, hforms, hdecoders⟩ := inlineFields_readers rt dateParse spec hentries
    have hobject := h.objectOf
    rw [hforms] at hobject
    rw [hdecoders]
    exact object_text hobject hwf post

/-! ### A document -/

section Document

/-- `Json({ id: 'bigint', tags: 'text[]', o: Json({ v: 'numeric' }) })`. -/
def orderMarker : JsonMarker [] :=
  ⟨.object, .json, true, .type "id" "bigint" (.type "tags" "text[]"
    (.json "o" .object .json true (.type "v" "numeric" .nil) .nil))⟩

/-- `"x":{}}` -/
def orderEnd : JsString := [34, 120, 34, 58, 123, 125, 125]

/-- `{"v":1.50} ,` and the end. -/
def orderNested : JsString := [123, 34, 118, 34, 58, 49, 46, 53, 48, 125, 32, 44] ++ orderEnd

/-- ` ["\n", null],"o":` and what follows. -/
def orderTags : JsString :=
  [32, 91, 34, 92, 110, 34, 44, 32, 110, 117, 108, 108, 93, 44, 34, 111, 34, 58] ++
    orderNested

/-- `{"id": 9007199254740993, "tags":` and what follows. -/
def orderText : JsString :=
  [123, 34, 105, 100, 34, 58] ++
    ([32, 57, 48, 48, 55, 49, 57, 57, 50, 53, 52, 55, 52, 48, 57, 57, 51, 44, 32] ++
      ([34, 116, 97, 103, 115, 34, 58] ++ orderTags))

def orderId : JsString := [57, 48, 48, 55, 49, 57, 57, 50, 53, 52, 55, 52, 48, 57, 57, 51]

def orderMembers : List (JsString × Ast) :=
  [([105, 100], .number orderId), ([116, 97, 103, 115], .array [.string [10], .null]),
    ([111], .object [([118], .number [49, 46, 53, 48])]), ([120], .object [])]

theorem reads_word {s t rest : JsString} {u : UInt16} {a : Ast} (hs : skipWs s = u :: t)
    (hu : u ≠ 123 ∧ u ≠ 91 ∧ u ≠ 34) (h : Json.parseWord (u :: t) = some (a, rest)) :
    Reads s a rest :=
  fuel_rules.word hs hu.1 hu.2.1 hu.2.2 h

/-- The field of the nested object. -/
def nestedSpec : JsonSpec [] := .type "v" "numeric" .nil

theorem orderNested_conforms : markerForm .object (specForms nestedSpec) .json orderNested
    (.object [([118], .number [49, 46, 53, 48])]) ([32, 44] ++ orderEnd) := by
  have hv : Leaf.Conforms .string ([49, 46, 53, 48, 125, 32, 44] ++ orderEnd)
      (.number [49, 46, 53, 48]) ([125, 32, 44] ++ orderEnd) :=
    ⟨reads_word rfl (by decide) rfl, .inr (.inl ⟨_, rfl⟩)⟩
  have hforms : specForms nestedSpec = [([118], Leaf.Conforms .string)] := rfl
  rw [hforms]
  refine ObjectOf.members rfl ?_ (by decide)
  exact .last rfl (Json.parseChars_iff.mp rfl) rfl hv rfl

theorem orderTags_conforms : Leaf.Conforms (.list .string) orderTags (.array [.string [10], .null])
    ([44, 34, 111, 34, 58] ++ orderNested) := by
  have hnull : ItemOf (Leaf.Conforms .string) (ListOf (Leaf.Conforms .string) 0)
      ([32, 110, 117, 108, 108, 93, 44, 34, 111, 34, 58] ++ orderNested) .null
      ([93, 44, 34, 111, 34, 58] ++ orderNested) :=
    ⟨reads_word rfl (by decide) rfl, .inl rfl⟩
  have hstring : ItemOf (Leaf.Conforms .string) (ListOf (Leaf.Conforms .string) 0)
      (orderTags.drop 2) (.string [10])
      ([44, 32, 110, 117, 108, 108, 93, 44, 34, 111, 34, 58] ++ orderNested) :=
    ⟨fuel_rules.string rfl rfl, .inr (.inr ⟨_, rfl⟩)⟩
  exact .inr ⟨1, .items rfl (.cons hstring rfl (.last hnull rfl))⟩

theorem order_conforms : Conforms orderMarker orderText (.object orderMembers) [] := by
  have hid : Leaf.Conforms .bigint (orderText.drop 6) (.number orderId)
      ([44, 32, 34, 116, 97, 103, 115, 34, 58] ++ orderTags) :=
    ⟨reads_word rfl (by decide) rfl, .inr (.inl ⟨_, rfl, rfl⟩)⟩
  have hforms : specForms orderMarker.spec = [([105, 100], Leaf.Conforms .bigint),
      ([116, 97, 103, 115], Leaf.Conforms (.list .string)),
      ([111], markerForm .object (specForms nestedSpec) .json)] := rfl
  have hend : ReadsMembers orderEnd [([120], .object [])] [] :=
    fuel_rules.lastMember rfl rfl rfl (fuel_rules.emptyObject rfl rfl) rfl
  unfold Conforms
  rw [hforms]
  refine ObjectOf.members rfl ?_ (by decide)
  refine .member rfl (Json.parseChars_iff.mp rfl) rfl hid rfl ?_
  refine .member rfl (Json.parseChars_iff.mp rfl) rfl orderTags_conforms rfl ?_
  exact .member rfl (Json.parseChars_iff.mp rfl) rfl orderNested_conforms rfl (.others hend)

/-- `Jsonb({ name: 'text', id: 'bigint' })`. -/
def personSpec : JsonSpec [] := .type "name" "text" (.type "id" "bigint" .nil)

/-- ` "name" : "a"}` -/
def personName : JsString := [32, 34, 110, 97, 109, 101, 34, 32, 58, 32, 34, 97, 34, 125]

/-- `{"id": -12,` and the name. -/
def personText : JsString := [123, 34, 105, 100, 34, 58] ++ ([32, 45, 49, 50, 44] ++ personName)

def personMembers : List (JsString × Ast) :=
  [([105, 100], .number [45, 49, 50]), ([110, 97, 109, 101], .string [97])]

theorem person_sorted : IsSorted (specForms personSpec) personText personMembers [] := by
  have hforms : specForms personSpec =
      [([110, 97, 109, 101], Leaf.Conforms .string), ([105, 100], Leaf.Conforms .bigint)] := rfl
  have hid : Leaf.Conforms .bigint (personText.drop 6) (.number [45, 49, 50])
      (44 :: personName) :=
    ⟨reads_word rfl (by decide) rfl, .inr (.inl ⟨_, rfl, rfl⟩)⟩
  have hname : Leaf.Conforms .string (personName.drop 9) (.string [97]) [125] :=
    ⟨fuel_rules.string rfl rfl, .inr (.inr ⟨_, rfl⟩)⟩
  rw [hforms]
  constructor
  case members =>
    refine ⟨personText.drop 1, rfl, ?_⟩
    refine .member rfl (Json.parseChars_iff.mp rfl) rfl ?_ hid rfl ?_
    · exact List.mem_cons_of_mem _ List.mem_cons_self
    · exact .last rfl (Json.parseChars_iff.mp rfl) rfl List.mem_cons_self hname rfl
  case keys => exact List.Perm.swap _ _ _
  case distinct => decide
  case wellFormed => decide
  case sorted => decide

/-- The shape has its keys the other way round. -/
theorem person_decodes : ∃ code,
    genJsonParser hexOnly.env.rt (fun _ => .nan) ⟨.object, .jsonb, true, personSpec⟩ =
        .ok (some code) ∧
      IsSorted (specForms personSpec) personText personMembers [] ∧
      code ⟨utf8 personText, [1]⟩ = some (.object [([110, 97, 109, 101], .value (.string [97])),
        ([105, 100], .value (.bigint (-12)))], ⟨[], [1]⟩) := by
  obtain ⟨code, hcode⟩ : ∃ code, genJsonParser hexOnly.env.rt (fun _ => .nan)
      ⟨.object, .jsonb, true, personSpec⟩ = .ok (some code) := ⟨_, rfl⟩
  have hwf : isWellFormed personText := wellFormed_of_ascii (forall_of_all (by decide))
  have hrun := jsonb_decodes hexOnly.env.rt (fun _ => .nan) hcode person_sorted hwf [1]
  exact ⟨code, hcode, person_sorted, hrun⟩

end Document

end Minipg.Shaped
