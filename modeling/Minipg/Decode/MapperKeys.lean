import Minipg.Decode.Mappers

/-!
# What the key of a mapper says

Read from the left, a key says what each column is as long as no label goes on past its end.
Columns with one key are then the same; where `:` may occur together with `,`, or in names and keys
of groups, or a dot in the key of a group, there are columns with one key and different rows.
-/

namespace Minipg.Mappers

open Js Cells Plans Delimited

variable {calls : List Call}

/-! ### The fields -/

theorem intText_char {i : Int} {c : Char} (h : c ∈ intText i) : c.isDigit = true ∨ c = '-' := by
  cases i with
  | ofNat n => exact .inl (isDigit_of_mem h)
  | negSucc n =>
    obtain rfl | h := List.mem_cons.mp h
    · exact .inr rfl
    · exact .inl (isDigit_of_mem h)

theorem not_mem_intText {i : Int} {c : Char} (h : c.isDigit = false ∧ c ≠ '-') :
    c ∉ intText i := by
  intro hc
  obtain hd | hd := intText_char hc
  · rw [hd] at h
    cases h.1
  · exact h.2 hd

theorem intText_ne_nil (i : Int) : intText i ≠ [] := by
  cases i with
  | ofNat n => exact Nat.toDigits_ne_nil
  | negSucc n => exact List.cons_ne_nil _ _

theorem intText_inj {i j : Int} (h : intText i = intText j) : i = j := by
  cases i with
  | ofNat n =>
    cases j with
    | ofNat m => rw [decimal_inj h]
    | negSucc m =>
      have hmem : '-' ∈ intText (Int.ofNat n) := by
        rw [h]
        exact List.mem_cons_self
      exact absurd hmem (not_mem_decimal (by decide))
  | negSucc n =>
    cases j with
    | ofNat m =>
      have hmem : '-' ∈ intText (Int.ofNat m) := by
        rw [← h]
        exact List.mem_cons_self
      exact absurd hmem (not_mem_decimal (by decide))
    | negSucc m => rw [Nat.succ_inj.mp (decimal_inj (List.cons.inj h).2)]

def formats : List Text := ["binary".toList, "text".toList, ['t']]

theorem formatText_mem (c : MapperCol calls) : c.formatText ∈ formats := by
  unfold MapperCol.formatText
  cases c.format <;> cases c.explicit <;> decide

theorem not_mem_format : ∀ f ∈ formats, ':' ∉ f := by decide

theorem bitsText_char {c : MapperCol calls} {b : Char} (h : b ∈ c.bitsText) :
    b = '0' ∨ b = '1' := by
  obtain ⟨g, -, rfl⟩ := List.mem_map.mp h
  split
  · exact .inr rfl
  · exact .inl rfl

theorem not_mem_bits {c : MapperCol calls} {b : Char} (h : b ≠ '0' ∧ b ≠ '1') :
    b ∉ c.bitsText := fun hb => (bitsText_char hb).elim h.1 h.2

theorem not_mem_nullable {c : MapperCol calls} {b : Char} (h : b ≠ 'n') : b ∉ c.nullableText := by
  unfold MapperCol.nullableText
  split <;> simp [h]

theorem not_mem_xform {c : MapperCol calls} {b : Char} (h : b.isDigit = false) :
    b ∉ c.xformText := by
  unfold MapperCol.xformText
  split
  · simp
  · exact not_mem_decimal h

/-- What follows a column: nothing, or the comma before the next one. -/
def Ends (r : Text) : Prop := r = [] ∨ ∃ s, r = ',' :: s

theorem ends_ne {x r u s : Text} (hr : Ends r) (hx : ':' ∉ x) (hu : ',' ∉ u) :
    x ++ r ≠ u ++ ':' :: s := by
  obtain rfl | ⟨s', rfl⟩ := hr
  · intro h
    rw [List.append_nil] at h
    rw [h] at hx
    simp at hx
  · exact apart (by decide) hx hu

/-! ### Where a name ends -/

/-- A number and a format: what follows the name of a column. -/
def Heading (s : Text) : Prop :=
  ∃ (o : Int) (f z : Text), f ∈ formats ∧ s = intText o ++ ':' :: (f ++ ':' :: z)

theorem typeFields_heading (c : MapperCol calls) (rest : Text) : Heading (c.typeFields rest) :=
  ⟨c.oid, c.formatText, _, formatText_mem c, rfl⟩

theorem heading_head {c : Char} {s : Text} (h : Heading (c :: s)) : c.isDigit = true ∨ c = '-' := by
  obtain ⟨o, f, z, -, h⟩ := h
  cases ho : intText o with
  | nil => exact absurd ho (intText_ne_nil o)
  | cons d t =>
    rw [ho] at h
    rw [(List.cons.inj h).1]
    exact intText_char (ho ▸ List.mem_cons_self)

theorem heading_field {u v : Text} (hu : ':' ∉ u) (h : Heading (u ++ ':' :: v)) :
    (∃ o, u = intText o) ∧ ∃ f ∈ formats, ∃ z, v = f ++ ':' :: z := by
  obtain ⟨o, f, z, hf, h⟩ := h
  obtain ⟨rfl, rfl⟩ := cut hu (not_mem_intText (by decide)) h
  exact ⟨⟨o, rfl⟩, f, hf, z, rfl⟩

theorem format_ne_nil : [] ∉ formats := by decide

theorem format_head : ∀ f ∈ formats, f.head? = some 'b' ∨ f.head? = some 't' := by decide

theorem format_ne_int {f : Text} {o : Int} (hf : f ∈ formats) : f ≠ intText o := by
  intro h
  have hhead := format_head f hf
  cases f with
  | nil => exact intText_ne_nil o h.symm
  | cons b t =>
    have hb : b.isDigit = true ∨ b = '-' := intText_char (i := o) (h ▸ List.mem_cons_self)
    obtain hhead | hhead := hhead <;> rw [Option.some.inj hhead] at hb <;>
      exact absurd hb (by decide)

/-- A text in which a number cannot begin where a column ends its type. -/
theorem not_heading_place {c : MapperCol calls} {r : Text} (hpath : ':' ∉ c.pathText) :
    ¬Heading (c.placeFields r) := by
  intro h
  obtain ⟨-, f, hf, z, h⟩ := heading_field hpath h
  obtain ⟨hbits, -⟩ := cut (not_mem_bits (by decide)) (not_mem_format f hf) h
  cases hb : c.bitsText with
  | nil =>
    rw [hb] at hbits
    exact format_ne_nil (hbits ▸ hf)
  | cons b t =>
    have hchar : b = '0' ∨ b = '1' := bitsText_char (hb ▸ List.mem_cons_self)
    have hhead := format_head f hf
    rw [← hbits, hb] at hhead
    obtain rfl | rfl := hchar <;> simp at hhead

theorem not_heading_inside {c : MapperCol calls} {r t s : Text} (hr : Ends r)
    (hpath : ':' ∉ c.pathText) (ht : ',' ∉ t) (h : c.placeFields r = t ++ ':' :: s) :
    ¬Heading s := by
  intro hs
  obtain ⟨rfl, rfl⟩ | ⟨t₁, rfl, h₁⟩ := past hpath h
  · obtain ⟨-, f, hf, z, hz⟩ := heading_field (not_mem_bits (by decide)) hs
    obtain ⟨hn, -⟩ := cut (not_mem_nullable (by decide)) (not_mem_format f hf) hz
    have hnot : c.nullableText ∉ formats := by
      unfold MapperCol.nullableText
      split <;> decide
    exact hnot (hn ▸ hf)
  obtain ⟨rfl, rfl⟩ | ⟨t₂, rfl, h₂⟩ := past (not_mem_bits (by decide)) h₁
  · obtain ⟨⟨o, ho⟩, -⟩ := heading_field (not_mem_nullable (by decide)) hs
    cases hn : c.nullableText with
    | nil => exact intText_ne_nil o (by rw [← ho, hn])
    | cons b t =>
      have hb := intText_char (i := o) (c := b) (by rw [← ho, hn]; exact List.mem_cons_self)
      have hmem : b ∈ c.nullableText := hn ▸ List.mem_cons_self
      obtain hb | rfl := hb
      · exact not_mem_nullable (by rintro rfl; revert hb; decide) hmem
      · exact not_mem_nullable (by decide) hmem
  obtain ⟨rfl, rfl⟩ | ⟨t₃, rfl, h₃⟩ := past (not_mem_nullable (by decide)) h₂
  · obtain ⟨o, f, z, hf, hs⟩ := hs
    exact ends_ne hr (not_mem_xform (by decide)) (not_mem_intText (by decide)) hs
  · refine ends_ne hr (not_mem_xform (by decide)) (fun hmem => ht ?_) h₃
    simp [hmem]

/-- A text without a comma does not go past a marker, and no number begins inside it. -/
theorem marker_past {m : JsonMarker calls} {rest t s : Text} (ht : ',' ∉ t)
    (h : m.text ++ rest = t ++ ':' :: s) : ¬Heading s := by
  intro hs
  have hkind : ':' ∉ quote m.kind.text := by cases m.kind <;> decide
  simp only [JsonMarker.text, markerText, List.cons_append, List.append_assoc] at h
  rw [← List.cons_append] at h
  obtain ⟨rfl, rfl⟩ | ⟨t₁, rfl, h₁⟩ := past (by decide) h
  · exact absurd (heading_head hs) (by decide)
  · exact apart (by decide) hkind (fun hmem => ht (by simp [hmem])) h₁

theorem typeFields_past {c : MapperCol calls} {rest t s : Text} (hjs : ':' ∉ targetText c.js)
    (harray : ':' ∉ c.arrayText) (ht : ',' ∉ t) (h : c.typeFields rest = t ++ ':' :: s)
    (hs : Heading s) : s = rest ∨ ∃ t', ',' ∉ t' ∧ rest = t' ++ ':' :: s := by
  obtain ⟨rfl, rfl⟩ | ⟨t₁, rfl, h₁⟩ := past (not_mem_intText (by decide)) h
  · obtain ⟨⟨o, ho⟩, -⟩ := heading_field (not_mem_format _ (formatText_mem c)) hs
    exact absurd ho (format_ne_int (formatText_mem c))
  obtain ⟨rfl, rfl⟩ | ⟨t₂, rfl, h₂⟩ := past (not_mem_format _ (formatText_mem c)) h₁
  · obtain ⟨-, f, hf, z, hz⟩ := heading_field hjs hs
    cases hjson : c.json with
    | none =>
      rw [MapperCol.jsonText, hjson] at hz
      cases f with
      | nil => exact absurd hf format_ne_nil
      | cons b f => exact absurd (not_mem_format _ hf) (by simp [← (List.cons.inj hz).1])
    | some m =>
      rw [MapperCol.jsonText, hjson] at hz
      have hhead := format_head f hf
      cases f with
      | nil => exact absurd hf format_ne_nil
      | cons b f =>
        obtain h | h := hhead <;> rw [← (List.cons.inj hz).1] at h <;>
          exact absurd (Option.some.inj h) (by decide)
  obtain ⟨rfl, rfl⟩ | ⟨t₃, rfl, h₃⟩ := past hjs h₂
  · unfold MapperCol.jsonText at hs
    split at hs
    · exact absurd (heading_head hs) (by decide)
    · exact absurd (heading_head hs) (by decide)
  have hcomma : ',' ∉ t₃ := fun hmem => ht (by simp [hmem])
  unfold MapperCol.jsonText at h₃
  split at h₃
  · obtain ⟨rfl, rfl⟩ | ⟨t₄, rfl, h₄⟩ := past (by simp) h₃
    · obtain ⟨⟨o, ho⟩, -⟩ := heading_field harray hs
      unfold MapperCol.arrayText at ho
      split at ho
      · exact absurd ho.symm (intText_ne_nil o)
      · have hmem := intText_char (i := o) (c := 'a') (by rw [← ho]; exact List.mem_cons_self)
        exact absurd hmem (by decide)
    obtain ⟨rfl, rfl⟩ | ⟨t₅, rfl, h₅⟩ := past harray h₄
    · exact .inl rfl
    · exact .inr ⟨t₅, fun hmem => hcomma (by simp [hmem]), h₅⟩
  · exact absurd hs (marker_past hcomma h₃)

/-! ### What two columns with one text have in common -/

/-- The target of a defined type is any string; those of the others are names. -/
def CleanTarget (js : Target) : Prop := ∀ t, js = some t → t ≠ "" ∧ ':' ∉ t.toList

theorem targetText_inj {js js' : Target} (h : CleanTarget js) (h' : CleanTarget js')
    (heq : targetText js = targetText js') : js = js' := by
  have heq : js.getD "" = js'.getD "" := String.toList_inj.mp heq
  cases js with
  | none =>
    cases js' with
    | none => rfl
    | some t => exact absurd heq.symm (h' t rfl).1
  | some t =>
    cases js' with
    | none => exact absurd heq (h t rfl).1
    | some t' => rw [show t = t' from heq]

theorem not_mem_target {js : Target} (h : CleanTarget js) : ':' ∉ targetText js := by
  cases js with
  | none => simp [targetText]
  | some t => exact (h t rfl).2

theorem arrayOid_elem {n m : Nat} (h : Bulk.arrayOid n = some m) :
    elemOid m = some ↑n ∨ m = 1020 ∧ n = 603 := by
  unfold Bulk.arrayOid at h
  split at h
  all_goals cases h
  all_goals first | exact .inl rfl | exact .inr ⟨rfl, rfl⟩

theorem isElem_unique {oid e e' : Int} (h : IsElem oid e) (h' : IsElem oid e') : e = e' := by
  obtain ⟨rfl, hneg⟩ | ⟨n, m, hn, rfl, rfl⟩ := h
  · obtain ⟨rfl, -⟩ | ⟨n', m', -, -, hm⟩ := h'
    · rfl
    · omega
  · obtain ⟨-, hneg⟩ | ⟨n', m', hn', rfl, hm⟩ := h'
    · omega
    · obtain rfl : m = m' := by omega
      obtain h | ⟨rfl, rfl⟩ := arrayOid_elem hn
      · obtain h' | ⟨rfl, rfl⟩ := arrayOid_elem hn'
        · exact Option.some.inj (h.symm.trans h')
        · cases h
      · obtain h' | ⟨-, rfl⟩ := arrayOid_elem hn'
        · cases h'
        · rfl

/-- The targets of a column are clean. -/
structure Clean (c : MapperCol calls) : Prop where
  js : CleanTarget c.js
  array : ∀ elem js, c.array = some (elem, js) → CleanTarget js

theorem not_mem_array {c : MapperCol calls} (h : Clean c) : ':' ∉ c.arrayText := by
  unfold MapperCol.arrayText
  split
  · simp
  · next elem js harray =>
    simp only [List.mem_cons, List.mem_append, not_or]
    exact ⟨by decide, not_mem_intText (by decide), not_mem_target (h.array elem js harray)⟩

theorem arrayText_inj {a b : MapperCol calls} (ha : Clean a) (hb : Clean b) (hoid : a.oid = b.oid)
    (h : a.arrayText = b.arrayText) : a.array = b.array := by
  unfold MapperCol.arrayText at h
  split at h
  · split at h
    · next h₁ _ h₂ => rw [h₁, h₂]
    · cases h
  · split at h
    · cases h
    · next elem js h₁ _ elem' js' h₂ =>
      obtain rfl := isElem_unique (a.array_elem _ _ h₁) (hoid ▸ b.array_elem _ _ h₂)
      have hjs := targetText_inj (ha.array _ _ h₁) (hb.array _ _ h₂)
        (List.append_cancel_left (List.cons.inj h).2)
      rw [h₁, h₂, hjs]

theorem formatText_inj {a b : MapperCol calls} (h : a.formatText = b.formatText) :
    a.format = b.format ∧ a.explicit = b.explicit := by
  have key : ∀ f e f' e', formatText f e = formatText f' e' → f = f' ∧ (f = .text → e = e') := by
    intro f e f' e'
    cases f <;> cases f' <;> cases e <;> cases e' <;> decide
  have implicit : ∀ c : MapperCol calls, c.format = .binary → c.explicit = false := by
    intro c hc
    by_contra hne
    rw [c.explicit_text (by simpa using hne)] at hc
    cases hc
  obtain ⟨hformat, hexplicit⟩ := key _ _ _ _ h
  refine ⟨hformat, ?_⟩
  cases ha : a.format with
  | text => exact hexplicit ha
  | binary => exact (implicit a ha).trans (implicit b (hformat ▸ ha)).symm

theorem jsonText_cut {a b : MapperCol calls} {x y : Text}
    (h : a.jsonText ++ ':' :: x = b.jsonText ++ ':' :: y) : a.json = b.json ∧ x = y := by
  unfold MapperCol.jsonText at h
  split at h
  · split at h
    · next h₁ _ h₂ => exact ⟨h₁.trans h₂.symm, (List.cons.inj h).2⟩
    · exact absurd (List.cons.inj h).1 (by decide)
  · split at h
    · exact absurd (List.cons.inj h).1 (by decide)
    · next h₁ _ m' h₂ =>
      obtain ⟨rfl, hx⟩ := JsonMarker.text_selfEnding _ _ _ _ h
      exact ⟨h₁.trans h₂.symm, (List.cons.inj hx).2⟩

theorem typeFields_cut {a b : MapperCol calls} {x y : Text} (ha : Clean a) (hb : Clean b)
    (h : a.typeFields x = b.typeFields y) :
    a.toColumn = b.toColumn ∧ a.explicit = b.explicit ∧ x = y := by
  obtain ⟨hoid, h₁⟩ := cut (not_mem_intText (by decide)) (not_mem_intText (by decide)) h
  obtain ⟨hformat, h₂⟩ := cut (not_mem_format _ (formatText_mem a))
    (not_mem_format _ (formatText_mem b)) h₁
  obtain ⟨hjs, h₃⟩ := cut (not_mem_target ha.js) (not_mem_target hb.js) h₂
  obtain ⟨hjson, h₄⟩ := jsonText_cut h₃
  obtain ⟨harray, hxy⟩ := cut (not_mem_array ha) (not_mem_array hb) h₄
  have hoid := intText_inj hoid
  have harray := arrayText_inj ha hb hoid harray
  have hjs := targetText_inj ha.js hb.js hjs
  obtain ⟨hformat, hexplicit⟩ := formatText_inj hformat
  refine ⟨?_, hexplicit, hxy⟩
  obtain ⟨⟨⟨⟩⟩⟩ := a
  obtain ⟨⟨⟨⟩⟩⟩ := b
  cases hoid
  cases harray
  cases hjs
  cases hformat
  cases hjson
  rfl

/-! ### Labels -/

/-- A label that is written in letters, digits and the characters of `set`. -/
def Over (set : Set Char) (s : String) : Prop := ∀ c ∈ s.toList, c.isAlphanum = true ∨ c ∈ set

/-- A column whose name is written with `names`, and the keys of whose groups with `keys`. -/
structure Written (names keys : Set Char) (c : MapperCol calls) : Prop extends Clean c where
  name : Over names c.name
  groups : ∀ g ∈ c.groups, Over keys g.1

theorem Over.not_mem {set : Set Char} {s : String} {c : Char} (h : Over set s)
    (hc : c.isAlphanum = false) (hset : c ∉ set) : c ∉ s.toList := by
  intro hmem
  obtain h | h := h c hmem
  · rw [hc] at h
    cases h
  · exact hset h

theorem Written.not_mem_path {names keys : Set Char} {c : MapperCol calls} {x : Char}
    (h : Written names keys c) (hx : x.isAlphanum = false) (hdot : x ≠ '.') (hset : x ∉ keys) :
    x ∉ c.pathText := by
  refine not_mem_join hdot fun u hu => ?_
  obtain ⟨g, hg, rfl⟩ := List.mem_map.mp hu
  exact (h.groups g hg).not_mem hx hset

/-- Where `:` and `,` may occur in the labels. -/
structure Safe (names keys : Set Char) : Prop where
  no_dot : '.' ∉ keys
  in_name : ¬(':' ∈ names ∧ ',' ∈ names)
  in_key : ¬(':' ∈ keys ∧ ',' ∈ keys)
  in_both : ¬(':' ∈ names ∧ ':' ∈ keys)

section Cut

variable {names keys : Set Char} {a b : MapperCol calls} {r s : Text}

theorem name_ends (hsafe : Safe names keys) (ha : Written names keys a) (hb : Written names keys b)
    (hr : Ends r) {t : Text} (hname : b.name.toList = a.name.toList ++ ':' :: t) :
    a.typeFields (a.placeFields r) ≠ t ++ ':' :: b.typeFields (b.placeFields s) := by
  intro h
  have hcolon : ':' ∈ names := by
    by_contra hset
    exact hb.name.not_mem (by decide) hset (by simp [hname])
  have hcomma : ',' ∉ t := by
    intro hmem
    exact hb.name.not_mem (c := ',') (by decide) (fun hset => hsafe.in_name ⟨hcolon, hset⟩)
      (by simp [hname, hmem])
  have hpath : ':' ∉ a.pathText :=
    ha.not_mem_path (by decide) (by decide) fun hset => hsafe.in_both ⟨hcolon, hset⟩
  have hs := typeFields_heading b (b.placeFields s)
  obtain h | ⟨t', ht', h⟩ := typeFields_past (not_mem_target ha.js) (not_mem_array ha.toClean)
    hcomma h hs
  · exact not_heading_place hpath (h ▸ hs)
  · exact not_heading_inside hr hpath ht' h hs

theorem path_ends (hsafe : Safe names keys) (hb : Written names keys b) (hr : Ends r) {t : Text}
    (hpath : b.pathText = a.pathText ++ ':' :: t) :
    a.bitsText ++ ':' :: (a.nullableText ++ ':' :: (a.xformText ++ r)) ≠
      t ++ ':' :: (b.bitsText ++ ':' :: (b.nullableText ++ ':' :: (b.xformText ++ s))) := by
  intro h
  have hcolon : ':' ∈ keys := by
    by_contra hset
    exact hb.not_mem_path (by decide) (by decide) hset (by simp [hpath])
  have hcomma : ',' ∉ t := by
    intro hmem
    exact hb.not_mem_path (x := ',') (by decide) (by decide)
      (fun hset => hsafe.in_key ⟨hcolon, hset⟩)
      (by simp [hpath, hmem])
  have hx : ':' ∉ a.xformText := not_mem_xform (by decide)
  obtain ⟨rfl, h₁⟩ | ⟨t₁, rfl, h₁⟩ := past (not_mem_bits (by decide)) h
  · obtain ⟨-, h₂⟩ := cut (not_mem_nullable (by decide)) (not_mem_bits (by decide)) h₁
    exact ends_ne hr hx (not_mem_nullable (by decide)) h₂
  obtain ⟨rfl, h₂⟩ | ⟨t₂, rfl, h₂⟩ := past (not_mem_nullable (by decide)) h₁
  · exact ends_ne hr hx (not_mem_bits (by decide)) h₂
  · exact ends_ne hr hx (fun hmem => hcomma (by simp [hmem])) h₂

theorem ends_cut {x y : Text} (hr : Ends r) (hs : Ends s) (hx : ',' ∉ x) (hy : ',' ∉ y)
    (h : x ++ r = y ++ s) : x = y ∧ r = s := by
  obtain rfl | ⟨r, rfl⟩ := hr
  · obtain rfl | ⟨s, rfl⟩ := hs
    · exact ⟨by simpa using h, rfl⟩
    · rw [List.append_nil] at h
      exact absurd (h ▸ by simp) hx
  · obtain rfl | ⟨s, rfl⟩ := hs
    · rw [List.append_nil] at h
      exact absurd (h ▸ by simp) hy
    · obtain ⟨hxy, hrs⟩ := cut hx hy h
      exact ⟨hxy, by rw [hrs]⟩

theorem groups_inj (hdot : '.' ∉ keys) (ha : Written names keys a) (hb : Written names keys b)
    (hpath : a.pathText = b.pathText) (hbits : a.bitsText = b.bitsText) : a.groups = b.groups := by
  have segments : ∀ c : MapperCol calls, Written names keys c →
      ∀ u ∈ c.groups.map (·.1.toList), '.' ∉ u := by
    intro c hc u hu
    obtain ⟨g, hg, rfl⟩ := List.mem_map.mp hu
    exact (hc.groups g hg).not_mem (by decide) hdot
  have hlen : a.groups.length = b.groups.length := by
    have := congrArg List.length hbits
    simpa [MapperCol.bitsText] using this
  have hkeys := join_inj (segments a ha) (segments b hb) (by simpa using hlen) hpath
  have hfst : a.groups.map Prod.fst = b.groups.map Prod.fst := by
    have hinj : Function.Injective String.toList := fun s t h => String.toList_inj.mp h
    refine List.map_injective_iff.mpr hinj ?_
    rw [List.map_map, List.map_map]
    exact hkeys
  have hsnd : a.groups.map Prod.snd = b.groups.map Prod.snd := by
    have hinj : Function.Injective fun b : Bool => if b then '1' else '0' := by
      intro x y
      revert x y
      decide
    refine List.map_injective_iff.mpr hinj ?_
    rw [List.map_map, List.map_map]
    exact hbits
  rw [← List.zip_unzip a.groups, ← List.zip_unzip b.groups, List.unzip_eq_map, List.unzip_eq_map,
    hfst, hsnd]

theorem placeFields_cut (hsafe : Safe names keys) (ha : Written names keys a)
    (hb : Written names keys b) (hr : Ends r) (hs : Ends s)
    (h : a.placeFields r = b.placeFields s) :
    a.groups = b.groups ∧ a.nullable = b.nullable ∧ a.xform = b.xform ∧ r = s := by
  obtain ⟨hpath, h₁⟩ : a.pathText = b.pathText ∧ _ := by
    obtain h | ⟨t, ht, h⟩ | ⟨t, ht, h⟩ := cut_or_longer h
    · exact h
    · exact absurd h (path_ends hsafe hb hr ht)
    · exact absurd h (path_ends hsafe ha hs ht)
  obtain ⟨hbits, h₂⟩ := cut (not_mem_bits (by decide)) (not_mem_bits (by decide)) h₁
  obtain ⟨hnullable, h₃⟩ := cut (not_mem_nullable (by decide)) (not_mem_nullable (by decide)) h₂
  obtain ⟨hxform, hrs⟩ := ends_cut hr hs (not_mem_xform (by decide)) (not_mem_xform (by decide)) h₃
  refine ⟨groups_inj hsafe.no_dot ha hb hpath hbits, ?_, ?_, hrs⟩
  · unfold MapperCol.nullableText at hnullable
    cases hn : a.nullable <;> cases hn' : b.nullable <;> simp [hn, hn'] at hnullable <;> rfl
  · unfold MapperCol.xformText at hxform
    split at hxform
    · split at hxform
      · next h₁ _ h₂ => rw [h₁, h₂]
      · exact absurd hxform.symm Nat.toDigits_ne_nil
    · split at hxform
      · exact absurd hxform Nat.toDigits_ne_nil
      · next h₁ _ m' h₂ =>
        rw [h₁, h₂, TransformMarker.eq_of_id (decimal_inj hxform)]

theorem keyText_cut (hsafe : Safe names keys) (ha : Written names keys a)
    (hb : Written names keys b) (hr : Ends r) (hs : Ends s) (h : a.keyText r = b.keyText s) :
    a = b ∧ r = s := by
  obtain ⟨hname, h₁⟩ : a.name.toList = b.name.toList ∧ _ := by
    obtain h | ⟨t, ht, h⟩ | ⟨t, ht, h⟩ := cut_or_longer h
    · exact h
    · exact absurd h (name_ends hsafe ha hb hr ht)
    · exact absurd h (name_ends hsafe hb ha hs ht)
  obtain ⟨hcolumn, hexplicit, h₂⟩ := typeFields_cut ha.toClean hb.toClean h₁
  obtain ⟨hgroups, hnullable, hxform, hrs⟩ := placeFields_cut hsafe ha hb hr hs h₂
  refine ⟨MapperCol.eq_of hcolumn ?_ hexplicit hgroups hxform hnullable, hrs⟩
  exact String.toList_inj.mp hname

end Cut

/-! ### Lists of columns -/

theorem keyText_ne_nil (c : MapperCol calls) (r : Text) : c.keyText r ≠ [] := by
  unfold MapperCol.keyText
  simp

/-- What follows the first column. -/
def restText : List (MapperCol calls) → Text
  | [] => []
  | c :: cols => ',' :: columnsText (c :: cols)

theorem columnsText_cons (c : MapperCol calls) (cols : List (MapperCol calls)) :
    columnsText (c :: cols) = c.keyText (restText cols) := by
  cases cols <;> rfl

theorem ends_rest (cols : List (MapperCol calls)) : Ends (restText cols) := by
  cases cols with
  | nil => exact .inl rfl
  | cons c cols => exact .inr ⟨_, rfl⟩

theorem columnsText_inj {names keys : Set Char} (hsafe : Safe names keys) :
    ∀ {as bs : List (MapperCol calls)}, (∀ a ∈ as, Written names keys a) →
      (∀ b ∈ bs, Written names keys b) → columnsText as = columnsText bs → as = bs
  | [], [], _, _, _ => rfl
  | [], b :: bs, _, _, h => by
    rw [columnsText_cons] at h
    exact absurd h.symm (keyText_ne_nil b _)
  | a :: as, [], _, _, h => by
    rw [columnsText_cons] at h
    exact absurd h (keyText_ne_nil a _)
  | a :: as, b :: bs, ha, hb, h => by
    rw [columnsText_cons, columnsText_cons] at h
    obtain ⟨rfl, hrest⟩ := keyText_cut hsafe (ha a (by simp)) (hb b (by simp)) (ends_rest as)
      (ends_rest bs) h
    cases as with
    | nil =>
      cases bs with
      | nil => rfl
      | cons b' bs => cases hrest
    | cons a' as =>
      cases bs with
      | nil => cases hrest
      | cons b' bs =>
        rw [columnsText_inj hsafe (fun c hc => ha c (by simp [hc]))
          (fun c hc => hb c (by simp [hc])) (List.cons.inj hrest).2]

theorem textInstant_clean {c d : Column (JsonMarker calls)} (hd : textInstant c = some d)
    (hjs : CleanTarget c.js) (harray : ∀ elem js, c.array = some (elem, js) → CleanTarget js) :
    CleanTarget d.js ∧ ∀ elem js, d.array = some (elem, js) → CleanTarget js := by
  have hstring : CleanTarget (some "string") := by
    rintro t ⟨⟩
    decide
  unfold textInstant at hd
  split at hd
  · cases hd
    exact ⟨hstring, harray⟩
  · unfold Column.elementsAsText at hd
    split at hd
    · split at hd
      · cases hd
        refine ⟨hjs, fun elem js h => ?_⟩
        cases h
        exact hstring
      · cases hd
    · cases hd

theorem tagArrayCol_clean {c : Column (JsonMarker calls)}
    (harray : ∀ elem js, c.array = some (elem, js) → CleanTarget js) :
    ∀ elem js, (tagArrayCol c).array = some (elem, js) → CleanTarget js := by
  unfold tagArrayCol
  split
  · exact harray
  · split
    · exact harray
    · intro elem js h
      cases h
      intro t ht
      cases ht

theorem Written.resolve {names keys : Set Char} {c : MapperCol calls} (cfg : PlanConfig)
    (h : Written names keys c) : Written names keys (c.resolve cfg) := by
  have htag := tagArrayCol_clean h.array
  have hjs : CleanTarget (tagArrayCol c.toColumn).js := by
    rw [(tagArrayCol_eq c.toColumn).2.1]
    exact h.js
  have hclean : CleanTarget (Connection.resolveCol cfg c.toColumn).js ∧
      ∀ elem js, (Connection.resolveCol cfg c.toColumn).array = some (elem, js) →
        CleanTarget js := by
    rw [resolveCol_eq]
    split
    · cases hd : textInstant (tagArrayCol c.toColumn) with
      | none => exact ⟨hjs, htag⟩
      | some d => exact textInstant_clean hd hjs htag
    · exact ⟨hjs, htag⟩
  exact { js := hclean.1, array := hclean.2, name := h.name, groups := h.groups }

theorem modeText_inj {m m' : Rows.RowMode} (h : modeText m = modeText m') : m = m' := by
  cases m <;> cases m' <;> first | rfl | exact absurd h (by decide)

/-- One key, one mapper. -/
theorem mapper_eq {names keys : Set Char} (hsafe : Safe names keys) (cfg : PlanConfig)
    (dec : Decoding (JsonMarker calls)) {as bs : List (MapperCol calls)} {m m' : Rows.RowMode}
    (ha : ∀ a ∈ as, Written names keys a) (hb : ∀ b ∈ bs, Written names keys b)
    (h : mapperKey cfg as m = mapperKey cfg bs m') :
    getMapper cfg dec as m = getMapper cfg dec bs m' := by
  have hbar : ∀ m : Rows.RowMode, '|' ∉ modeText m := by
    intro m
    cases m <;> decide
  obtain ⟨hm, hcols⟩ := cut (hbar m) (hbar m') h
  obtain rfl := modeText_inj hm
  have resolved : ∀ {cs : List (MapperCol calls)}, (∀ c ∈ cs, Written names keys c) →
      ∀ c ∈ cs.map (·.resolve cfg), Written names keys c := by
    intro cs hcs c hc
    obtain ⟨c, hmem, rfl⟩ := List.mem_map.mp hc
    exact (hcs c hmem).resolve cfg
  have heq := columnsText_inj hsafe (resolved ha) (resolved hb) hcols
  funext row
  unfold getMapper
  rw [heq]

/-! ### Columns that share a key -/

/-- A column of text. -/
def textCol (name : String) (groups : List (String × Bool)) : MapperCol calls where
  toColumn := .plain 25 .text
  name
  groups
  array_elem _ _ h := by cases h
  explicit_text h := by cases h

theorem textCol_resolve (cfg : PlanConfig) (name : String) (groups : List (String × Bool)) :
    (textCol name groups : MapperCol calls).resolve cfg = textCol name groups := by
  refine MapperCol.eq_of ?_ rfl ?_ rfl rfl rfl
  · show Connection.resolveCol cfg (.plain 25 .text : Column (JsonMarker calls)) = _
    rw [resolveCol_eq]
    split <;> rfl
  · refine decide_eq_false ?_
    rintro (h | ⟨-, -, -, h⟩)
    · cases h
    · revert h
      show ¬(25 : Int) ∈ instantOids
      decide

theorem textCol_keyText (name : String) (groups : List (String × Bool)) (r : Text) :
    (textCol name groups : MapperCol calls).keyText r = name.toList ++ ":25:t::::".toList ++
      (textCol name groups : MapperCol calls).placeFields r := by
  have hoid : intText 25 = ['2', '5'] := by decide
  unfold MapperCol.keyText MapperCol.typeFields
  rw [show (textCol name groups : MapperCol calls).oid = 25 from rfl, hoid, List.append_assoc]
  rfl

/-- The name of a column, and the groups that it is in. -/
abbrev Label := String × List (String × Bool)

def textCols (calls : List Call) (ls : List Label) : List (MapperCol calls) :=
  ls.map fun l => textCol l.1 l.2

theorem textCols_resolve (cfg : PlanConfig) (ls : List Label) :
    (textCols calls ls).map (·.resolve cfg) = textCols calls ls := by
  unfold textCols
  rw [List.map_map]
  exact List.map_congr_left fun l _ => textCol_resolve cfg l.1 l.2

theorem textCols_written {names keys : Set Char} {ls : List Label}
    (h : ∀ l ∈ ls, Over names l.1 ∧ ∀ g ∈ l.2, Over keys g.1) :
    ∀ c ∈ textCols calls ls, Written names keys c := by
  intro c hc
  obtain ⟨l, hl, rfl⟩ := List.mem_map.mp hc
  exact ⟨⟨nofun, nofun⟩, (h l hl).1, (h l hl).2⟩

theorem collect_nulls (cfg : PlanConfig) (dec : Decoding (JsonMarker calls)) : ∀ (ls : List Label)
    (k : Nat), ls.length ≤ k →
    collect (fun p => decodeCell cfg dec p.1 p.2)
      (((textCols calls ls).map (·.toColumn)).zip (List.replicate k none)) =
      .ok (List.replicate ls.length none)
  | [], _, _ => rfl
  | l :: ls, 0, h => absurd h (by simp)
  | l :: ls, k + 1, h => by
    obtain ⟨d, hd⟩ : ∃ d, decoder cfg dec (textCol l.1 l.2 : MapperCol calls).toColumn = .ok d :=
      text_decoder rfl
    have hrest := collect_nulls cfg dec ls k (by simpa using h)
    simp only [textCols, List.map_cons, List.replicate_succ, List.zip_cons_cons, collect,
      decodeCell, hd]
    exact congrArg (fun x => x >>= fun vs => .ok (none :: vs)) hrest

theorem getMapper_nulls (cfg : PlanConfig) (dec : Decoding (JsonMarker calls)) (ls : List Label)
    (mode : Rows.RowMode) {k : Nat} (h : ls.length ≤ k) :
    getMapper cfg dec (textCols calls ls) mode (List.replicate k none) =
      assemble cfg ((textCols calls ls).map (·.place)) mode
        (List.replicate ls.length none) := by
  have hlen : (textCols calls ls).length = ls.length := List.length_map _
  have hcells : cellsOf ls.length (List.replicate k none) = List.replicate ls.length none := by
    refine List.ext_getElem (by simp [cellsOf]) fun i hi hi' => ?_
    have hik : i < k := by
      rw [List.length_replicate] at hi'
      omega
    simp [cellsOf, hik]
  show decodeRow cfg dec _ mode (List.zip _ (cellsOf (List.length _) _)) = _
  rw [textCols_resolve, hlen, hcells, decodeRow, collect_nulls cfg dec ls _ le_rfl]
  rfl

/-- The row of nulls of some columns. -/
def nullRow (cfg : PlanConfig) (cols : List (MapperCol calls)) : Except Failure Row :=
  assemble cfg (cols.map (·.place)) .object (List.replicate cols.length none)

/-- Two lists of columns with one text whose rows of nulls are different. -/
structure Confused (cfg : PlanConfig) (calls : List Call) (ls ls' : List Label) : Prop where
  text : columnsText (textCols calls ls) = columnsText (textCols calls ls')
  rows : nullRow cfg (textCols calls ls) ≠
    nullRow cfg (textCols calls ls')

theorem Confused.shared {cfg : PlanConfig} {ls ls' : List Label} (h : Confused cfg calls ls ls')
    (dec : Decoding (JsonMarker calls)) :
    mapperKey cfg (textCols calls ls) .object =
        mapperKey cfg (textCols calls ls') .object ∧
      ∃ row, getMapper cfg dec (textCols calls ls) .object row ≠
        getMapper cfg dec (textCols calls ls') .object row := by
  refine ⟨?_, List.replicate (max ls.length ls'.length) none, ?_⟩
  · unfold mapperKey
    rw [textCols_resolve, textCols_resolve, h.text]
  · rw [getMapper_nulls cfg dec ls .object (le_max_left _ _),
      getMapper_nulls cfg dec ls' .object (le_max_right _ _)]
    have hrows := h.rows
    unfold nullRow at hrows
    rwa [textCols, textCols, List.length_map, List.length_map] at hrows

variable (cfg : PlanConfig)

/-- The name of a column holds the end of another column. -/
theorem name_confused : Confused cfg calls [("x", []), ("y", [])] [("x:25:t:::::::,y", [])] where
  text := by
    simp only [textCols, List.map_cons, List.map_nil, columnsText, textCol_keyText]
    rfl
  rows := by
    have hleft : nullRow cfg (textCols calls [("x", []), ("y", [])]) =
        .ok (.object [("x", .cell none), ("y", .cell none)]) := by
      cases hcfg : cfg.engine <;> simp only [nullRow, assemble, hcfg] <;> rfl
    have hright : nullRow cfg (textCols calls [("x:25:t:::::::,y", [])]) =
        .ok (.object [("x:25:t:::::::,y", .cell none)]) := by
      cases hcfg : cfg.engine <;> simp only [nullRow, assemble, hcfg] <;> rfl
    rw [hleft, hright]
    simp

/-- The key of a group does. -/
theorem key_confused : Confused cfg calls [("x", [("p", false)]), ("y", [("p", false)])]
    [("x", [("p:0::,y:25:t::::p", false)])] where
  text := by
    simp only [textCols, List.map_cons, List.map_nil, columnsText, textCol_keyText]
    rfl
  rows := by
    have hleft : nullRow cfg (textCols calls [("x", [("p", false)]), ("y", [("p", false)])]) =
        .ok (.object [("p", .object [("x", .cell none), ("y", .cell none)])]) := by
      cases hcfg : cfg.engine <;> simp only [nullRow, assemble, hcfg] <;> rfl
    have hright : nullRow cfg (textCols calls [("x", [("p:0::,y:25:t::::p", false)])]) =
        .ok (.object [("p:0::,y:25:t::::p", .object [("x", .cell none)])]) := by
      cases hcfg : cfg.engine <;> simp only [nullRow, assemble, hcfg] <;> rfl
    rw [hleft, hright]
    simp

/-- The type of a column is read in the key of its group, or in its name. -/
theorem both_confused : Confused cfg calls [("x", [("u:25:t::::w", false)])]
    [("x:25:t::::u", [("w", false)])] where
  text := by
    simp only [textCols, List.map_cons, List.map_nil, columnsText, textCol_keyText]
    rfl
  rows := by
    have hleft : nullRow cfg (textCols calls [("x", [("u:25:t::::w", false)])]) =
        .ok (.object [("u:25:t::::w", .object [("x", .cell none)])]) := by
      cases hcfg : cfg.engine <;> simp only [nullRow, assemble, hcfg] <;> rfl
    have hright : nullRow cfg (textCols calls [("x:25:t::::u", [("w", false)])]) =
        .ok (.object [("w", .object [("x:25:t::::u", .cell none)])]) := by
      cases hcfg : cfg.engine <;> simp only [nullRow, assemble, hcfg] <;> rfl
    rw [hleft, hright]
    simp

/-- A dot, between two groups or in the key of one. -/
theorem dot_confused : Confused cfg calls [("x", [("a.b", false), ("c", false)])]
    [("x", [("a", false), ("b.c", false)])] where
  text := by
    simp only [textCols, List.map_cons, List.map_nil, columnsText, textCol_keyText]
    rfl
  rows := by
    have hleft : nullRow cfg (textCols calls [("x", [("a.b", false), ("c", false)])]) =
        .ok (.object [("a.b", .object [("c", .object [("x", .cell none)])])]) := by
      cases hcfg : cfg.engine <;> simp only [nullRow, assemble, hcfg] <;> rfl
    have hright : nullRow cfg (textCols calls [("x", [("a", false), ("b.c", false)])]) =
        .ok (.object [("a", .object [("b.c", .object [("x", .cell none)])])]) := by
      cases hcfg : cfg.engine <;> simp only [nullRow, assemble, hcfg] <;> rfl
    rw [hleft, hright]
    simp

/-- Labels over two lists of characters. -/
def overAll (n k : List Char) (ls : List Label) : Bool :=
  ls.all fun l => (l.1.toList.all fun c => c.isAlphanum || n.contains c) &&
    l.2.all fun g => g.1.toList.all fun c => c.isAlphanum || k.contains c

theorem over_of_overAll {names keys : Set Char} {n k : List Char} {ls : List Label}
    (h : overAll n k ls = true) (hn : ∀ c ∈ n, c ∈ names) (hk : ∀ c ∈ k, c ∈ keys) :
    ∀ l ∈ ls, Over names l.1 ∧ ∀ g ∈ l.2, Over keys g.1 := by
  simp only [overAll, List.all_eq_true, Bool.and_eq_true, Bool.or_eq_true,
    List.contains_iff_mem] at h
  intro l hl
  obtain ⟨hname, hgroups⟩ := h l hl
  exact ⟨fun c hc => (hname c hc).imp_right (hn c),
    fun g hg c hc => (hgroups g hg c hc).imp_right (hk c)⟩

/-- Over what labels a key says all that matters. -/
theorem shared_key_iff (dec : Decoding (JsonMarker calls)) (names keys : Set Char) :
    (∀ (as bs : List (MapperCol calls)) (m m' : Rows.RowMode), (∀ a ∈ as, Written names keys a) →
      (∀ b ∈ bs, Written names keys b) → mapperKey cfg as m = mapperKey cfg bs m' →
        ∀ row, getMapper cfg dec as m row = getMapper cfg dec bs m' row) ↔ Safe names keys := by
  constructor
  · intro h
    have refute : ∀ {ls ls' : List Label}, Confused cfg calls ls ls' →
        (∀ l ∈ ls ++ ls', Over names l.1 ∧ ∀ g ∈ l.2, Over keys g.1) → False := by
      intro ls ls' hconfused hover
      obtain ⟨hkey, row, hrow⟩ := hconfused.shared dec
      exact hrow (h _ _ _ _ (textCols_written fun l hl => hover l (by simp [hl]))
        (textCols_written fun l hl => hover l (by simp [hl])) hkey row)
    have written : ∀ {ls : List Label} (n k : List Char), overAll n k ls = true →
        (∀ c ∈ n, c ∈ names) → (∀ c ∈ k, c ∈ keys) →
          ∀ l ∈ ls, Over names l.1 ∧ ∀ g ∈ l.2, Over keys g.1 :=
      fun _ _ => over_of_overAll
    refine ⟨fun hdot => ?_, fun ⟨hcolon, hcomma⟩ => ?_, fun ⟨hcolon, hcomma⟩ => ?_,
      fun ⟨hname, hkey⟩ => ?_⟩
    · exact refute (dot_confused cfg) (written [] ['.'] rfl (by simp) (by simpa using hdot))
    · exact refute (name_confused cfg) (written [':', ','] [] rfl
        (by simpa using ⟨hcolon, hcomma⟩) (by simp))
    · exact refute (key_confused cfg) (written [] [':', ','] rfl (by simp)
        (by simpa using ⟨hcolon, hcomma⟩))
    · exact refute (both_confused cfg) (written [':'] [':'] rfl (by simpa using hname)
        (by simpa using hkey))
  · intro hsafe as bs m m' ha hb hkey row
    rw [mapper_eq hsafe cfg dec ha hb hkey]

/-- Nothing is asked of a JSON column here. -/
def plainDecoding : Decoding (JsonMarker []) where
  env := hexOnly.env
  json _ _ _ _ _ := .error (.other 0)

/-- The second query gets the mapper of the first, or the other way round. -/
theorem split_name_shared :
    let two : List (MapperCol []) := textCols [] [("x", []), ("y", [])]
    let one : List (MapperCol []) := textCols [] [("x:25:t:::::::,y", [])]
    let row : List (Option Bytes) := [some [112], some [113]]
    mapperKey noOverride two .object = mapperKey noOverride one .object ∧
      getMapper noOverride plainDecoding two .object row =
        .ok (.object [("x", .cell (some (.string [112]))), ("y", .cell (some (.string [113])))]) ∧
      getMapper noOverride plainDecoding one .object row ≠
        getMapper noOverride plainDecoding two .object row := by
  intro two one row
  have htwo : getMapper noOverride plainDecoding two .object row =
      .ok (.object [("x", .cell (some (.string [112]))), ("y", .cell (some (.string [113])))]) :=
    rfl
  have hone : getMapper noOverride plainDecoding one .object row =
      .ok (.object [("x:25:t:::::::,y", .cell (some (.string [112])))]) := rfl
  refine ⟨((name_confused noOverride).shared plainDecoding).1, htwo, ?_⟩
  rw [hone, htwo]
  simp

end Minipg.Mappers
