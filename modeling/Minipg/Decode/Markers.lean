import Minipg.Decode.Plans
import Minipg.Lib.Delimited

/-!
# The markers of a shape

`Json()`, `Jsonb()` and their arrays, with `Transform()` inside (`src/json.ts`), and what
`JSON.stringify` makes of them: the function of a `Transform()` is dropped, and its number is kept.
-/

namespace Minipg.Mappers

open Js Cells Plans Delimited

/-- A string, or a part of a key, as its characters. -/
abbrev Text := List Char

/-! ### Transforms -/

/-- The arguments of a call of `Transform`. -/
structure Call where
  type : String
  fn : Rows.Xform Value JsError

/-- `TransformMarker`.  `Transform` numbers its calls. -/
structure TransformMarker (calls : List Call) where
  id : Nat
  call : Call
  made : calls[id]? = some call

/-- `Transform(type, fn)`, after `calls`. -/
def transform (calls : List Call) (call : Call) : TransformMarker (calls ++ [call]) where
  id := calls.length
  call
  made := by simp

variable {calls : List Call}

theorem TransformMarker.eq_of_id : ∀ {m m' : TransformMarker calls}, m.id = m'.id → m = m'
  | ⟨_, call, made⟩, ⟨_, call', made'⟩, rfl => by
    obtain rfl : call = call' := Option.some.inj (made.symm.trans made')
    rfl

/-! ### Markers -/

inductive JsonKind
  | object
  | array
  deriving DecidableEq, Repr

inductive JsonType
  | json
  | jsonb
  deriving DecidableEq, Repr

/-- `JsonSpec`, one field after the other.  A nested marker is there with its fields. -/
inductive JsonSpec (calls : List Call)
  | nil
  | type (key type : String) (rest : JsonSpec calls)
  | transform (key : String) (marker : TransformMarker calls) (rest : JsonSpec calls)
  | json (key : String) (kind : JsonKind) (type : JsonType) (literal : Bool)
      (spec rest : JsonSpec calls)

/-- `JsonMarker`; its spec is an object literal, or a list of entries. -/
structure JsonMarker (calls : List Call) where
  kind : JsonKind
  type : JsonType
  literal : Bool
  spec : JsonSpec calls

/-! ### `JSON.stringify` -/

def hexDigit (n : Nat) : Char := Nat.digitChar (n % 16)

/-- What stands after the backslash for a control character. -/
def control (n : Nat) : Text :=
  match n with
  | 8 => ['b']
  | 9 => ['t']
  | 10 => ['n']
  | 12 => ['f']
  | 13 => ['r']
  | n => ['u', '0', '0', hexDigit (n / 16), hexDigit n]

def escape (c : Char) : Text :=
  if c = Char.ofNat 34 ∨ c = '\\' then ['\\', c]
  else if c.toNat < 32 then '\\' :: control c.toNat
  else [c]

/-- A string between quotes. -/
def quote (s : Text) : Text := Char.ofNat 34 :: (s.flatMap escape ++ [Char.ofNat 34])

def decimal (n : Nat) : Text := Nat.toDigits 10 n

def JsonKind.text : JsonKind → Text
  | .object => "object".toList
  | .array => "array".toList

def JsonType.text : JsonType → Text
  | .json => "json".toList
  | .jsonb => "jsonb".toList

def TransformMarker.text (m : TransformMarker calls) : Text :=
  '{' :: (quote "__transform".toList ++ ':' :: ("true".toList ++ ',' :: (quote "id".toList ++
    ':' :: (decimal m.id ++ ',' :: (quote "type".toList ++ ':' :: (quote m.call.type.toList ++
      ['}']))))))

/-- A marker, with the text of its spec. -/
def markerText (kind : JsonKind) (type : JsonType) (spec : Text) : Text :=
  '{' :: (quote "__json".toList ++ ':' :: (quote kind.text ++ ',' :: (quote "type".toList ++
    ':' :: (quote type.text ++ ',' :: (quote "spec".toList ++ ':' :: (spec ++ ['}']))))))

def opening (literal : Bool) : Char := if literal then '{' else '['

def closing (literal : Bool) : Char := if literal then '}' else ']'

/-- A field: a property of an object, or a pair. -/
def entryText (literal : Bool) (key : String) (value : Text) : Text :=
  if literal then quote key.toList ++ ':' :: value
  else '[' :: (quote key.toList ++ ',' :: (value ++ [']']))

/-- The fields of a spec, each after `sep`, and a comma between them. -/
def JsonSpec.text (literal : Bool) (sep : Text) : JsonSpec calls → Text
  | .nil => [closing literal]
  | .type key t rest =>
    sep ++ (entryText literal key (quote t.toList) ++ rest.text literal [','])
  | .transform key m rest =>
    sep ++ (entryText literal key m.text ++ rest.text literal [','])
  | .json key kind t nested spec rest =>
    sep ++ (entryText literal key (markerText kind t (opening nested :: spec.text nested [])) ++
      rest.text literal [','])

/-- `JSON.stringify(marker)`. -/
def JsonMarker.text (m : JsonMarker calls) : Text :=
  markerText m.kind m.type (opening m.literal :: m.spec.text m.literal [])

/-! ### Each text is that of one marker -/

theorem control_selfEnding : SelfEnding fun n : Fin 32 => control n :=
  .of_begins (by decide)

theorem control_head : ∀ n : Fin 32, control n ≠ [] ∧
    (control n).head? ≠ some (Char.ofNat 34) ∧ (control n).head? ≠ some '\\' := by
  decide

theorem escape_selfEnding : SelfEnding escape := by
  have mark : ∀ (a : Char) (n : Fin 32) (r s : Text), (a = Char.ofNat 34 ∨ a = '\\') →
      a :: r ≠ control n ++ s := by
    intro a n r s ha h
    obtain ⟨hne, hquote, hslash⟩ := control_head n
    cases hn : control n with
    | nil => exact hne hn
    | cons x t =>
      rw [hn] at h hquote hslash
      rw [← (List.cons.inj h).1] at hquote hslash
      exact ha.elim (fun ha => hquote (by rw [ha]; rfl)) fun ha => hslash (by rw [ha]; rfl)
  intro a b r s h
  unfold escape at h
  split at h
  case isTrue ha =>
    split at h
    case isTrue hb =>
      simp only [List.cons_append, List.nil_append, List.cons.injEq, true_and] at h
      exact h
    case isFalse hb =>
      split at h
      case isTrue hb' =>
        exact absurd (List.cons.inj h).2 (mark a ⟨b.toNat, hb'⟩ r s ha)
      case isFalse hb' =>
        exact absurd (.inr (List.cons.inj h).1.symm) hb
  case isFalse ha =>
    split at h
    case isTrue ha' =>
      split at h
      case isTrue hb =>
        exact absurd (List.cons.inj h).2.symm (mark b ⟨a.toNat, ha'⟩ s r hb)
      case isFalse hb =>
        split at h
        case isTrue hb' =>
          obtain ⟨hn, hr⟩ := control_selfEnding ⟨a.toNat, ha'⟩ ⟨b.toNat, hb'⟩ r s
            (List.cons.inj h).2
          exact ⟨Char.toNat_inj.mp (Fin.mk.inj hn), hr⟩
        case isFalse hb' =>
          exact absurd (.inr (List.cons.inj h).1.symm) hb
    case isFalse ha' =>
      split at h
      case isTrue hb =>
        exact absurd (.inr (List.cons.inj h).1) ha
      case isFalse hb =>
        split at h
        case isTrue hb' =>
          exact absurd (.inr (List.cons.inj h).1) ha
        case isFalse hb' =>
          exact ⟨(List.cons.inj h).1, (List.cons.inj h).2⟩

theorem escape_head (c : Char) : escape c ≠ [] ∧ (escape c).head? ≠ some (Char.ofNat 34) := by
  unfold escape
  split
  · exact ⟨by simp, fun h => absurd (Option.some.inj h) (by decide)⟩
  · split
    · exact ⟨by simp, fun h => absurd (Option.some.inj h) (by decide)⟩
    · next h _ => exact ⟨by simp, fun hc => h (.inl (Option.some.inj hc))⟩

theorem quote_selfEnding : SelfEnding quote := by
  intro s t r r' h
  simp only [quote, List.cons_append, List.cons.injEq, true_and] at h
  exact SelfEnding.closed escape_selfEnding (fun c => (escape_head c).2)
    (fun c => (escape_head c).1) s t r r' h

theorem decimal_inj {n m : Nat} (h : decimal n = decimal m) : n = m := by
  have hread := congrArg (Nat.ofDigitChars 10 · 0) h
  simpa only [decimal, Nat.ofDigitChars_ten_toDigits] using hread

theorem isDigit_of_mem {n : Nat} {c : Char} (h : c ∈ decimal n) : c.isDigit = true :=
  Nat.isDigit_of_mem_toDigits (by decide) (by decide) h

theorem not_mem_decimal {n : Nat} {c : Char} (h : c.isDigit = false) : c ∉ decimal n := by
  intro hc
  rw [isDigit_of_mem hc] at h
  cases h

theorem JsonKind.text_inj : ∀ {k k' : JsonKind}, k.text = k'.text → k = k' := by
  intro k k' h
  cases k <;> cases k' <;> first | rfl | exact absurd h (by decide)

theorem JsonType.text_inj : ∀ {t t' : JsonType}, t.text = t'.text → t = t' := by
  intro t t' h
  cases t <;> cases t' <;> first | rfl | exact absurd h (by decide)

theorem TransformMarker.text_selfEnding :
    SelfEnding (TransformMarker.text : TransformMarker calls → Text) := by
  intro m m' r s h
  simp only [TransformMarker.text, List.cons_append, List.append_assoc, List.cons.injEq, true_and,
    List.append_cancel_left_eq] at h
  obtain ⟨hid, h⟩ := cut (not_mem_decimal (by decide)) (not_mem_decimal (by decide)) h
  obtain rfl := TransformMarker.eq_of_id (decimal_inj hid)
  simp only [List.append_cancel_left_eq, List.cons.injEq, true_and] at h
  exact ⟨rfl, h⟩

theorem markerText_cut {k k' : JsonKind} {t t' : JsonType} {spec spec' r s : Text}
    (h : markerText k t spec ++ r = markerText k' t' spec' ++ s) :
    k = k' ∧ t = t' ∧ spec ++ '}' :: r = spec' ++ '}' :: s := by
  simp only [markerText, List.cons_append, List.append_assoc, List.cons.injEq, true_and,
    List.append_cancel_left_eq] at h
  obtain ⟨hk, h⟩ := quote_selfEnding _ _ _ _ h
  simp only [List.append_cancel_left_eq, List.cons.injEq, true_and] at h
  obtain ⟨ht, h⟩ := quote_selfEnding _ _ _ _ h
  simp only [List.append_cancel_left_eq, List.cons.injEq, true_and, List.nil_append] at h
  exact ⟨JsonKind.text_inj hk, JsonType.text_inj ht, h⟩

/-- The value of a field, before its end. -/
theorem entryText_cut {literal : Bool} {k k' : String} {v v' r s : Text}
    (h : entryText literal k v ++ r = entryText literal k' v' ++ s) :
    k = k' ∧ ∃ e, v ++ (e ++ r) = v' ++ (e ++ s) := by
  unfold entryText at h
  split at h
  · simp only [List.append_assoc] at h
    obtain ⟨hk, h⟩ := quote_selfEnding _ _ _ _ h
    simp only [List.cons_append, List.cons.injEq, true_and] at h
    exact ⟨String.toList_inj.mp hk, [], h⟩
  · simp only [List.cons_append, List.append_assoc, List.cons.injEq, true_and] at h
    obtain ⟨hk, h⟩ := quote_selfEnding _ _ _ _ h
    simp only [List.cons.injEq, true_and] at h
    exact ⟨String.toList_inj.mp hk, [']'], h⟩

theorem opening_inj {literal literal' : Bool} (h : opening literal = opening literal') :
    literal = literal' := by
  revert literal literal'
  decide

/-- `sep` is what stands before a field, and the end of the spec is not. -/
theorem closing_ne {literal : Bool} {sep : Text} (hsep : sep = [] ∨ sep = [',']) {k : String}
    {v r s : Text} : [closing literal] ++ r ≠ sep ++ (entryText literal k v ++ s) := by
  intro h
  obtain rfl | rfl := hsep
  · cases literal <;> exact absurd (List.cons.inj h).1 (by decide)
  · cases literal <;> exact absurd (List.cons.inj h).1 (by decide)

theorem quote_ne_transform {t r s : Text} {m : TransformMarker calls} :
    quote t ++ r ≠ m.text ++ s := fun h => absurd (List.cons.inj h).1 (by decide)

theorem quote_ne_marker {t r s spec : Text} {k : JsonKind} {ty : JsonType} :
    quote t ++ r ≠ markerText k ty spec ++ s := fun h => absurd (List.cons.inj h).1 (by decide)

theorem transform_ne_marker {r s spec : Text} {m : TransformMarker calls} {k : JsonKind}
    {ty : JsonType} : m.text ++ r ≠ markerText k ty spec ++ s := by
  intro h
  simp only [TransformMarker.text, markerText, List.cons_append, List.append_assoc,
    List.cons.injEq, true_and] at h
  exact absurd (quote_selfEnding _ _ _ _ h).1 (by decide)

theorem JsonSpec.text_selfEnding (spec : JsonSpec calls) : ∀ (literal : Bool) (sep : Text),
    (sep = [] ∨ sep = [',']) → ∀ (spec' : JsonSpec calls) (r s : Text),
    spec.text literal sep ++ r = spec'.text literal sep ++ s → spec = spec' ∧ r = s := by
  induction spec with
  | nil =>
    intro literal sep hsep spec' r s h
    cases spec' with
    | nil => exact ⟨rfl, (List.cons.inj h).2⟩
    | type | transform | json =>
      simp only [JsonSpec.text, List.append_assoc] at h
      exact absurd h (closing_ne hsep)
  | type key t rest ih =>
    intro literal sep hsep spec' r s h
    cases spec' with
    | nil =>
      simp only [JsonSpec.text, List.append_assoc] at h
      exact absurd h.symm (closing_ne hsep)
    | type key' t' rest' =>
      simp only [JsonSpec.text, List.append_assoc, List.append_cancel_left_eq] at h
      obtain ⟨rfl, e, hv⟩ := entryText_cut h
      obtain ⟨ht, he⟩ := quote_selfEnding _ _ _ _ hv
      obtain ⟨rfl, hr⟩ := ih literal [','] (.inr rfl) rest' r s (List.append_cancel_left he)
      exact ⟨by rw [String.toList_inj.mp ht], hr⟩
    | transform key' m' rest' =>
      simp only [JsonSpec.text, List.append_assoc, List.append_cancel_left_eq] at h
      obtain ⟨-, e, h⟩ := entryText_cut h
      exact absurd h quote_ne_transform
    | json key' k' t' nested' spec' rest' =>
      simp only [JsonSpec.text, List.append_assoc, List.append_cancel_left_eq] at h
      obtain ⟨-, e, h⟩ := entryText_cut h
      exact absurd h quote_ne_marker
  | transform key m rest ih =>
    intro literal sep hsep spec' r s h
    cases spec' with
    | nil =>
      simp only [JsonSpec.text, List.append_assoc] at h
      exact absurd h.symm (closing_ne hsep)
    | type key' t' rest' =>
      simp only [JsonSpec.text, List.append_assoc, List.append_cancel_left_eq] at h
      obtain ⟨-, e, h⟩ := entryText_cut h
      exact absurd h.symm quote_ne_transform
    | transform key' m' rest' =>
      simp only [JsonSpec.text, List.append_assoc, List.append_cancel_left_eq] at h
      obtain ⟨rfl, e, hv⟩ := entryText_cut h
      obtain ⟨rfl, he⟩ := TransformMarker.text_selfEnding _ _ _ _ hv
      obtain ⟨rfl, hr⟩ := ih literal [','] (.inr rfl) rest' r s (List.append_cancel_left he)
      exact ⟨rfl, hr⟩
    | json key' k' t' nested' spec' rest' =>
      simp only [JsonSpec.text, List.append_assoc, List.append_cancel_left_eq] at h
      obtain ⟨-, e, h⟩ := entryText_cut h
      exact absurd h transform_ne_marker
  | json key k t nested spec rest ihs ih =>
    intro literal sep hsep spec' r s h
    cases spec' with
    | nil =>
      simp only [JsonSpec.text, List.append_assoc] at h
      exact absurd h.symm (closing_ne hsep)
    | type key' t' rest' =>
      simp only [JsonSpec.text, List.append_assoc, List.append_cancel_left_eq] at h
      obtain ⟨-, e, h⟩ := entryText_cut h
      exact absurd h.symm quote_ne_marker
    | transform key' m' rest' =>
      simp only [JsonSpec.text, List.append_assoc, List.append_cancel_left_eq] at h
      obtain ⟨-, e, h⟩ := entryText_cut h
      exact absurd h.symm transform_ne_marker
    | json key' k' t' nested' inner rest' =>
      simp only [JsonSpec.text, List.append_assoc, List.append_cancel_left_eq] at h
      obtain ⟨rfl, e, hv⟩ := entryText_cut h
      obtain ⟨rfl, rfl, hspec⟩ := markerText_cut hv
      obtain rfl := opening_inj (List.cons.inj hspec).1
      obtain ⟨rfl, he⟩ := ihs nested [] (.inl rfl) inner _ _ (List.cons.inj hspec).2
      obtain ⟨rfl, hr⟩ := ih literal [','] (.inr rfl) rest' r s
        (List.append_cancel_left (List.cons.inj he).2)
      exact ⟨rfl, hr⟩

theorem JsonMarker.text_selfEnding :
    SelfEnding (JsonMarker.text : JsonMarker calls → Text) := by
  intro ⟨k, t, literal, spec⟩ ⟨k', t', literal', spec'⟩ r s h
  obtain ⟨rfl, rfl, hspec⟩ := markerText_cut h
  obtain rfl := opening_inj (List.cons.inj hspec).1
  obtain ⟨rfl, hr⟩ := JsonSpec.text_selfEnding spec literal [] (.inl rfl) spec' _ _
    (List.cons.inj hspec).2
  exact ⟨rfl, (List.cons.inj hr).2⟩

end Minipg.Mappers
