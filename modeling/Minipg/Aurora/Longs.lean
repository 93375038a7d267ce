import Minipg.Aurora.Arrays
import Minipg.Aurora.Gate
import Minipg.Encode.Text
import Minipg.Js.Decimal
import Minipg.Lib.Delimited

/-!
# Long values of the Data API

`parseBody` (`src/aurora.ts`) leaves a body to `JSON.parse`, or has its integers kept, and
`fieldToText` writes the text of a cell.  The text of a cell of integers has the digits of the body
if each of its integers is kept (`Kept`), and only then (`longs_exact_iff`).
-/

namespace Minipg.Aurora

open Js Json Encode Literals
open Cells (Bytes Runtime decimalInt? readDecimal digitValues)
open Delimited (parts)

/-! ### Fields -/

/-- A `Field`; a member that is not there is `none`. -/
structure Field where
  isNull : Option Bool
  stringValue : Option JsString
  longValue : Option LongValue
  doubleValue : Option Double
  booleanValue : Option Bool
  blobValue : Option JsString
  arrayValue : Option ArrayValue

/-- `String(v)`. -/
def LongValue.text (js : Engine) : LongValue → JsString
  | .number x => js.numberString x
  | .digits s => s

/-- `fromBase64` is `Buffer.from(s, 'base64')`. -/
def fieldToText (js : Engine) (fromBase64 : JsString → Bytes) (f : Field) (utc : Bool)
    (delim : UInt16) : Option Bytes :=
  if f.isNull = some true then none
  else if let some s := f.stringValue then some (utf8 (if utc then withUtc s else s))
  else if let some n := f.longValue then some (utf8 (n.text js))
  else if let some x := f.doubleValue then some (utf8 (js.numberString x))
  else if let some b := f.booleanValue then some (utf8 (ascii (if b then "t" else "f")))
  else if let some s := f.blobValue then some (utf8 (ascii "\\x" ++ hex (fromBase64 s)))
  else if let some a := f.arrayValue then some (utf8 (arrayToLiteral js utc delim a))
  else none

/-! ### Bodies -/

def parseBody (rt : Runtime) (b : Bytes) : Option Tree :=
  let s := rt.standard.utf8 b
  if longBig s then parseJsonBuffer rt .string b else jsonParse rt s

/-- `o[k]`. -/
def property (k : String) : Tree → Option Tree
  | .object ps => (ps.find? fun p => p.1 = ascii k).map Prod.snd
  | _ => none

/-- `a[i]`. -/
def item (i : Nat) : Tree → Option Tree
  | .array vs => vs[i]?
  | _ => none

/-- A property that may be missing. -/
def optional {α : Type} (read : Tree → Option α) (k : String) (o : Tree) : Option (Option α) :=
  match property k o with
  | none => some none
  | some v => (read v).map some

def listOf {α : Type} (read : Tree → Option α) : Tree → Option (List α)
  | .array vs => vs.mapM read
  | _ => none

def boolean? : Tree → Option Bool
  | .boolean b => some b
  | _ => none

def string? : Tree → Option JsString
  | .string s => some s
  | _ => none

def double? : Tree → Option Double
  | .number x => some x
  | _ => none

/-- `number | string` -/
def long? : Tree → Option LongValue
  | .number x => some (.number x)
  | .string s => some (.digits s)
  | _ => none

mutual

def arrayValue? : Tree → Option ArrayValue
  | .object ps => arrayMembers? ps
  | _ => none

def arrayMembers? : List (JsString × Tree) → Option ArrayValue
  | [] => some (.mk none none none none none)
  | (k, v) :: ps => do
    let .mk strings longs doubles booleans arrays ← arrayMembers? ps
    if k = ascii "stringValues" then
      return .mk (some (← listOf string? v)) longs doubles booleans arrays
    else if k = ascii "longValues" then
      return .mk strings (some (← listOf long? v)) doubles booleans arrays
    else if k = ascii "doubleValues" then
      return .mk strings longs (some (← listOf double? v)) booleans arrays
    else if k = ascii "booleanValues" then
      return .mk strings longs doubles (some (← listOf boolean? v)) arrays
    else if k = ascii "arrayValues" then
      return .mk strings longs doubles booleans (some (← arrayValues? v))
    else return .mk strings longs doubles booleans arrays

def arrayValues? : Tree → Option (List ArrayValue)
  | .array vs => arrayItems? vs
  | _ => none

def arrayItems? : List Tree → Option (List ArrayValue)
  | [] => some []
  | v :: vs => do return (← arrayValue? v) :: (← arrayItems? vs)

end

/-- A value of the interface `Field`; `none` is no such value. -/
def field? (o : Tree) : Option Field := do
  return {
    isNull := ← optional boolean? "isNull" o
    stringValue := ← optional string? "stringValue" o
    longValue := ← optional long? "longValue" o
    doubleValue := ← optional double? "doubleValue" o
    booleanValue := ← optional boolean? "booleanValue" o
    blobValue := ← optional string? "blobValue" o
    arrayValue := ← optional arrayValue? "arrayValue" o }

/-- The cell in column `j` of row `i`, as the row mapper has it. -/
def cellText (js : Engine) (fromBase64 : JsString → Bytes) (utc : Bool) (delim : UInt16)
    (rt : Runtime) (b : Bytes) (i j : Nat) : Option (Option Bytes) := do
  let records ← property "records" (← parseBody rt b)
  let f ← field? (← item j (← item i records))
  return fieldToText js fromBase64 f utc delim

/-! ### Cells of integers -/

/-- An integer of the grammar. -/
def IsInteger (token : JsString) : Prop :=
  isNumber token = true ∧ (unsigned token).all Cells.isDigit = true

instance (token : JsString) : Decidable (IsInteger token) :=
  inferInstanceAs (Decidable (_ ∧ _))

/-- Integers in any number of dimensions. -/
inductive Longs
  | list (tokens : List JsString)
  | nested (arrays : List Longs)

mutual

/-- The `ArrayValue`, as a response has it. -/
def Longs.ast : Longs → Ast
  | .list tokens => .object [(ascii "longValues", .array (tokens.map .number))]
  | .nested arrays => .object [(ascii "arrayValues", .array (longsAsts arrays))]

def longsAsts : List Longs → List Ast
  | [] => []
  | a :: rest => a.ast :: longsAsts rest

end

mutual

def Longs.tokens : Longs → List JsString
  | .list tokens => tokens
  | .nested arrays => longsTokens arrays

def longsTokens : List Longs → List JsString
  | [] => []
  | a :: rest => a.tokens ++ longsTokens rest

end

mutual

/-- The literal of the array whose integers are written so. -/
def Longs.text (write : JsString → JsString) (delim : UInt16) : Longs → JsString
  | .list tokens => braced delim (tokens.map write)
  | .nested arrays => braced delim (longsTexts write delim arrays)

def longsTexts (write : JsString → JsString) (delim : UInt16) : List Longs → List JsString
  | [] => []
  | a :: rest => a.text write delim :: longsTexts write delim rest

end

/-- A cell that has a `longValue`, or an `arrayValue` of integers; a `Field` has one member. -/
inductive LongField
  | long (token : JsString)
  | array (a : Longs)

namespace LongField

def ast : LongField → Ast
  | .long token => .object [(ascii "longValue", .number token)]
  | .array a => .object [(ascii "arrayValue", a.ast)]

def tokens : LongField → List JsString
  | .long token => [token]
  | .array a => a.tokens

def text (write : JsString → JsString) (delim : UInt16) : LongField → JsString
  | .long token => write token
  | .array a => a.text write delim

end LongField

/-- The member `k`. -/
def member (k : String) : Ast → Option Ast
  | .object ms => (ms.find? fun m => m.1 = ascii k).map Prod.snd
  | _ => none

def element (i : Nat) : Ast → Option Ast
  | .array vs => vs[i]?
  | _ => none

/-- The response has these integers in column `j` of row `i`. -/
def HasCell (a : Ast) (i j : Nat) (f : LongField) : Prop :=
  ((member "records" a.record).bind (element i)).bind (element j) = some f.ast ∧
    ∀ token ∈ f.tokens, IsInteger token

/-- The digits of an integer come back. -/
def Kept (js : Engine) (rt : Runtime) (s token : JsString) : Prop :=
  token ≠ ascii "-0" ∧
    (longBig s = true ∨ js.numberString (rt.standard.number token) = token)

variable {js : Engine} {rt : Runtime} {s : JsString}

/-! ### What a number prints -/

/-- Digits are those of their value, if the first one is no 0. -/
theorem decimal_readDecimal {ds : JsString} (hne : ds ≠ []) (hall : ds.all Cells.isDigit = true)
    (hzero : ds.head? ≠ some 48 ∨ ds.length = 1) : decimal (readDecimal 0 (digitValues ds)) = ds := by
  induction ds using List.reverseRecOn with
  | nil => exact absurd rfl hne
  | append_singleton init d ih =>
    rw [List.all_append, Bool.and_eq_true, List.all_cons, Bool.and_eq_true] at hall
    obtain ⟨hinit, hd, -⟩ := hall
    have hd := of_decide_eq_true hd
    have hunit : UInt16.ofNat (48 + (d.toNat - 48)) = d := by
      rw [show 48 + (d.toNat - 48) = d.toNat by omega]
      exact UInt16.ofNat_toNat
    have hread : readDecimal 0 (digitValues (init ++ [d])) =
        readDecimal 0 (digitValues init) * 10 + (d.toNat - 48) := by
      unfold readDecimal digitValues
      rw [List.map_append, List.foldl_append]
      rfl
    rw [hread]
    cases init with
    | nil =>
      have hlt : d.toNat - 48 < 10 := by omega
      show decimal (0 * 10 + (d.toNat - 48)) = [d]
      rw [Nat.zero_mul, Nat.zero_add, decimal_lt hlt, hunit]
    | cons u init =>
      have hhead : (u :: init).head? ≠ some 48 := by
        rcases hzero with hzero | hlen
        · exact hzero
        · simp at hlen
      have hrest := ih (List.cons_ne_nil u init) hinit (.inl hhead)
      generalize readDecimal 0 (digitValues (u :: init)) = m at hrest ⊢
      have hm : m ≠ 0 := by
        rintro rfl
        have hdigits : decimal 0 = [48] := decimal_lt (by decide)
        rw [hdigits] at hrest
        exact hhead (by rw [← hrest]; rfl)
      have hlast : (m * 10 + (d.toNat - 48)) % 10 = d.toNat - 48 := by omega
      have hfirst : (m * 10 + (d.toNat - 48)) / 10 = m := by omega
      rw [decimal_step (by omega), hfirst, hlast, hrest, hunit]

theorem bigintString_eq (n : Int) :
    bigintString n = (if n < 0 then [45] else []) ++ decimal n.natAbs := by
  unfold bigintString
  rw [ascii_eq, toString_toList, List.map_append, decimal_eq]
  split
  · rfl
  · rfl

/-- The digits of an integer, and their value. -/
theorem IsInteger.digits {token : JsString} (h : IsInteger token) : ∃ neg ds,
    token = signed neg ds ∧ unsigned token = ds ∧ ds ≠ [] ∧ ds.all Cells.isDigit = true ∧
      decimal (readDecimal 0 (digitValues ds)) = ds := by
  obtain ⟨neg, ds, rfl, -, hunsigned⟩ := exists_signed token
  obtain ⟨hnumber, hall⟩ := h
  rw [hunsigned] at hall
  have htake : ds.takeWhile Cells.isDigit = ds :=
    List.takeWhile_eq_self_iff.mpr (List.all_eq_true.mp hall)
  unfold isNumber at hnumber
  rw [hunsigned, htake] at hnumber
  simp only [Bool.and_eq_true, Bool.or_eq_true, decide_eq_true_eq] at hnumber
  obtain ⟨⟨hne, hzero⟩, -⟩ := hnumber
  exact ⟨neg, ds, rfl, hunsigned, hne, hall, decimal_readDecimal hne hall hzero⟩

/-- A safe integer comes back, unless it is -0. -/
theorem printed_safe (hjs : Prints js) {token : JsString} (h : IsInteger token) (hsafe : ¬IsBig token) :
    js.numberString (rt.standard.number token) = token ↔ token ≠ ascii "-0" := by
  obtain ⟨neg, ds, rfl, -, hne, hall, hdecimal⟩ := h.digits
  have hvalue := decimalInt_digits neg hne hall
  have hnumber : rt.standard.number (signed neg ds) = _ :=
    Tree.number.inj (number_digits rt neg hne hall)
  have hle : readDecimal 0 (digitValues ds) ≤ 9007199254740991 := by
    by_contra hlarge
    refine hsafe ⟨_, hvalue, ?_⟩
    unfold Double.Safe
    split
    · omega
    · omega
  rw [hnumber, hjs.integer _ _ (Double.round_safe neg hle), bigintString_eq]
  cases neg with
  | false =>
    rw [if_neg Bool.false_ne_true, if_neg (by omega), List.nil_append, Int.natAbs_natCast, hdecimal]
    refine iff_of_true rfl ?_
    rintro (rfl : ds = ascii "-0")
    exact absurd hall (by decide)
  | true =>
    rw [if_pos rfl, Int.natAbs_neg, Int.natAbs_natCast, hdecimal]
    by_cases hds : ds = [48]
    · subst hds
      decide
    · have hpos : readDecimal 0 (digitValues ds) ≠ 0 := by
        intro h0
        rw [h0] at hdecimal
        exact hds (hdecimal.symm.trans (decimal_lt (by decide)))
      rw [if_pos (by omega)]
      exact iff_of_true rfl fun heq => hds (List.cons.inj heq).2

/-- One of less than 16 digits is safe. -/
theorem IsInteger.safe {token : JsString} (h : IsInteger token)
    (hlen : (unsigned token).length < 16) : ¬IsBig token := by
  obtain ⟨neg, ds, rfl, hunsigned, hne, hall, -⟩ := h.digits
  rw [hunsigned] at hlen
  exact fun hbig => absurd (hbig.length hne hall) (by omega)

/-- What `parseBody` makes of a number. -/
def numbers (rt : Runtime) (s : JsString) : JsString → Tree :=
  if longBig s then exact rt .string else number rt

/-- How it is written. -/
def written (js : Engine) (rt : Runtime) (s token : JsString) : JsString :=
  ((long? (numbers rt s token)).map (LongValue.text js)).getD []

theorem exact_cases (token : JsString) :
    exact rt .string token = number rt token ∧ ¬IsBig token ∨
      exact rt .string token = .string token ∧ IsBig token := by
  by_cases hbig : IsBig token
  · right
    refine ⟨?_, hbig⟩
    obtain ⟨n, hn, hunsafe⟩ := hbig
    unfold exact
    rw [hn]
    exact if_neg hunsafe
  · exact .inl ⟨(exact_safe rt .string hbig).symm, hbig⟩

/-- A number, or the digits themselves. -/
theorem numbers_cases (rt : Runtime) (s token : JsString) :
    numbers rt s token = number rt token ∧ (longBig s = true → ¬IsBig token) ∨
      numbers rt s token = .string token ∧ longBig s = true ∧ IsBig token := by
  unfold numbers
  by_cases hgate : longBig s = true
  · rw [if_pos hgate]
    rcases @exact_cases rt token with ⟨heq, hsafe⟩ | ⟨heq, hbig⟩
    · exact .inl ⟨heq, fun _ => hsafe⟩
    · exact .inr ⟨heq, hgate, hbig⟩
  · rw [if_neg hgate]
    exact .inl ⟨rfl, fun h => absurd h hgate⟩

theorem minus_zero_safe : ¬IsBig (ascii "-0") := by
  rintro ⟨n, hn, hunsafe⟩
  have hzero : decimalInt? (ascii "-0") = some 0 := by decide
  rw [hzero] at hn
  cases hn
  exact hunsafe (by decide)

theorem minus_zero_integer : IsInteger (ascii "-0") := by decide

/-- **An integer is written with its digits** if it is kept, and only then. -/
theorem written_iff (hjs : Prints js) {token : JsString} (h : IsInteger token) :
    written js rt s token = token ↔ Kept js rt s token := by
  unfold written Kept
  rcases numbers_cases rt s token with ⟨heq, hsafe⟩ | ⟨heq, hgate, hbig⟩
  · rw [heq]
    show js.numberString (rt.standard.number token) = token ↔ _
    by_cases hgate : longBig s = true
    · rw [printed_safe hjs h (hsafe hgate), and_iff_left (.inl hgate)]
    · rw [or_iff_right hgate, iff_and_self]
      rintro hprint rfl
      exact (printed_safe hjs minus_zero_integer minus_zero_safe).mp hprint rfl
  · rw [heq]
    refine iff_of_true rfl ⟨?_, .inl hgate⟩
    rintro rfl
    exact minus_zero_safe hbig

/-! ### What the text is made of -/

theorem parseBody_text (hwf : isWellFormed s) {a : Ast} (h : parseText s = some a) :
    parseBody rt (utf8 s) = some (a.record.value (numbers rt s)) := by
  unfold parseBody numbers
  dsimp only
  rw [standard_utf8 rt hwf]
  split
  · exact parseJsonBuffer_text hwf h
  · unfold jsonParse
    rw [h]
    rfl

section Values

variable {num : JsString → Tree}

theorem find?_valueMembers (k : JsString) : ∀ ms : List (JsString × Ast),
    (valueMembers num ms).find? (fun p => p.1 = k) =
      (ms.find? fun p => p.1 = k).map fun p => (p.1, p.2.value num) := by
  intro ms
  induction ms with
  | nil => rfl
  | cons m ms ih =>
    rw [valueMembers, List.find?_cons, List.find?_cons]
    by_cases hk : m.1 = k
    · rw [decide_eq_true hk]
      rfl
    · rw [decide_eq_false hk]
      exact ih

theorem valueItems_eq (vs : List Ast) : valueItems num vs = vs.map (Ast.value num) := by
  induction vs with
  | nil => rfl
  | cons v vs ih => rw [valueItems, ih, List.map_cons]

theorem property_value {k : String} {a v : Ast} (h : member k a = some v) :
    property k (a.value num) = some (v.value num) := by
  cases a with
  | object ms =>
    obtain ⟨p, hp, rfl⟩ := Option.map_eq_some_iff.mp h
    show ((valueMembers num ms).find? _).map Prod.snd = _
    rw [find?_valueMembers, hp]
    rfl
  | _ => cases h

theorem item_value {i : Nat} {a v : Ast} (h : element i a = some v) :
    item i (a.value num) = some (v.value num) := by
  cases a with
  | array vs =>
    have h : vs[i]? = some v := h
    show (valueItems num vs)[i]? = _
    rw [valueItems_eq, List.getElem?_map, h]
    rfl
  | _ => cases h

theorem listOf_long {long : JsString → LongValue} {tokens : List JsString}
    (h : ∀ token ∈ tokens, long? (num token) = some (long token)) :
    listOf long? ((Ast.array (tokens.map .number)).value num) = some (tokens.map long) := by
  show (valueItems num (tokens.map .number)).mapM long? = _
  rw [valueItems_eq, List.map_map]
  induction tokens with
  | nil => rfl
  | cons token tokens ih =>
    have hrest := ih fun t ht => h t (List.mem_cons_of_mem token ht)
    rw [List.map_cons, List.mapM_cons, hrest]
    show (long? (num token)).bind _ = _
    rw [h token List.mem_cons_self]
    rfl

mutual

/-- The array that is read, and its literal. -/
theorem longs_read {long : JsString → LongValue} (utc : Bool) (delim : UInt16) : ∀ a : Longs,
    (∀ token ∈ a.tokens, long? (num token) = some (long token)) →
    ∃ v, arrayValue? (a.ast.value num) = some v ∧
      arrayToLiteral js utc delim v = a.text (fun t => (long t).text js) delim
  | .list tokens, h => by
    have hlist : listOf long? ((Ast.array (tokens.map .number)).value num) = some (tokens.map long) :=
      listOf_long h
    refine ⟨.mk none (some (tokens.map long)) none none none, ?_, ?_⟩
    · rw [Longs.ast, Ast.value, valueMembers, valueMembers, arrayValue?, arrayMembers?,
        arrayMembers?, hlist]
      rfl
    · rw [arrayToLiteral, List.map_map, Longs.text]
      refine congrArg (braced delim) (List.map_congr_left fun t _ => ?_)
      show (match long t with | .number x => js.numberString x | .digits s => s) = _
      cases long t
      · rfl
      · rfl
  | .nested arrays, h => by
    obtain ⟨vs, hvs, htext⟩ := longsItems_read utc delim arrays h
    refine ⟨.mk none none none none (some vs), ?_, ?_⟩
    · rw [Longs.ast, Ast.value, valueMembers, valueMembers, arrayValue?, arrayMembers?,
        arrayMembers?, Ast.value, arrayValues?, hvs]
      rfl
    · rw [arrayToLiteral, htext, Longs.text]

theorem longsItems_read {long : JsString → LongValue} (utc : Bool) (delim : UInt16) :
    ∀ arrays : List Longs,
    (∀ token ∈ longsTokens arrays, long? (num token) = some (long token)) →
    ∃ vs, arrayItems? (valueItems num (longsAsts arrays)) = some vs ∧
      arraysToLiterals js utc delim vs = longsTexts (fun t => (long t).text js) delim arrays
  | [], _ => ⟨[], rfl, by rw [arraysToLiterals, longsTexts]⟩
  | a :: rest, h => by
    obtain ⟨v, hv, htext⟩ := longs_read utc delim a fun t ht => h t (List.mem_append_left _ ht)
    obtain ⟨vs, hvs, htexts⟩ :=
      longsItems_read utc delim rest fun t ht => h t (List.mem_append_right _ ht)
    refine ⟨v :: vs, ?_, ?_⟩
    · rw [longsAsts, valueItems, arrayItems?, hv, hvs]
      rfl
    · rw [arraysToLiterals, longsTexts, htext, htexts]

end

/-- A cell of integers is written with what its integers are written with. -/
theorem field_read (fromBase64 : JsString → Bytes) {long : JsString → LongValue} (utc : Bool)
    (delim : UInt16) (f : LongField)
    (h : ∀ token ∈ f.tokens, long? (num token) = some (long token)) :
    ∃ v, field? (f.ast.value num) = some v ∧ fieldToText js fromBase64 v utc delim =
      some (utf8 (f.text (fun t => (long t).text js) delim)) := by
  cases f with
  | long token =>
    have htoken := h token (List.mem_singleton.mpr rfl)
    refine ⟨⟨none, none, some (long token), none, none, none, none⟩, ?_, rfl⟩
    have hfield : optional long? "longValue" ((LongField.long token).ast.value num) =
        some (some (long token)) := by
      show (long? (num token)).map some = _
      rw [htoken]
      rfl
    unfold field?
    rw [hfield]
    rfl
  | array a =>
    obtain ⟨v, hv, htext⟩ := @longs_read js num long utc delim a h
    refine ⟨⟨none, none, none, none, none, none, some v⟩, ?_, ?_⟩
    · have hfield : optional arrayValue? "arrayValue" ((LongField.array a).ast.value num) =
          some (some v) := by
        show (arrayValue? (a.ast.value num)).map some = _
        rw [hv]
        rfl
      unfold field?
      rw [hfield]
      rfl
    · show some (utf8 (arrayToLiteral js utc delim v)) = _
      rw [htext]
      rfl

end Values

/-- **The text of a cell** is made of what its integers are written with. -/
theorem cellText_eq (fromBase64 : JsString → Bytes) (utc : Bool) (delim : UInt16)
    (hwf : isWellFormed s) {a : Ast} (h : parseText s = some a) {i j : Nat} {f : LongField}
    (hcell : HasCell a i j f) : cellText js fromBase64 utc delim rt (utf8 s) i j =
      some (some (utf8 (f.text (written js rt s) delim))) := by
  obtain ⟨record, hrecord, hj⟩ := Option.bind_eq_some_iff.mp hcell.1
  obtain ⟨records, hrecords, hi⟩ := Option.bind_eq_some_iff.mp hrecord
  have hlong : ∀ token, ∃ l, long? (numbers rt s token) = some l ∧
      written js rt s token = l.text js := by
    intro token
    unfold written
    rcases numbers_cases rt s token with ⟨heq, -⟩ | ⟨heq, -⟩
    · exact ⟨.number (rt.standard.number token), by rw [heq]; rfl, by rw [heq]; rfl⟩
    · exact ⟨.digits token, by rw [heq]; rfl, by rw [heq]; rfl⟩
  choose long hread hwritten using hlong
  obtain ⟨v, hv, htext⟩ := @field_read js (numbers rt s) fromBase64 long utc delim f
    fun token _ => hread token
  have heq : written js rt s = fun t => (long t).text js := funext hwritten
  unfold cellText
  rw [parseBody_text hwf h]
  show (property "records" (a.record.value (numbers rt s))).bind _ = _
  rw [property_value hrecords, Option.bind_some, item_value hi]
  show (item j (record.value (numbers rt s))).bind _ = _
  rw [item_value hj, Option.bind_some, hv, heq, ← htext]
  rfl

/-! ### The parts of a text -/

section Induction

variable {P : Longs → Prop}

mutual

theorem Longs.byArrays (list : ∀ tokens, P (.list tokens))
    (nested : ∀ arrays, (∀ a ∈ arrays, P a) → P (.nested arrays)) : ∀ a, P a
  | .list tokens => list tokens
  | .nested arrays => nested arrays (Longs.ofArrays list nested arrays)

theorem Longs.ofArrays (list : ∀ tokens, P (.list tokens))
    (nested : ∀ arrays, (∀ a ∈ arrays, P a) → P (.nested arrays)) :
    ∀ arrays : List Longs, ∀ a ∈ arrays, P a
  | [] => nofun
  | a :: rest => List.forall_mem_cons.mpr
    ⟨Longs.byArrays list nested a, Longs.ofArrays list nested rest⟩

end

end Induction

section Texts

variable {write : JsString → JsString} {delim : UInt16}

theorem longsTokens_eq : ∀ arrays : List Longs, longsTokens arrays = arrays.flatMap Longs.tokens
  | [] => rfl
  | a :: rest => by rw [longsTokens, longsTokens_eq rest, List.flatMap_cons]

theorem longsTexts_eq : ∀ arrays : List Longs,
    longsTexts write delim arrays = arrays.map (Longs.text write delim)
  | [] => rfl
  | a :: rest => by rw [longsTexts, longsTexts_eq rest, List.map_cons]

theorem Longs.mem_nested {arrays : List Longs} {a : Longs} (ha : a ∈ arrays) {token : JsString}
    (ht : token ∈ a.tokens) : token ∈ (Longs.nested arrays).tokens := by
  rw [Longs.tokens, longsTokens_eq]
  exact List.mem_flatMap.mpr ⟨a, ha, ht⟩

/-- A mark of a literal. -/
def isMark (u : UInt16) : Bool := u = 44 || u = 59 || u = 123 || u = 125

def Plain (s : JsString) : Prop := s ≠ [] ∧ ∀ u ∈ s, isMark u = false

theorem parts_braced (hd : isMark delim = true) (lits : List JsString) :
    parts isMark (braced delim lits) = lits.flatMap (parts isMark) := by
  unfold braced
  rw [Delimited.parts_cons (by decide), Delimited.parts_append (by decide)]
  cases lits with
  | nil => rfl
  | cons lit lits =>
    rw [joined, Delimited.parts_flatMap hd]
    exact List.append_nil _

/-- The parts of a literal are its integers. -/
theorem parts_text (hd : isMark delim = true) (a : Longs)
    (hw : ∀ token ∈ a.tokens, Plain (write token)) :
    parts isMark (a.text write delim) = a.tokens.map write := by
  induction a using Longs.byArrays with
  | list tokens =>
    rw [Longs.text, parts_braced hd, List.flatMap_map, Longs.tokens, List.map_eq_flatMap]
    refine List.flatMap_congr fun token ht => ?_
    obtain ⟨hne, hplain⟩ := hw token ht
    exact Delimited.parts_plain hne hplain
  | nested arrays ih =>
    rw [Longs.text, parts_braced hd, longsTexts_eq, List.flatMap_map, Longs.tokens, longsTokens_eq,
      List.map_flatMap]
    exact List.flatMap_congr fun a ha => ih a ha fun token ht => hw token (Longs.mem_nested ha ht)

theorem text_congr (delim : UInt16) (a : Longs) (h : ∀ token ∈ a.tokens, write token = token) :
    a.text write delim = a.text id delim := by
  induction a using Longs.byArrays with
  | list tokens =>
    rw [Longs.text, Longs.text]
    exact congrArg (braced delim) (List.map_congr_left h)
  | nested arrays ih =>
    rw [Longs.text, Longs.text, longsTexts_eq, longsTexts_eq]
    refine congrArg (braced delim) (List.map_congr_left fun a ha => ?_)
    exact ih a ha fun token ht => h token (Longs.mem_nested ha ht)

/-- Two texts are the same if each integer is written as it is. -/
theorem text_eq_iff (hd : isMark delim = true) (f : LongField)
    (hplain : ∀ token ∈ f.tokens, Plain token) (hw : ∀ token ∈ f.tokens, Plain (write token)) :
    f.text write delim = f.text id delim ↔ ∀ token ∈ f.tokens, write token = token := by
  cases f with
  | long token =>
    show write token = token ↔ ∀ t ∈ [token], write t = t
    rw [List.forall_mem_singleton]
  | array a =>
    refine ⟨fun heq => ?_, text_congr delim a⟩
    have hparts := congrArg (parts isMark) heq
    have hleft : parts isMark ((LongField.array a).text write delim) = a.tokens.map write :=
      parts_text hd a hw
    have hright : parts isMark ((LongField.array a).text id delim) = a.tokens.map id :=
      parts_text hd a hplain
    rw [hleft, hright] at hparts
    exact List.map_inj_left.mp hparts

theorem braced_ascii (hd : IsAscii delim) {lits : List JsString} (h : ∀ lit ∈ lits, AllAscii lit) :
    AllAscii (braced delim lits) := by
  intro u hu
  rcases List.mem_cons.mp hu with rfl | hu
  · decide
  · rcases List.mem_append.mp hu with hu | hu
    · cases lits with
      | nil => cases hu
      | cons lit lits =>
        rcases List.mem_append.mp hu with hu | hu
        · exact h lit List.mem_cons_self u hu
        · obtain ⟨lit', hlit, hu⟩ := List.mem_flatMap.mp hu
          rcases List.mem_cons.mp hu with rfl | hu
          · exact hd
          · exact h lit' (List.mem_cons_of_mem lit hlit) u hu
    · rw [List.mem_singleton.mp hu]
      decide

theorem text_ascii (hd : IsAscii delim) (f : LongField)
    (h : ∀ token ∈ f.tokens, AllAscii (write token)) : AllAscii (f.text write delim) := by
  have harray : ∀ a : Longs, (∀ token ∈ a.tokens, AllAscii (write token)) →
      AllAscii (a.text write delim) := by
    intro a
    induction a using Longs.byArrays with
    | list tokens =>
      intro h
      rw [Longs.text]
      exact braced_ascii hd (List.forall_mem_map.mpr h)
    | nested arrays ih =>
      intro h
      rw [Longs.text, longsTexts_eq]
      refine braced_ascii hd (List.forall_mem_map.mpr fun a ha => ih a ha fun token ht => ?_)
      exact h token (Longs.mem_nested ha ht)
  cases f with
  | long token => exact h token (List.mem_singleton.mpr rfl)
  | array a => exact harray a h

end Texts

/-- `String(x)` has no mark of a literal in it. -/
structure PrintsNumbers (js : Engine) : Prop extends Prints js where
  plain : ∀ x, Plain (js.numberString x)

theorem IsInteger.plain {token : JsString} (h : IsInteger token) :
    Plain token ∧ AllAscii token := by
  obtain ⟨neg, ds, rfl, -, hne, hall, -⟩ := h.digits
  have hdigit : ∀ u ∈ ds, isMark u = false ∧ IsAscii u := by
    intro u hu
    have hd := of_decide_eq_true (List.all_eq_true.mp hall u hu)
    refine ⟨?_, by unfold IsAscii; omega⟩
    rw [← Bool.not_eq_true]
    unfold isMark
    simp only [Bool.or_eq_true, decide_eq_true_eq]
    rintro (((rfl | rfl) | rfl) | rfl)
    all_goals exact absurd hd (by decide)
  have hminus : isMark 45 = false ∧ IsAscii 45 := by decide
  have hsigned : ∀ u ∈ signed neg ds, isMark u = false ∧ IsAscii u := by
    cases neg with
    | false => exact hdigit
    | true => exact List.forall_mem_cons.mpr ⟨hminus, hdigit⟩
  refine ⟨⟨?_, fun u hu => (hsigned u hu).1⟩, fun u hu => (hsigned u hu).2⟩
  cases neg with
  | false => exact hne
  | true => exact List.cons_ne_nil 45 ds

/-- So is what it is written with. -/
theorem written_plain (hjs : PrintsNumbers js) {token : JsString} (h : IsInteger token) :
    Plain (written js rt s token) ∧ AllAscii (written js rt s token) := by
  unfold written
  rcases numbers_cases rt s token with ⟨heq, -⟩ | ⟨heq, -⟩
  · rw [heq]
    exact ⟨hjs.plain _, fun u hu => (hjs.ascii _ u hu).1⟩
  · rw [heq]
    exact h.plain

theorem utf8_inj {s t : JsString} (hs : AllAscii s) (ht : AllAscii t) (h : utf8 s = utf8 t) :
    s = t := by
  have hdecode := congrArg utf8Decode h
  rw [utf8Decode_utf8 (wellFormed_of_ascii hs), utf8Decode_utf8 (wellFormed_of_ascii ht)] at hdecode
  exact Option.some.inj hdecode

/-! ### The gate and the cells -/

theorem integer?_number {token : JsString} (h : IsInteger token) :
    integer? (.number token) = some token := if_pos h.2

theorem mapM_numbers {tokens : List JsString} (h : ∀ token ∈ tokens, IsInteger token) :
    (tokens.map .number).mapM integer? = some tokens := by
  induction tokens with
  | nil => rfl
  | cons token tokens ih =>
    rw [List.map_cons, List.mapM_cons, integer?_number (h token List.mem_cons_self),
      ih fun t ht => h t (List.mem_cons_of_mem token ht)]
    rfl

theorem mem_longsItems {token : JsString} {v : Ast} (ht : token ∈ longs v) :
    ∀ {vs : List Ast}, v ∈ vs → token ∈ longsItems vs
  | w :: vs, hv => by
    rw [longsItems]
    rcases List.mem_cons.mp hv with rfl | hv
    · exact List.mem_append_left _ ht
    · exact List.mem_append_right _ (mem_longsItems ht hv)

theorem mem_longsMembers {token k : JsString} {v : Ast}
    (ht : token ∈ longs v ∨ token ∈ longEntries k v) :
    ∀ {ms : List (JsString × Ast)}, (k, v) ∈ ms → token ∈ longsMembers ms
  | m :: ms, hm => by
    rw [longsMembers, List.mem_append, List.mem_append]
    rcases List.mem_cons.mp hm with rfl | hm
    · exact ht.elim (fun h => .inr (.inl h)) .inl
    · exact .inr (.inr (mem_longsMembers ht hm))

theorem longsAsts_eq : ∀ arrays : List Longs, longsAsts arrays = arrays.map Longs.ast
  | [] => rfl
  | a :: rest => by rw [longsAsts, longsAsts_eq rest, List.map_cons]

/-- The integers of an array are long entries of its text. -/
theorem tokens_longs (a : Longs) (h : ∀ token ∈ a.tokens, IsInteger token) :
    ∀ token ∈ a.tokens, token ∈ longs a.ast := by
  intro token ht
  induction a using Longs.byArrays with
  | list tokens =>
    have hall : ∀ t ∈ tokens, IsInteger t := h
    have hentries : token ∈ longEntries (ascii "longValues") (.array (tokens.map .number)) := by
      unfold longEntries
      rw [if_neg (by decide), if_pos rfl]
      dsimp only
      rw [mapM_numbers hall]
      exact ht
    rw [Longs.ast]
    exact mem_longsMembers (.inr hentries) List.mem_cons_self
  | nested arrays ih =>
    rw [Longs.tokens, longsTokens_eq] at ht
    obtain ⟨a, ha, ht⟩ := List.mem_flatMap.mp ht
    have hitem := ih a ha (fun t ht => h t (Longs.mem_nested ha ht)) ht
    have hitems : token ∈ longs (.array (longsAsts arrays)) := by
      rw [longs, longsAsts_eq]
      exact mem_longsItems hitem (List.mem_map_of_mem ha)
    rw [Longs.ast]
    exact mem_longsMembers (.inl hitems) List.mem_cons_self

theorem field_longs (f : LongField) (h : ∀ token ∈ f.tokens, IsInteger token) :
    ∀ token ∈ f.tokens, token ∈ longs f.ast := by
  intro token ht
  cases f with
  | long t =>
    cases List.mem_singleton.mp ht
    have hentry : token ∈ longEntries (ascii "longValue") (.number token) := by
      unfold longEntries
      rw [if_pos rfl, integer?_number (h token ht)]
      exact List.mem_singleton.mpr rfl
    exact mem_longsMembers (.inr hentry) List.mem_cons_self
  | array a => exact mem_longsMembers (.inl (tokens_longs a h token ht)) List.mem_cons_self

theorem member_longs {k : String} {a v : Ast} (h : member k a = some v) {token : JsString}
    (ht : token ∈ longs v) : token ∈ longs a := by
  cases a with
  | object ms =>
    obtain ⟨⟨k', w⟩, hp, rfl⟩ := Option.map_eq_some_iff.mp h
    rw [longs]
    exact mem_longsMembers (.inl ht) (List.mem_of_find?_eq_some hp)
  | _ => cases h

theorem element_longs {i : Nat} {a v : Ast} (h : element i a = some v) {token : JsString}
    (ht : token ∈ longs v) : token ∈ longs a := by
  cases a with
  | array vs =>
    rw [longs]
    exact mem_longsItems ht (List.mem_of_getElem? h)
  | _ => cases h

/-! What stays of a text has no other long entries. -/

theorem mapM_record (vs : List Ast) : (recordItems vs).mapM integer? = vs.mapM integer? := by
  induction vs with
  | nil => rfl
  | cons v vs ih =>
    have hv : integer? v.record = integer? v := by
      cases v
      all_goals rfl
    rw [recordItems, List.mapM_cons, List.mapM_cons, hv, ih]

theorem longEntries_record (k : JsString) (v : Ast) :
    longEntries k v.record = longEntries k v := by
  unfold longEntries
  cases v with
  | array vs =>
    rw [Ast.record]
    dsimp only
    rw [mapM_record]
    rfl
  | _ => rfl

theorem longs_put {k : JsString} {v : Ast} {token : JsString} :
    ∀ {o : List (JsString × Ast)}, token ∈ longsMembers (put k v o) →
      (token ∈ longEntries k v ∨ token ∈ longs v) ∨ token ∈ longsMembers o
  | [], h => by
    rw [put, longsMembers, longsMembers, List.append_nil] at h
    exact .inl (List.mem_append.mp h)
  | (k', v') :: o, h => by
    rw [put] at h
    dsimp only at h
    rw [longsMembers, List.mem_append, List.mem_append]
    split at h
    · rw [longsMembers, List.mem_append, List.mem_append] at h
      rcases h with h | h | h
      · exact .inl (.inl h)
      · exact .inl (.inr h)
      · exact .inr (.inr (.inr h))
    · rw [longsMembers, List.mem_append, List.mem_append] at h
      rcases h with h | h | h
      · exact .inr (.inl h)
      · exact .inr (.inr (.inl h))
      · rcases longs_put h with h | h
        · exact .inl h
        · exact .inr (.inr (.inr h))

mutual

theorem longs_record {token : JsString} : ∀ {a : Ast}, token ∈ longs a.record → token ∈ longs a
  | .null, h | .boolean _, h | .string _, h | .number _, h => h
  | .array vs, h => by
    rw [Ast.record, longs] at h
    rw [longs]
    exact longsItems_record h
  | .object ms, h => by
    rw [Ast.record, longs] at h
    rw [longs]
    rcases longsMembers_record h with h | h
    · exact h
    · cases h

theorem longsItems_record {token : JsString} : ∀ {vs : List Ast},
    token ∈ longsItems (recordItems vs) → token ∈ longsItems vs
  | [], h => h
  | v :: vs, h => by
    rw [recordItems, longsItems, List.mem_append] at h
    rw [longsItems, List.mem_append]
    exact h.imp longs_record longsItems_record

theorem longsMembers_record {token : JsString} : ∀ {ms o : List (JsString × Ast)},
    token ∈ longsMembers (recordMembers o ms) → token ∈ longsMembers ms ∨ token ∈ longsMembers o
  | [], _, h => .inr h
  | (k, v) :: ms, o, h => by
    rw [longsMembers, List.mem_append, List.mem_append]
    rcases @longsMembers_record token ms (put k v.record o) h with h | h
    · exact .inl (.inr (.inr h))
    · rcases longs_put h with (h | h) | h
      · rw [longEntries_record] at h
        exact .inl (.inl h)
      · exact .inl (.inr (.inl (longs_record h)))
      · exact .inr h

end

theorem cell_longs {a : Ast} {i j : Nat} {f : LongField} (h : HasCell a i j f) :
    ∀ token ∈ f.tokens, token ∈ longs a := by
  intro token ht
  obtain ⟨record, hrecord, hj⟩ := Option.bind_eq_some_iff.mp h.1
  obtain ⟨records, hrecords, hi⟩ := Option.bind_eq_some_iff.mp hrecord
  exact longs_record (member_longs hrecords (element_longs hi
    (element_longs hj (field_longs f h.2 token ht))))

/-- An integer is kept if its key is found, unless it is -0. -/
theorem kept_of_plain (hjs : PrintsNumbers js) {a : Ast} (h : parseText s = some a)
    (hkeys : ¬HasEscapedKey s) {i j : Nat} {f : LongField} (hcell : HasCell a i j f)
    {token : JsString} (ht : token ∈ f.tokens) (hminus : token ≠ ascii "-0") :
    Kept js rt s token := by
  have hint := hcell.2 token ht
  refine ⟨hminus, ?_⟩
  by_cases hlen : (unsigned token).length < 16
  · exact .inr ((printed_safe hjs.toPrints hint (hint.safe hlen)).mpr hminus)
  · have hlong : HasLong (longs a) := ⟨token, cell_longs hcell token ht, by omega⟩
    exact .inl ((longBig_found h hlong).resolve_right hkeys)

open Plans (hexOnly)

/-- An engine that prints integers of any size. -/
def integerEngine : Engine :=
  { nullEngine with numberString := fun x => (x.integer?.map bigintString).getD (ascii "NaN") }

theorem bigintString_plain (n : Int) : Plain (bigintString n) := by
  refine ⟨?_, fun u hu => ?_⟩
  · rw [bigintString_eq, decimal_eq]
    intro hnil
    have hdigits := List.map_eq_nil_iff.mp (List.append_eq_nil_iff.mp hnil).2
    exact Nat.toDigits_ne_nil hdigits
  · obtain ⟨c, hc, rfl⟩ := List.mem_map.mp hu
    have hplain : ∀ k < 128, k = 45 ∨ 48 ≤ k ∧ k < 58 → isMark (UInt16.ofNat k) = false := by decide
    rw [toString_toList] at hc
    rcases List.mem_append.mp hc with hc | hc
    · split at hc
      · rw [List.mem_singleton.mp hc]
        decide
      · cases hc
    · have hd := toDigits_ascii c hc
      exact hplain c.toNat (by omega) (.inr hd)

theorem integerEngine_prints : PrintsNumbers integerEngine where
  integer x n h := by
    have hn : x.integer? = some n := (Option.filter_eq_some_iff.mp h).1
    show (x.integer?.map bigintString).getD _ = _
    rw [hn]
    rfl
  ascii x u hu := by
    have hu : u ∈ (x.integer?.map bigintString).getD (ascii "NaN") := hu
    cases hn : x.integer? with
    | none =>
      have hnan : ∀ u ∈ ascii "NaN", IsAscii u ∧ u ≠ 0 := by decide
      rw [hn] at hu
      exact hnan u hu
    | some n =>
      rw [hn] at hu
      refine ⟨(bigintString_ascii n).1 u hu, ?_⟩
      rintro rfl
      exact Bool.eq_false_iff.mp (bigintString_ascii n).2 (List.contains_iff_mem.mpr hu)
  plain x := by
    show Plain ((x.integer?.map bigintString).getD (ascii "NaN"))
    cases x.integer? with
    | none => exact ⟨by decide, by decide⟩
    | some n => exact bigintString_plain n

/-- 9007199254740993 is no double. -/
theorem round_limit : Double.round false (9007199254740993 : Nat) = 0x4340000000000000 := by
  have hlog : Nat.log 2 9007199254740993 = 53 := by
    rw [Nat.log_eq_iff (by decide)]
    norm_num
  have hplace : Double.place (9007199254740993 : Nat) = 1 := by
    unfold Double.place
    rw [Int.log_natCast, hlog]
    rfl
  have hfloor : ⌊((9007199254740993 : Nat) : ℚ) / 2 ^ (1 : Int)⌋₊ = 4503599627370496 := by
    rw [Nat.floor_eq_iff (by positivity)]
    norm_num
  have hnearest : Double.nearest (((9007199254740993 : Nat) : ℚ) / 2 ^ (1 : Int)) = 4503599627370496 := by
    unfold Double.nearest
    rw [hfloor]
    norm_num
  have hmagnitude : Double.magnitude (9007199254740993 : Nat) = 0x4340000000000000 := by
    unfold Double.magnitude
    rw [hplace, hnearest, if_neg (by norm_num)]
    rfl
  unfold Double.round
  rw [abs_of_nonneg (by positivity), hmagnitude]
  rfl

def largeLong : JsString := ascii "9007199254740993"

/-- A response with one cell, whose key is written so. -/
def oneLong (key : JsString) : JsString :=
  ascii "\x7b\"records\":[[\x7b\"" ++ (key ++ ascii "\":9007199254740993\x7d]]\x7d")

def oneLongAst : Ast :=
  .object [(ascii "records", .array [.array [(LongField.long largeLong).ast]])]

theorem skipWs_unit {u : UInt16} (h : isWs u = false) (t : JsString) : skipWs (u :: t) = u :: t :=
  List.dropWhile_cons_of_neg (by rw [h]; exact Bool.false_ne_true)

theorem skipWs_head {u k : UInt16} (h : isWs u = false) (hk : u ≠ k) (t : JsString) :
    (skipWs (u :: t)).head? ≠ some k := by
  rw [skipWs_unit h]
  exact fun heq => hk (Option.some.inj heq)

theorem reads_field {r : JsString} (hkey : parseChars r =
    some (ascii "longValue", ascii ":9007199254740993\x7d]]\x7d")) :
    Reads (123 :: 34 :: r) (LongField.long largeLong).ast (ascii "]]\x7d") := by
  have hword : parseWord (ascii "9007199254740993\x7d]]\x7d") =
      some (.number largeLong, ascii "\x7d]]\x7d") := rfl
  have hvalue : Reads (ascii "9007199254740993\x7d]]\x7d") (.number largeLong)
      (ascii "\x7d]]\x7d") :=
    fuel_rules.word (u := 57) (t := ascii "007199254740993\x7d]]\x7d") (by decide) (by decide)
      (by decide) (by decide) hword
  have hcolon : skipWs (ascii ":9007199254740993\x7d]]\x7d") =
      58 :: ascii "9007199254740993\x7d]]\x7d" := by decide
  have hmember : ReadsMembers (34 :: r) [(ascii "longValue", .number largeLong)]
      (ascii "]]\x7d") :=
    fuel_rules.lastMember (skipWs_unit (by decide) r) hkey hcolon hvalue (by decide)
  refine fuel_rules.object (skipWs_unit (by decide) _) (skipWs_head (by decide) (by decide) r) ?_
  rw [skipWs_unit (by decide)]
  exact hmember

theorem oneLong_parses {key : JsString}
    (hkey : parseChars (key ++ ascii "\":9007199254740993\x7d]]\x7d") =
      some (ascii "longValue", ascii ":9007199254740993\x7d]]\x7d")) :
    parseText (oneLong key) = some oneLongAst := by
  have hcell := reads_field hkey
  generalize hrest : key ++ ascii "\":9007199254740993\x7d]]\x7d" = r at hcell
  have hrow : Reads (91 :: 123 :: 34 :: r) (.array [(LongField.long largeLong).ast])
      (ascii "]\x7d") := by
    refine fuel_rules.array (skipWs_unit (by decide) _) (skipWs_head (by decide) (by decide) _) ?_
    rw [skipWs_unit (by decide)]
    exact fuel_rules.lastItem hcell (by decide)
  have hrows : Reads (91 :: 91 :: 123 :: 34 :: r)
      (.array [.array [(LongField.long largeLong).ast]]) (ascii "\x7d") := by
    refine fuel_rules.array (skipWs_unit (by decide) _) (skipWs_head (by decide) (by decide) _) ?_
    rw [skipWs_unit (by decide)]
    exact fuel_rules.lastItem hrow (by decide)
  have hrecords := parseChars_self (k := ascii "records") (by decide)
    (58 :: 91 :: 91 :: 123 :: 34 :: r)
  have hbody : ReadsMembers (34 :: (ascii "records" ++ 34 :: 58 :: 91 :: 91 :: 123 :: 34 :: r))
      [(ascii "records", .array [.array [(LongField.long largeLong).ast]])] [] :=
    fuel_rules.lastMember (skipWs_unit (by decide) _) hrecords (skipWs_unit (by decide) _) hrows
      (by decide)
  have hreads : Reads (123 :: 34 :: (ascii "records" ++ 34 :: 58 :: 91 :: 91 :: 123 :: 34 :: r))
      oneLongAst [] := by
    refine fuel_rules.object (skipWs_unit (by decide) _) (skipWs_head (by decide) (by decide) _) ?_
    rw [skipWs_unit (by decide)]
    exact hbody
  have htext : oneLong key =
      123 :: 34 :: (ascii "records" ++ 34 :: 58 :: 91 :: 91 :: 123 :: 34 :: r) := by
    unfold oneLong
    rw [hrest]
    rfl
  rw [htext]
  exact parseText_of_value (hreads.2 _ (Nat.le_refl _)) rfl
theorem oneLong_cell : HasCell oneLongAst 0 0 (.long largeLong) :=
  ⟨rfl, fun token ht => List.mem_singleton.mp ht ▸ by decide⟩

/-- `long\u0056alue` -/
def escapedKey : JsString := ascii "long\\u0056alue"

end Minipg.Aurora
