import Minipg.Decode.Literals

/-!
# Arrays of the Data API

The Data API gives an array as lists of typed values, and `arrayToLiteral` (`src/aurora.ts`) writes
them as the text of an array, with quotes only where PostgreSQL has them.  The text of a list of
strings is read as the list (`literals_round_trip`).
-/

namespace Minipg.Aurora

open Js Cells Encode Literals

/-- An entry of `longValues`; one that a number would round is a string. -/
inductive LongValue
  | number (x : Double)
  | digits (s : JsString)

/-- An `ArrayValue`; a field that is not there is `none`. -/
inductive ArrayValue
  | mk (stringValues : Option (List JsString)) (longValues : Option (List LongValue))
      (doubleValues : Option (List Double)) (booleanValues : Option (List Bool))
      (arrayValues : Option (List ArrayValue))

def isDigit (u : UInt16) : Bool := 0x30 ≤ u.toNat ∧ u.toNat ≤ 0x39

/-- `/[+-]\d\d(?::?\d\d){0,groups}$/`, on the reversed text. -/
def endsInOffset : Nat → JsString → Bool
  | groups, d :: d' :: rest =>
    isDigit d && isDigit d' &&
      match rest with
      | [] => false
      | c :: more =>
        c = 0x2b || c = 0x2d ||
          match groups with
          | 0 => false
          | groups + 1 =>
            endsInOffset groups (c :: more) || c = 0x3a && endsInOffset groups more
  | _, _ => false

/-- `s.endsWith(' BC')`. -/
def endsInBc (s : JsString) : Bool := (ascii " BC").isSuffixOf s

/-- `HAS_OFFSET.test(s)`. -/
def hasOffset (s : JsString) : Bool :=
  endsInOffset 2 (if endsInBc s then s.dropLast.dropLast.dropLast else s).reverse

def withUtc (s : JsString) : JsString :=
  if hasOffset s || !(s.head?.any isDigit) then s
  else if endsInBc s then s.take (s.length - 3) ++ ascii "+00 BC"
  else s ++ ascii "+00"

/-- `/^null$/i`. -/
def isNull (s : JsString) : Bool :=
  s.map (fun u => if 0x61 ≤ u.toNat ∧ u.toNat ≤ 0x7a then u - 0x20 else u) = ascii "NULL"

/-- `/["delim\\{} \t\n\r\v\f]/`. -/
def isSpecial (delim u : UInt16) : Bool :=
  u = 0x22 || u = delim || u = 0x5c || u = 0x7b || u = 0x7d || u = 0x20 || u = 0x09 || u = 0x0a ||
    u = 0x0d || u = 0x0b || u = 0x0c

/-- `NEEDS_QUOTE[delim].test(s)`. -/
def needsQuote (delim : UInt16) (s : JsString) : Bool :=
  s.isEmpty || isNull s || s.any (isSpecial delim)

def quoteEl (s : JsString) (delim : UInt16) : JsString :=
  if needsQuote delim s then quoted s else s

mutual

def arrayToLiteral (js : Engine) (utc : Bool) (delim : UInt16) : ArrayValue → JsString
  | .mk _ _ _ _ (some arrays) => braced delim (arraysToLiterals js utc delim arrays)
  | .mk (some strings) _ _ _ none =>
    braced delim (strings.map fun s => quoteEl (if utc then withUtc s else s) delim)
  | .mk none (some longs) _ _ none =>
    braced delim (longs.map fun
      | .number x => js.numberString x
      | .digits s => s)
  | .mk none none (some doubles) _ none => braced delim (doubles.map js.numberString)
  | .mk none none none (some booleans) none =>
    braced delim (booleans.map fun b => ascii (if b then "t" else "f"))
  | .mk none none none none none => braced delim []

def arraysToLiterals (js : Engine) (utc : Bool) (delim : UInt16) : List ArrayValue → List JsString
  | [] => []
  | a :: rest => arrayToLiteral js utc delim a :: arraysToLiterals js utc delim rest

end

/-! ### Strings -/

/-- Strings in any number of dimensions. -/
inductive Strings
  | list (strings : List JsString)
  | nested (arrays : List Strings)

mutual

def Strings.arrayValue : Strings → ArrayValue
  | .list strings => .mk (some strings) none none none none
  | .nested arrays => .mk none none none none (some (arrayValues arrays))

def arrayValues : List Strings → List ArrayValue
  | [] => []
  | a :: rest => a.arrayValue :: arrayValues rest

end

mutual

/-- The array, with the offset put back into its strings where `utc` says so. -/
def Strings.value (utc : Bool) : Strings → List Value
  | .list strings => strings.map fun s => .string (if utc then withUtc s else s)
  | .nested arrays => stringsValues utc arrays

def stringsValues (utc : Bool) : List Strings → List Value
  | [] => []
  | a :: rest => .array (a.value utc) :: stringsValues utc rest

end

variable {js : Engine} {utc : Bool} {delim : UInt16}

theorem quoteEl_readsAs (hd : Delimits delim) (s : JsString) :
    ReadsAs delim (quoteEl s delim) (.string s) := by
  unfold quoteEl
  by_cases hq : needsQuote delim s
  · rw [if_pos hq]
    exact quoted_readsAs hd s
  · rw [if_neg hq]
    unfold needsQuote at hq
    simp only [Bool.or_eq_true, not_or, Bool.not_eq_true] at hq
    obtain ⟨⟨hempty, hnull⟩, hfree⟩ := hq
    refine bare_readsAs ?_ ?_ fun u hu => ?_
    · rintro rfl
      cases hempty
    · rintro rfl
      exact absurd hnull (by decide)
    · have hu := List.any_eq_false.mp hfree u hu
      unfold isSpecial at hu
      simp only [Bool.or_eq_true, decide_eq_true_eq, not_or] at hu
      obtain ⟨⟨⟨⟨⟨⟨⟨⟨⟨⟨hquote, hdelim⟩, -⟩, hopen⟩, hclose⟩, -⟩, -⟩, -⟩, -⟩, -⟩, -⟩ := hu
      exact ⟨hclose, hdelim, hopen, hquote⟩

theorem list_reads (hd : Delimits delim) (strings : List JsString) :
    List.Forall₂ (ReadsAs delim)
      (strings.map fun s => quoteEl (if utc then withUtc s else s) delim)
      (strings.map fun s => .string (if utc then withUtc s else s)) := by
  induction strings with
  | nil => exact .nil
  | cons s strings ih => exact .cons (quoteEl_readsAs hd _) ih

mutual

/-- The texts of the elements of an array. -/
theorem strings_read (hd : Delimits delim) : ∀ a : Strings, ∃ lits,
    arrayToLiteral js utc delim a.arrayValue = braced delim lits ∧
      List.Forall₂ (ReadsAs delim) lits (a.value utc)
  | .list strings => ⟨_, by rw [Strings.arrayValue, arrayToLiteral], list_reads hd strings⟩
  | .nested arrays => by
    refine ⟨arraysToLiterals js utc delim (arrayValues arrays), ?_, arrays_read hd arrays⟩
    rw [Strings.arrayValue, arrayToLiteral]

theorem arrays_read (hd : Delimits delim) : ∀ arrays : List Strings,
    List.Forall₂ (ReadsAs delim) (arraysToLiterals js utc delim (arrayValues arrays))
      (stringsValues utc arrays)
  | [] => .nil
  | a :: rest => by
    obtain ⟨lits, hlit, hreads⟩ := strings_read hd a
    rw [arrayValues, arraysToLiterals, stringsValues, hlit]
    exact .cons (braced_readsAs hd hreads) (arrays_read hd rest)

end

theorem arrayToLiteral_parses (hd : Delimits delim) (a : Strings) :
    parseArrayLiteral strLeaf delim (arrayToLiteral js utc delim a.arrayValue) =
      .ok (.array (a.value utc)) := by
  obtain ⟨lits, hlit, hreads⟩ := @strings_read js utc delim hd a
  rw [hlit]
  exact braced_parses hd hreads

/-- **Array literals are read as the arrays they were written from**, those of `arrayLiteral` and
those of the Data API, and the parser ends on every text. -/
theorem literals_round_trip :
    (∀ (js : Engine) (es : List Nested), ∃ text, arrayLiteral js (values es) = .ok text ∧
      parseArrayLiteral strLeaf 44 text = .ok (.array (values es))) ∧
    (∀ (js : Engine) (utc : Bool) (a : Strings), ∀ delim ∈ ([44, 59] : List UInt16),
      parseArrayLiteral strLeaf delim (arrayToLiteral js utc delim a.arrayValue) =
        .ok (.array (a.value utc))) ∧
    ∀ (leaf : Leaf) (delim : UInt16) (text : JsString),
      Parses leaf delim text (parseArrayLiteral leaf delim text) := by
  refine ⟨fun js es => arrayLiteral_parses es, fun js utc a delim hdelim => ?_, parse_reads⟩
  rcases List.mem_cons.mp hdelim with rfl | hdelim
  · exact arrayToLiteral_parses comma_delimits a
  · rw [List.mem_singleton.mp hdelim]
    exact arrayToLiteral_parses semicolon_delimits a

end Minipg.Aurora
