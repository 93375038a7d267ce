import Minipg.Encode.Frames
import Minipg.Js.Utf8
import Mathlib.Tactic.IntervalCases

/-!
# The text of a parameter

`encodeParam` and `arrayLiteral` (`src/encode.ts`) build the text of a value as a string;
`encodeValueInto` writes the same bytes into the buffer without it (`encodeValueInto_yields`).
-/

namespace Minipg.Encode

open Js Writer Appending

variable {js : Engine}

/-- How a number is printed: an integer that is safe by its digits, and nothing but ASCII. -/
structure Prints (js : Engine) : Prop where
  integer : ∀ x n, x.safeInteger? = some n → js.numberString x = bigintString n
  ascii : ∀ x, ∀ u ∈ js.numberString x, IsAscii u ∧ u ≠ 0

/-! ### Strings -/

/-- `s.replace(/\\/g, '\\\\').replace(/"/g, '\\"')`. -/
def escQuoted (s : JsString) : JsString :=
  s.flatMap fun c => if c = 0x22 ∨ c = 0x5c then [0x5c, c] else [c]

def quoted (s : JsString) : JsString := 0x22 :: (escQuoted s ++ [0x22])

/-- `toISOString`. -/
def toISOString : Option Time → Except JsError JsString
  | none => .error .rangeError
  | some t => .ok (isoString t.ms)

/-- `JSON.stringify(v)` where a string is needed. -/
def jsonText (js : Engine) (v : Value) : Except JsError JsString :=
  match js.stringify v with
  | .ok (some s) => .ok s
  | .ok none => .error .typeError
  | .error e => .error e

mutual

def elementLiteral (js : Engine) : Value → Except JsError JsString
  | .undefined | .null => .ok (ascii "NULL")
  | .array arr => do
    let s ← elementLiterals js arr 0
    return 0x7b :: (s ++ [0x7d])
  | .number x => .ok (js.string (.number x))
  | .bigint n => .ok (js.string (.bigint n))
  | .boolean b => .ok (ascii (if b then "t" else "f"))
  | .date t => (toISOString t).map quoted
  | .buffer b => .ok (quoted (ascii "\\x" ++ hex b))
  | .object id => (jsonText js (.object id)).map quoted
  | .string s => .ok (quoted s)
  | .other id => .ok (quoted (js.string (.other id)))

/-- The loop of `arrayLiteral` from index `i` on. -/
def elementLiterals (js : Engine) : List Value → Nat → Except JsError JsString
  | [], _ => .ok []
  | v :: rest, i => do
    let e ← elementLiteral js v
    let s ← elementLiterals js rest (i + 1)
    return (if i ≠ 0 then [0x2c] else []) ++ e ++ s

end

def arrayLiteral (js : Engine) (arr : List Value) : Except JsError JsString := do
  let s ← elementLiterals js arr 0
  return 0x7b :: (s ++ [0x7d])

/-- The `EncodedParam` of a value. -/
structure EncodedParam where
  format : Format
  bytes : Option (List UInt8)
  deriving DecidableEq, Repr

def textParam (s : JsString) : EncodedParam := ⟨.text, some (utf8 s)⟩

/-- `String(v)`, unless there is a U+0000 in it. -/
def guarded (s : JsString) : Except JsError EncodedParam :=
  if hasNul s then .error (.error nulMsg) else .ok (textParam s)

def encodeParam (js : Engine) : Value → Except JsError EncodedParam
  | .undefined | .null => .ok ⟨.text, none⟩
  | .buffer b => .ok ⟨.binary, some b⟩
  | .date t => (toISOString t).map textParam
  | .boolean b => .ok (textParam (ascii (if b then "t" else "f")))
  | .array arr => (arrayLiteral js arr).map textParam
  | .object id => (jsonText js (.object id)).map textParam
  | .string s => guarded s
  | .number x => guarded (js.string (.number x))
  | .bigint n => guarded (js.string (.bigint n))
  | .other id => guarded (js.string (.other id))

/-- The outcome of a text. -/
def textOutcome : Except JsError JsString → Outcome Thrown UInt8 Unit
  | .error e => .error (.js e)
  | .ok s => .ok ((), utf8 s)

/-! ### Digits -/

theorem digitChar_toNat {n : Nat} (h : n < 10) : (Nat.digitChar n).toNat = 48 + n := by
  interval_cases n <;> rfl

/-- The digits of the loop are those of the number. -/
theorem digits_eq (n : Nat) : digits (digitCount n) n =
    (Nat.toDigits 10 n).map fun c => byteOf c.toNat := by
  induction n using Nat.strongRecOn with
  | ind n ih =>
    unfold digitCount
    by_cases hn : n < 10
    · rw [if_pos hn, Nat.toDigits_of_lt_base hn]
      show [] ++ [byteOf (48 + n % 10)] = [byteOf (Nat.digitChar n).toNat]
      rw [digitChar_toNat hn, Nat.mod_eq_of_lt hn]
      rfl
    · rw [if_neg hn, Nat.toDigits_of_base_le (by decide) (Nat.not_lt.mp hn), List.map_append,
        ← ih (n / 10) (by omega)]
      show digits (digitCount (n / 10)) (n / 10) ++ [byteOf (48 + n % 10)] = _
      rw [← digitChar_toNat (Nat.mod_lt n (by decide))]
      rfl

theorem ascii_eq (s : String) : ascii s = s.toList.map fun c => UInt16.ofNat c.toNat := rfl

theorem latin1_ascii (s : String) : latin1 (ascii s) = s.toList.map fun c => byteOf c.toNat := by
  rw [ascii_eq, latin1, List.map_map]
  refine List.map_congr_left fun c _ => UInt8.toNat_inj.mp ?_
  show c.toNat % 65536 % 256 = c.toNat % 256
  omega

/-- Only ASCII in it. -/
def AllAscii (s : JsString) : Prop := ∀ u ∈ s, IsAscii u

instance (s : JsString) : Decidable (AllAscii s) := List.decidableBAll _ s

theorem allAscii_of_chars {s : String} (h : ∀ c ∈ s.toList, c.toNat < 128) :
    AllAscii (ascii s) := by
  intro u hu
  obtain ⟨c, hc, rfl⟩ := List.mem_map.mp hu
  have hlt := h c hc
  show c.toNat % 65536 < 128
  omega

theorem toDigits_ascii {n : Nat} : ∀ c ∈ Nat.toDigits 10 n, 48 ≤ c.toNat ∧ c.toNat < 58 := by
  intro c hc
  have hd := Nat.isDigit_of_mem_toDigits (by decide) (by decide) hc
  unfold Char.isDigit at hd
  simp only [Bool.and_eq_true, decide_eq_true_eq] at hd
  exact ⟨hd.1, Nat.lt_succ_of_le hd.2⟩

theorem toString_toList (n : Int) : (toString n).toList =
    (if n < 0 then ['-'] else []) ++ Nat.toDigits 10 n.natAbs := by
  cases n with
  | ofNat m =>
    show (Nat.repr m).toList = _
    rw [Nat.toList_repr, if_neg (show ¬Int.ofNat m < 0 from Int.not_lt.mpr (Int.natCast_nonneg m))]
    rfl
  | negSucc m =>
    show ("-" ++ Nat.repr (m + 1)).toList = _
    rw [String.toList_append, Nat.toList_repr, if_pos (Int.negSucc_lt_zero m)]
    rfl

/-- What stands in the digits of a number. -/
theorem bigintString_ascii (n : Int) :
    AllAscii (bigintString n) ∧ hasNul (bigintString n) = false := by
  have hchars : ∀ c ∈ (toString n).toList, 0 < c.toNat ∧ c.toNat < 128 := by
    intro c hc
    rw [toString_toList] at hc
    rcases List.mem_append.mp hc with hc | hc
    · split at hc
      · rw [List.mem_singleton.mp hc]
        decide
      · cases hc
    · have hd := toDigits_ascii c hc
      omega
  refine ⟨allAscii_of_chars fun c hc => (hchars c hc).2, ?_⟩
  unfold hasNul
  rw [← Bool.not_eq_true, List.contains_iff_mem]
  intro hm
  obtain ⟨c, hc, h0⟩ := List.mem_map.mp hm
  have hpos := hchars c hc
  have hz : c.toNat % 65536 = 0 := congrArg UInt16.toNat h0
  omega

theorem latin1_bigintString (n : Int) : latin1 (bigintString n) =
    (if n < 0 then [byteOf 45] else []) ++ digits (digitCount n.natAbs) n.natAbs := by
  unfold bigintString
  rw [latin1_ascii, toString_toList, List.map_append, digits_eq]
  split <;> rfl

/-! ### Dates -/

/-- ASCII that is not escaped between quotes. -/
def AllPlain (s : JsString) : Prop := ∀ u ∈ s, IsAscii u ∧ ¬(u = 0x22 ∨ u = 0x5c)

instance (s : JsString) : Decidable (AllPlain s) := List.decidableBAll _ s

theorem AllPlain.ascii {s : JsString} (h : AllPlain s) : AllAscii s := fun u hu => (h u hu).1

theorem allPlain_append {s t : JsString} (h : AllPlain s) (h' : AllPlain t) :
    AllPlain (s ++ t) := by
  intro u hu
  rcases List.mem_append.mp hu with hu | hu
  · exact h u hu
  · exact h' u hu

theorem padded_plain : ∀ width n, AllPlain (padded width n)
  | 0, _ => fun _ hu => (nomatch hu)
  | width + 1, n => by
    refine allPlain_append (padded_plain width _) fun u hu => ?_
    have hval : u.toNat = 48 + (n % 10).toNat := by
      rw [List.mem_singleton.mp hu]
      show (48 + (n % 10).toNat) % 65536 = _
      omega
    refine ⟨?_, ?_⟩
    · show u.toNat < 128
      omega
    · rintro (rfl | rfl)
      · have h34 : (0x22 : UInt16).toNat = 34 := rfl
        omega
      · have h92 : (0x5c : UInt16).toNat = 92 := rfl
        omega

theorem field_plain {s : JsString} (h : AllPlain s) (sep : String) (hsep : AllPlain (ascii sep))
    (width : Nat) (n : Int) : AllPlain (s ++ ascii sep ++ padded width n) :=
  allPlain_append (allPlain_append h hsep) (padded_plain width n)

theorem isoString_plain (t : Int) : AllPlain (isoString t) := by
  have hdash : AllPlain (ascii "-") := by decide
  have hcolon : AllPlain (ascii ":") := by decide
  have hsign : ∀ (c : Prop) [Decidable c], AllPlain (ascii (if c then "-" else "+")) := by
    intro c _
    split
    · exact hdash
    · decide
  have hyear : AllPlain (if 0 ≤ (utcOf t).year ∧ (utcOf t).year ≤ 9999 then padded 4 (utcOf t).year
      else ascii (if (utcOf t).year < 0 then "-" else "+") ++ padded 6 (utcOf t).year.natAbs) := by
    split
    · exact padded_plain _ _
    · exact allPlain_append (hsign _) (padded_plain _ _)
  have hmonth := field_plain hyear "-" hdash 2 (utcOf t).month
  have hdate := field_plain hmonth "-" hdash 2 (utcOf t).date
  have hhours := field_plain hdate "T" (by decide) 2 (utcOf t).hours
  have hminutes := field_plain hhours ":" hcolon 2 (utcOf t).minutes
  have hseconds := field_plain hminutes ":" hcolon 2 (utcOf t).seconds
  have hms := field_plain hseconds "." (by decide) 3 (utcOf t).ms
  exact allPlain_append hms (by decide)

/-- The fields of a time value have two digits, and the milliseconds three. -/
theorem utcOf_bounds (t : Int) : (0 ≤ (utcOf t).month ∧ (utcOf t).month < 100) ∧
    (0 ≤ (utcOf t).date ∧ (utcOf t).date < 100) ∧ (0 ≤ (utcOf t).hours ∧ (utcOf t).hours < 100) ∧
    (0 ≤ (utcOf t).minutes ∧ (utcOf t).minutes < 100) ∧
    (0 ≤ (utcOf t).seconds ∧ (utcOf t).seconds < 100) ∧
    (0 ≤ (utcOf t).ms ∧ (utcOf t).ms < 1000) := by
  unfold utcOf civil
  dsimp only
  have hdoe : 0 ≤ (t / 86400000 + 719468) % 146097 ∧ (t / 86400000 + 719468) % 146097 < 146097 := by
    omega
  generalize (t / 86400000 + 719468) % 146097 = doe at hdoe
  generalize hyoe : (doe - doe / 1460 + doe / 36524 - doe / 146096) / 365 = yoe
  have hdoy : -5 ≤ doe - (365 * yoe + yoe / 4 - yoe / 100) ∧
      doe - (365 * yoe + yoe / 4 - yoe / 100) < 1000 := by
    omega
  generalize doe - (365 * yoe + yoe / 4 - yoe / 100) = doy at hdoy
  refine ⟨?_, ?_, ?_, ?_, ?_, ?_⟩
  · split <;> omega
  all_goals omega

/-- A digit that is written as a byte. -/
theorem digit_byte {k k' : Int} (h : k = k') (h0 : 0 ≤ k) (h9 : k < 10) :
    byteOf ((48 + k) % 256).toNat = byteOf (UInt16.ofNat (48 + k'.toNat)).toNat := by
  subst h
  apply UInt8.toNat_inj.mp
  show ((48 + k) % 256).toNat % 256 = (48 + k.toNat) % 65536 % 256
  omega

theorem latin1_append (s t : JsString) : latin1 (s ++ t) = latin1 s ++ latin1 t := List.map_append

/-- The bytes that are written one by one. -/
theorem writeIso_fields {t : Time} (hy : 0 ≤ (utcOf t.ms).year ∧ (utcOf t.ms).year ≤ 9999)
    (w : Writer) : writeIso (some t) w = .ok ((), w.app (latin1 (isoString t.ms))) := by
  obtain ⟨hmonth, hdate, hhours, hminutes, hseconds, hms⟩ := utcOf_bounds t.ms
  have hiso : isoString t.ms = padded 4 (utcOf t.ms).year ++ ascii "-" ++
      padded 2 (utcOf t.ms).month ++ ascii "-" ++ padded 2 (utcOf t.ms).date ++ ascii "T" ++
      padded 2 (utcOf t.ms).hours ++ ascii ":" ++ padded 2 (utcOf t.ms).minutes ++ ascii ":" ++
      padded 2 (utcOf t.ms).seconds ++ ascii "." ++ padded 3 (utcOf t.ms).ms ++ ascii "Z" := by
    unfold isoString
    dsimp only
    rw [if_pos hy]
  have htwo : ∀ n : Int, 0 ≤ n ∧ n < 100 → latin1 (padded 2 n) =
      [byteOf ((48 + n / 10) % 256).toNat, byteOf ((48 + n % 10) % 256).toNat] := by
    intro n hn
    show [byteOf _, byteOf _] = _
    rw [digit_byte (show n / 10 = n / 10 % 10 by omega) (by omega) (by omega),
      digit_byte (show n % 10 = n % 10 from rfl) (by omega) (by omega)]
  have hthree : latin1 (padded 3 (utcOf t.ms).ms) =
      [byteOf ((48 + (utcOf t.ms).ms / 100) % 256).toNat,
        byteOf ((48 + (utcOf t.ms).ms / 10 % 10) % 256).toNat,
        byteOf ((48 + (utcOf t.ms).ms % 10) % 256).toNat] := by
    show [byteOf _, byteOf _, byteOf _] = _
    generalize (utcOf t.ms).ms = n at hms
    rw [digit_byte (show n / 100 = n / 10 / 10 % 10 by omega) (by omega) (by omega),
      digit_byte (show n / 10 % 10 = n / 10 % 10 from rfl) (by omega) (by omega),
      digit_byte (show n % 10 = n % 10 from rfl) (by omega) (by omega)]
  have hfour : latin1 (padded 4 (utcOf t.ms).year) =
      [byteOf ((48 + (utcOf t.ms).year / 1000 % 10) % 256).toNat,
        byteOf ((48 + (utcOf t.ms).year / 100 % 10) % 256).toNat,
        byteOf ((48 + (utcOf t.ms).year / 10 % 10) % 256).toNat,
        byteOf ((48 + (utcOf t.ms).year % 10) % 256).toNat] := by
    show [byteOf _, byteOf _, byteOf _, byteOf _] = _
    generalize (utcOf t.ms).year = n
    rw [digit_byte (show n / 1000 % 10 = n / 10 / 10 / 10 % 10 by omega) (by omega) (by omega),
      digit_byte (show n / 100 % 10 = n / 10 / 10 % 10 by omega) (by omega) (by omega),
      digit_byte (show n / 10 % 10 = n / 10 % 10 from rfl) (by omega) (by omega),
      digit_byte (show n % 10 = n % 10 from rfl) (by omega) (by omega)]
  rw [hiso]
  simp only [latin1_append, hfour, hthree, htwo _ hmonth, htwo _ hdate, htwo _ hhours,
    htwo _ hminutes, htwo _ hseconds]
  show (if ¬(0 ≤ (utcOf t.ms).year ∧ (utcOf t.ms).year ≤ 9999) then asc (isoString t.ms) else _) w =
    _
  rw [if_neg (not_not.mpr hy)]
  show Except.ok ((), Writer.mk _ _) = Except.ok ((), Writer.mk _ _)
  have hdash : latin1 (ascii "-") = [byteOf ((45 : Int) % 256).toNat] := rfl
  have hcolon : latin1 (ascii ":") = [byteOf ((58 : Int) % 256).toNat] := rfl
  have ht : latin1 (ascii "T") = [byteOf ((84 : Int) % 256).toNat] := rfl
  have hdot : latin1 (ascii ".") = [byteOf ((46 : Int) % 256).toNat] := rfl
  have hz : latin1 (ascii "Z") = [byteOf ((90 : Int) % 256).toNat] := rfl
  simp only [Writer.app, hdash, hcolon, ht, hdot, hz, List.append_assoc, List.cons_append,
    List.nil_append]

theorem asc_yields {s : JsString} (h : AllAscii s) : Yields (asc s) (.ok ((), utf8 s)) := by
  rw [utf8_ascii h]
  exact append_yields (latin1 s)

theorem writeIso_yields (t : Option Time) : Yields (writeIso t) (textOutcome (toISOString t)) := by
  cases t with
  | none => exact .throw _
  | some t =>
    by_cases hy : 0 ≤ (utcOf t.ms).year ∧ (utcOf t.ms).year ≤ 9999
    · intro w
      rw [writeIso_fields hy w, ← utf8_ascii (isoString_plain t.ms).ascii]
      rfl
    · have hasc : writeIso (some t) = asc (isoString t.ms) := by
        unfold writeIso
        exact if_pos hy
      rw [hasc]
      exact asc_yields (isoString_plain t.ms).ascii

/-! ### Elements -/

/-- A text between two characters of ASCII. -/
theorem utf8_enclosed {a b : UInt16} (ha : IsAscii a) (hb : IsAscii b) (s : JsString) :
    utf8 (a :: (s ++ [b])) = byteOf a.toNat :: (utf8 s ++ [byteOf b.toNat]) := by
  have hlow : ∀ u ∈ [b].head?, isLow u = false := by
    intro u hu
    obtain rfl : b = u := Option.some.inj hu
    exact hb.not_surrogate.2
  rw [utf8_cons_ascii ha, utf8_append s hlow, utf8_cons_ascii hb]
  rfl

theorem escape_special {c : UInt16} (h : c = 0x22 ∨ c = 0x5c) (s : JsString) :
    escQuoted (c :: s) = 0x5c :: c :: escQuoted s := by
  show (if c = 0x22 ∨ c = 0x5c then [0x5c, c] else [c]) ++ escQuoted s = _
  rw [if_pos h]
  rfl

theorem escape_plain {c : UInt16} (h : ¬(c = 0x22 ∨ c = 0x5c)) (s : JsString) :
    escQuoted (c :: s) = c :: escQuoted s := by
  show (if c = 0x22 ∨ c = 0x5c then [0x5c, c] else [c]) ++ escQuoted s = _
  rw [if_neg h]
  rfl

theorem run_yields (run : JsString) : Yields (if run ≠ [] then str run else pure ())
    (.ok ((), utf8 run)) := by
  by_cases hr : run = []
  · subst hr
    exact .pure ()
  · rw [if_pos hr]
    exact append_yields _

/-- The runs between the characters that are escaped. -/
theorem writeEscRun_yields (s : JsString) : ∀ run,
    Yields (writeEscRun run s) (.ok ((), utf8 (run ++ escQuoted s))) := by
  induction s with
  | nil =>
    intro run
    show Yields _ (.ok ((), utf8 (run ++ [])))
    rw [List.append_nil]
    exact run_yields run
  | cons c rest ih =>
    intro run
    by_cases hc : c = 0x22 ∨ c = 0x5c
    · have hlow : ∀ u ∈ (0x5c :: c :: escQuoted rest).head?, isLow u = false := by
        intro u hu
        obtain rfl : 0x5c = u := Option.some.inj hu
        rfl
      have hascii : IsAscii (0x5c : UInt16) := by decide
      rw [escape_special hc, utf8_append run hlow, utf8_cons_ascii hascii]
      have hbytes := (run_yields run).bind fun _ =>
        (append_yields [byteOf (92 : Nat)]).bind fun _ => ih [c]
      have hstep : writeEscRun run (c :: rest) =
          (do (if run ≠ [] then str run else pure ()); byte 0x5c; writeEscRun [c] rest) := by
        rw [writeEscRun, if_pos hc]
        split <;> rfl
      rw [hstep]
      exact hbytes
    · rw [escape_plain hc]
      have hstep : writeEscRun run (c :: rest) = writeEscRun (run ++ [c]) rest := if_neg hc
      rw [hstep]
      have hplain := ih (run ++ [c])
      rw [List.append_assoc] at hplain
      exact hplain

theorem writeEscQuoted_yields (s : JsString) :
    Yields (writeEscQuoted s) (.ok ((), utf8 (escQuoted s))) := writeEscRun_yields s []

/-- A text between quotes. -/
theorem quoted_yields {body : Write Unit} {s : JsString}
    (h : Yields body (.ok ((), utf8 (escQuoted s)))) :
    Yields (do byte 0x22; body; byte 0x22) (.ok ((), utf8 (quoted s))) := by
  have hascii : IsAscii (0x22 : UInt16) := by decide
  unfold quoted
  rw [utf8_enclosed hascii hascii]
  exact (append_yields [byteOf (34 : Nat)]).bind fun _ => h.bind fun _ =>
    append_yields [byteOf (34 : Nat)]

theorem stringified_yields (v : Value) : Yields (stringified js v)
    (match jsonText js v with
      | .ok s => .ok (s, [])
      | .error e => .error (.js e)) := by
  unfold stringified jsonText
  cases js.stringify v with
  | error e => exact .throw _
  | ok o =>
    cases o with
    | none => exact .throw _
    | some s => exact .pure s

theorem elementLiterals_head : ∀ {arr : List Value} {i : Nat} {s : JsString},
    elementLiterals js arr (i + 1) = .ok s → ∀ u ∈ s.head?, isLow u = false
  | [], _, _, h => by
    cases h
    intro u hu
    cases hu
  | v :: rest, i, s, h => by
    obtain ⟨e, -, h⟩ := ok_of_bind h
    obtain ⟨t, -, h⟩ := ok_of_bind h
    cases h
    intro u hu
    obtain rfl : 0x2c = u := Option.some.inj hu
    rfl

/-- A list between braces. -/
theorem braces_yields {body : Write Unit} {e : Except JsError JsString}
    (h : Yields body (textOutcome e)) : Yields (do byte 0x7b; body; byte 0x7d)
      (textOutcome (do let s ← e; return 0x7b :: (s ++ [0x7d]))) := by
  have hopen : IsAscii (0x7b : UInt16) := by decide
  have hclose : IsAscii (0x7d : UInt16) := by decide
  have hall := (append_yields [byteOf (123 : Nat)]).bind fun _ => h.bind fun _ =>
    append_yields [byteOf (125 : Nat)]
  cases e with
  | error e => exact hall
  | ok s =>
    show Yields _ (.ok ((), utf8 (0x7b :: (s ++ [0x7d]))))
    rw [utf8_enclosed hopen hclose]
    exact hall

theorem escape_allPlain : ∀ {s : JsString}, AllPlain s → escQuoted s = s
  | [], _ => rfl
  | c :: s, h => by
    rw [escape_plain (h c List.mem_cons_self).2,
      escape_allPlain fun u hu => h u (List.mem_cons_of_mem c hu)]

theorem quotedIso_yields (t : Option Time) :
    Yields (do byte 0x22; writeIso t; byte 0x22) (textOutcome ((toISOString t).map quoted)) := by
  have ht := writeIso_yields t
  cases t with
  | none => exact (append_yields [byteOf (34 : Nat)]).bind fun _ => ht.bind fun _ => .pure ()
  | some t =>
    refine quoted_yields ?_
    rw [escape_allPlain (isoString_plain t.ms)]
    exact ht

theorem quotedJson_yields (v : Value) : Yields (do
      byte 0x22
      writeEscQuoted (← stringified js v)
      byte 0x22) (textOutcome ((jsonText js v).map quoted)) := by
  have hs := @stringified_yields js v
  cases hv : jsonText js v with
  | error e =>
    rw [hv] at hs
    exact (append_yields [byteOf (34 : Nat)]).bind fun _ => hs.bind_error
  | ok s =>
    rw [hv] at hs
    have hascii : IsAscii (0x22 : UInt16) := by decide
    show Yields _ (.ok ((), utf8 (quoted s)))
    unfold quoted
    rw [utf8_enclosed hascii hascii]
    have hrest : Yields (stringified js v >>= fun s => do writeEscQuoted s; byte 0x22)
        (Outcome.bind (.ok (s, [])) fun _ => _) :=
      hs.bind_ok ((writeEscQuoted_yields s).bind fun _ => append_yields [byteOf (34 : Nat)])
    exact (append_yields [byteOf (34 : Nat)]).bind fun _ => hrest

/-- An element after its comma, and the elements after it. -/
theorem elements_yields {v : Value} {rest : List Value} {i : Nat}
    (hv : Yields (writeElement js v) (textOutcome (elementLiteral js v)))
    (hrest : Yields (writeElements js rest (i + 1)) (textOutcome (elementLiterals js rest (i + 1))))
    (hhead : ∀ s, elementLiterals js rest (i + 1) = .ok s → ∀ u ∈ s.head?, isLow u = false) :
    Yields (writeElements js (v :: rest) i) (textOutcome (elementLiterals js (v :: rest) i)) := by
  have hsep : Yields (if i ≠ 0 then byte 0x2c else pure ())
      (.ok ((), utf8 (if i ≠ 0 then [0x2c] else []))) := by
    by_cases hi : i ≠ 0
    · rw [if_pos hi, if_pos hi]
      exact append_yields _
    · rw [if_neg hi, if_neg hi]
      exact .pure ()
  have hstep : writeElements js (v :: rest) i = (do
      (if i ≠ 0 then byte 0x2c else pure ())
      writeElement js v
      writeElements js rest (i + 1)) := by
    rw [writeElements]
    split <;> rfl
  have hall := hsep.bind fun _ => hv.bind fun _ => hrest
  rw [hstep, elementLiterals]
  cases he : elementLiteral js v with
  | error e =>
    rw [he] at hall
    exact hall
  | ok e =>
    rw [he] at hall
    cases hs : elementLiterals js rest (i + 1) with
    | error e' =>
      rw [hs] at hall
      exact hall
    | ok s =>
      rw [hs] at hall
      show Yields _ (.ok ((), utf8 ((if i ≠ 0 then [0x2c] else []) ++ e ++ s)))
      have hsepHead : utf8 ((if i ≠ 0 then [0x2c] else []) ++ e) =
          utf8 (if i ≠ 0 then [0x2c] else []) ++ utf8 e := by
        have hcomma : IsAscii (0x2c : UInt16) := by decide
        split
        · exact (utf8_cons_ascii hcomma e).trans (by rw [utf8_cons_ascii hcomma]; rfl)
        · rfl
      rw [utf8_append _ (hhead s hs), hsepHead, List.append_assoc]
      exact hall

mutual

theorem writeElement_yields (hjs : Prints js) : ∀ v,
    Yields (writeElement js v) (textOutcome (elementLiteral js v))
  | .undefined | .null => asc_yields (by decide)
  | .array arr => braces_yields (writeElements_yields hjs arr 0)
  | .number x => asc_yields fun u hu => (hjs.ascii x u hu).1
  | .bigint n => asc_yields (bigintString_ascii n).1
  | .boolean b => by
    cases b <;> exact append_yields _
  | .date t => quotedIso_yields t
  | .buffer b => quoted_yields (writeEscQuoted_yields _)
  | .string s => quoted_yields (writeEscQuoted_yields s)
  | .other id => quoted_yields (writeEscQuoted_yields _)
  | .object id => quotedJson_yields (.object id)

theorem writeElements_yields (hjs : Prints js) : ∀ arr i,
    Yields (writeElements js arr i) (textOutcome (elementLiterals js arr i))
  | [], _ => .pure ()
  | v :: rest, i => by
    have hv := writeElement_yields hjs v
    have hrest := writeElements_yields hjs rest (i + 1)
    exact elements_yields hv hrest fun s hs => elementLiterals_head hs

end

/-! ### Values -/

/-- How a parameter goes out: with its length, which may not fit. -/
def sentParam : Except JsError EncodedParam → Outcome Thrown UInt8 Format
  | .error e => .error (.js e)
  | .ok ⟨f, none⟩ => .ok (f, framed none)
  | .ok ⟨f, some b⟩ =>
    if b.length ≤ 2147483647 then .ok (f, framed (some b)) else .error (.js .rangeError)

theorem int32BE_length (n : Nat) : int32BE n =
    if n ≤ 2147483647 then .ok (bigEndian 4 n) else .error (.js .rangeError) := by
  unfold int32BE checked
  by_cases hn : n ≤ 2147483647
  · rw [if_pos hn, if_pos (by omega)]
  · rw [if_neg hn, if_neg (by omega)]

/-- A length and the bytes. -/
theorem sized_yields {k : Int} (b : List UInt8) (f : Format) (hk : k = b.length) :
    Yields (do (do int32 k; append b); return f) (sentParam (.ok ⟨f, some b⟩)) := by
  subst hk
  have hlen := appendOr_yields (int32BE b.length)
  show Yields ((appendOr (int32BE b.length) >>= fun _ => append b) >>= fun _ => pure f)
    (if b.length ≤ 2147483647 then _ else _)
  rw [int32BE_length] at hlen ⊢
  by_cases hb : b.length ≤ 2147483647
  · rw [if_pos hb] at hlen ⊢
    have hall := (hlen.bind fun _ => append_yields b).bind fun _ => .pure f
    have hframed : framed (some b) = bigEndian 4 b.length ++ b ++ [] := by
      rw [List.append_nil]
      rfl
    rw [if_pos hb, hframed]
    exact hall
  · rw [if_neg hb] at hlen ⊢
    rw [if_neg hb]
    exact hlen.bind_error.bind_error

/-- What is written after its length. -/
theorem patched_sent {body : Write Unit} {e : Except JsError JsString}
    (h : Yields body (textOutcome e)) :
    Yields (do lengthPatched body; return .text) (sentParam (e.map textParam)) := by
  have hp := lengthPatched_yields h
  cases e with
  | error e => exact hp.bind_error
  | ok s =>
    show Yields _ (if (utf8 s).length ≤ 2147483647 then _ else _)
    have hpatched : patched (textOutcome (.ok s)) =
        written ((int32BE (utf8 s).length).map (· ++ utf8 s)) := rfl
    rw [hpatched, int32BE_length] at hp
    by_cases hb : (utf8 s).length ≤ 2147483647
    · rw [if_pos hb] at hp ⊢
      have hall := hp.bind fun _ => .pure Format.text
      have hframed : framed (some (utf8 s)) = bigEndian 4 (utf8 s).length ++ utf8 s ++ [] := by
        rw [List.append_nil]
        rfl
      rw [hframed]
      exact hall
    · rw [if_neg hb] at hp ⊢
      exact hp.bind_error

/-- A string that is checked for U+0000. -/
theorem guarded_sent {s : JsString} {body : Write Unit}
    (hbody : Yields (do body; return Format.text) (sentParam (.ok (textParam s)))) :
    Yields (do guardNul s; body; return .text) (sentParam (guarded s)) := by
  unfold guardNul guarded
  by_cases hn : hasNul s
  · rw [if_pos hn, if_pos hn]
    exact Yields.bind_error (.throw _)
  · rw [if_neg hn, if_neg hn]
    intro w
    exact hbody w

theorem lpStr_sent (s : JsString) :
    Yields (do lpStr s; return .text) (sentParam (.ok (textParam s))) := sized_yields _ _ rfl

/-- What is printed in ASCII. -/
theorem lpAsc_sent {s : JsString} (h : AllAscii s) :
    Yields (do lpAsc s; return .text) (sentParam (.ok (textParam s))) := by
  have hall := sized_yields (latin1 s) .text rfl
  rw [← utf8_ascii h] at hall
  unfold lpAsc
  rw [← utf8_ascii h]
  exact hall

theorem lpAsciiInt_sent (n : Int) :
    Yields (do lpAsciiInt n; return .text) (sentParam (.ok (textParam (bigintString n)))) := by
  unfold textParam
  rw [utf8_ascii (bigintString_ascii n).1, latin1_bigintString]
  refine sized_yields _ _ ?_
  rw [List.length_append, digits_length]
  by_cases hn : n < 0
  · simp only [hn, if_true, List.length_cons, List.length_nil]
    omega
  · simp [hn]

theorem guarded_ascii {s : JsString} (h : hasNul s = false) : guarded s = .ok (textParam s) :=
  if_neg (Bool.eq_false_iff.mp h)

/-- **The bytes of a parameter** are those that `encodeParam` returns, with their length. -/
theorem encodeValueInto_yields (hjs : Prints js) : ∀ v,
    Yields (encodeValueInto js v) (sentParam (encodeParam js v))
  | .undefined | .null => (append_yields _).bind fun _ => .pure Format.text
  | .buffer b => sized_yields b .binary rfl
  | .number x => by
    have hnul : hasNul (js.numberString x) = false := by
      unfold hasNul
      rw [← Bool.not_eq_true, List.contains_iff_mem]
      exact fun hm => (hjs.ascii x 0 hm).2 rfl
    have hparam : encodeParam js (.number x) = .ok (textParam (js.numberString x)) :=
      guarded_ascii hnul
    rw [hparam]
    rw [encodeValueInto]
    split
    · next n hn =>
      rw [hjs.integer x n hn]
      exact lpAsciiInt_sent n
    · exact lpAsc_sent fun u hu => (hjs.ascii x u hu).1
  | .string s => guarded_sent (lpStr_sent s)
  | .boolean b => by
    have hone := sized_yields (k := 1) [byteOf (if b then 0x74 else 0x66)] .text rfl
    cases b
    · exact hone
    · exact hone
  | .date t => patched_sent (writeIso_yields t)
  | .array arr => patched_sent (braces_yields (writeElements_yields hjs arr 0))
  | .object id => by
    have hs := @stringified_yields js (.object id)
    show Yields (stringified js (.object id) >>= fun s => lpStr s >>= fun _ => pure Format.text)
      (sentParam ((jsonText js (.object id)).map textParam))
    cases hv : jsonText js (.object id) with
    | error e =>
      rw [hv] at hs
      exact hs.bind_error
    | ok s =>
      rw [hv] at hs
      exact hs.bind_nil (lpStr_sent s)
  | .bigint n => guarded_sent (lpAsc_sent (bigintString_ascii n).1)
  | .other id => guarded_sent (lpStr_sent _)

/-- An engine that prints integers, and knows the JSON text of null. -/
def nullEngine : Engine where
  numberString x := (x.safeInteger?.map bigintString).getD (ascii "NaN")
  stringify
    | .null => .ok (some (ascii "null"))
    | _ => .ok none
  otherString _ := []
  uint8Array _ := none

theorem nullEngine_prints : Prints nullEngine where
  integer x n h := by
    show (x.safeInteger?.map bigintString).getD _ = _
    rw [h]
    rfl
  ascii x u hu := by
    have hplain : ∀ s : JsString, AllAscii s → hasNul s = false → u ∈ s → IsAscii u ∧ u ≠ 0 := by
      rintro s hs h0 hm
      refine ⟨hs u hm, ?_⟩
      rintro rfl
      exact Bool.eq_false_iff.mp h0 (List.contains_iff_mem.mpr hm)
    have hu : u ∈ (x.safeInteger?.map bigintString).getD (ascii "NaN") := hu
    cases hn : x.safeInteger? with
    | none =>
      rw [hn] at hu
      exact hplain (ascii "NaN") (by decide) (by decide) hu
    | some n =>
      rw [hn] at hu
      exact hplain _ (bigintString_ascii n).1 (bigintString_ascii n).2 hu

theorem fits_some {b : List UInt8} : Fits (some b) ↔ b.length ≤ 2147483647 :=
  ⟨fun h => h b rfl, fun h _ hb => Option.some.inj hb ▸ h⟩

theorem long_param (hjs : Prints js) {v : Value} {f : Format} {b : List UInt8}
    (hp : encodeParam js v = .ok ⟨f, some b⟩) (hb : ¬b.length ≤ 2147483647) (w : Writer) :
    encodeValueInto js v w = .error (.js .rangeError) := by
  have hsent := encodeValueInto_yields hjs v w
  have hbad : sentParam (.ok ⟨f, some b⟩) = .error (.js .rangeError) := if_neg hb
  rw [hp, hbad] at hsent
  exact hsent

/-- **The two ways of a parameter** agree: `encodeValueInto` throws what `encodeParam` throws, and
appends the bytes that it returns with their length, and its format.  A length that is no int32
makes only `encodeValueInto` throw. -/
theorem encodeValueInto_eq (hjs : Prints js) (v : Value) (w : Writer) :
    (∀ e, encodeParam js v = .error e → encodeValueInto js v w = .error (.js e)) ∧
    ∀ p, encodeParam js v = .ok p →
      (Fits p.bytes → encodeValueInto js v w = .ok (p.format, w.app (framed p.bytes))) ∧
      (¬Fits p.bytes → encodeValueInto js v w = .error (.js .rangeError)) := by
  have hsent := encodeValueInto_yields hjs v w
  refine ⟨fun e he => ?_, fun p hp => ?_⟩
  · rw [he] at hsent
    exact hsent
  · obtain ⟨f, b⟩ := p
    rw [hp] at hsent
    cases b with
    | none =>
      refine ⟨fun _ => hsent, fun hno => ?_⟩
      exact absurd (fun _ hb => nomatch hb) hno
    | some b =>
      show (Fits (some b) → _) ∧ (¬Fits (some b) → _)
      rw [fits_some]
      refine ⟨fun hb => ?_, fun hb => long_param hjs hp hb w⟩
      have hok : sentParam (.ok ⟨f, some b⟩) = .ok (f, framed (some b)) := if_pos hb
      rw [hok] at hsent
      exact hsent

/-- The list `[7, null, "a\"b"]`. -/
def sampleList : Value := .array [.number 0x401C000000000000, .null, .string [0x61, 0x22, 0x62]]

theorem encodeValueInto_sampleList : Prints nullEngine ∧
    encodeParam nullEngine sampleList = .ok (textParam (ascii "\x7b7,NULL,\"a\\\"b\"\x7d")) ∧
    encodeValueInto nullEngine sampleList {} =
      .ok (.text, Writer.app {} (framed (some (utf8 (ascii "\x7b7,NULL,\"a\\\"b\"\x7d"))))) := by
  have hparam : encodeParam nullEngine sampleList =
      .ok (textParam (ascii "\x7b7,NULL,\"a\\\"b\"\x7d")) := by
    decide
  have hfits : Fits (some (utf8 (ascii "\x7b7,NULL,\"a\\\"b\"\x7d"))) := by
    intro bs hbs
    cases hbs
    decide
  exact ⟨nullEngine_prints, hparam,
    ((encodeValueInto_eq nullEngine_prints sampleList {}).2 _ hparam).1 hfits⟩

/-- A `Buffer` of 2147483648 bytes is a parameter that `encodeValueInto` cannot write. -/
theorem buffer_does_not_fit :
    encodeParam nullEngine (.buffer (List.replicate 2147483648 0)) =
      .ok ⟨.binary, some (List.replicate 2147483648 0)⟩ ∧
    encodeValueInto nullEngine (.buffer (List.replicate 2147483648 0)) {} =
      .error (.js .rangeError) := by
  have hlong : ¬(List.replicate 2147483648 (0 : UInt8)).length ≤ 2147483647 := by
    rw [List.length_replicate]
    decide
  exact ⟨rfl, long_param nullEngine_prints rfl hlong {}⟩

end Minipg.Encode
