import Mathlib.Data.Int.Bitwise
import Mathlib.Data.Nat.Bitwise
import Minipg.Protocol

/-!
# Log positions

An LSN is a 64-bit position in the WAL; `src/replication.ts` shows it as two hexadecimal
halves, `16/B374D848`.  `lsnFromString` reads back what `lsnToString` writes
(`lsnFromString_lsnToString`), so an event's `endLsn` is acknowledged at its own position.
-/

namespace Minipg

/-- `n.toString(16).toUpperCase()`. -/
def hexDigits (n : Nat) : List Char := (Nat.toDigits 16 n).map Char.toUpper

def lsnToString (lsn : Nat) : String :=
  String.ofList (hexDigits (lsn >>> 32) ++ '/' :: hexDigits (lsn &&& 0xffffffff))

/-- The value of a hexadecimal digit. -/
def hexValue (c : Char) : Option Nat :=
  if '0' ≤ c ∧ c ≤ '9' then some (c.toNat - '0'.toNat)
  else if 'A' ≤ c ∧ c ≤ 'F' then some (c.toNat - 'A'.toNat + 10)
  else if 'a' ≤ c ∧ c ≤ 'f' then some (c.toNat - 'a'.toNat + 10)
  else none

/-- The number that a text begins with, if it begins with a digit. -/
def hexNumber : List Char → Option Nat → Option Nat
  | [], acc => acc
  | c :: cs, acc =>
    match hexValue c with
    | none => acc
    | some d => hexNumber cs (some (acc.getD 0 * 16 + d))

/-- The blanks that `parseInt` skips. -/
def strWhiteSpace : List Nat :=
  [0x9, 0xa, 0xb, 0xc, 0xd, 0x20, 0xa0, 0x1680, 0x2000, 0x2001, 0x2002, 0x2003, 0x2004, 0x2005,
    0x2006, 0x2007, 0x2008, 0x2009, 0x200a, 0x2028, 0x2029, 0x202f, 0x205f, 0x3000, 0xfeff]

/-- A `0x` before the digits. -/
def skipPrefix : List Char → List Char
  | '0' :: 'x' :: cs | '0' :: 'X' :: cs => cs
  | cs => cs

/-- The double nearest to a whole number, ties to even; `none` is Infinity. -/
def toDouble (n : Nat) : Option Nat :=
  if n < 2 ^ 53 then some n
  else
    let unit := 2 ^ (n.log2 - 52)
    let low := n / unit
    let rest := n % unit
    let m := if 2 * rest < unit ∨ (2 * rest = unit ∧ low % 2 = 0) then low else low + 1
    if m * unit < 2 ^ 1024 then some (m * unit) else none

/-- `BigInt(parseInt(s, 16))`, which throws on NaN and on Infinity. -/
def parseInt16 (cs : List Char) : Option Int :=
  match cs.dropWhile (·.toNat ∈ strWhiteSpace) with
  | '-' :: cs => ((hexNumber (skipPrefix cs) none).bind toDouble).map fun n => -(n : Int)
  | '+' :: cs => ((hexNumber (skipPrefix cs) none).bind toDouble).map Int.ofNat
  | cs => ((hexNumber (skipPrefix cs) none).bind toDouble).map Int.ofNat

/-- `s.split('/')`, the first two parts. -/
def splitSlash (cs : List Char) : List Char × Option (List Char) :=
  match cs.dropWhile (· ≠ '/') with
  | [] => (cs, none)
  | _ :: lo => (cs.takeWhile (· ≠ '/'), some (lo.takeWhile (· ≠ '/')))

/-- `none`: it throws, also where the second half is missing. -/
def lsnFromString (s : String) : Option Int :=
  match splitSlash s.toList with
  | (_, none) => none
  | (hi, some lo) =>
    match parseInt16 hi, parseInt16 lo with
    | some hi, some lo => some (Int.lor (hi * 2 ^ 32) lo)
    | _, _ => none

/-- What `ack` and `from` accept. -/
inductive LsnArg
  | text (s : String)
  | bigint (n : Int)
  deriving DecidableEq, Repr

def toLsn : LsnArg → Option Int
  | .text s => lsnFromString s
  | .bigint n => some n

/-! ### The round trip -/

theorem hexValue_digitChar : ∀ d < 16, hexValue (Nat.digitChar d).toUpper = some d := by decide

theorem hexNumber_append {cs : List Char} (h : ∀ c ∈ cs, (hexValue c).isSome = true) {c : Char}
    {d : Nat} (hc : hexValue c = some d) (acc : Option Nat) :
    hexNumber (cs ++ [c]) acc = some ((hexNumber cs acc).getD 0 * 16 + d) := by
  induction cs generalizing acc with
  | nil => simp [hexNumber, hc]
  | cons b cs ih =>
    obtain ⟨e, he⟩ := Option.isSome_iff_exists.mp (h b List.mem_cons_self)
    rw [List.cons_append]
    simp only [hexNumber, he]
    exact ih (fun c hc => h c (List.mem_cons_of_mem b hc)) _

theorem hexDigits_of_le {n : Nat} (h : 16 ≤ n) :
    hexDigits n = hexDigits (n / 16) ++ [(Nat.digitChar (n % 16)).toUpper] := by
  unfold hexDigits
  rw [Nat.toDigits_of_base_le (by decide) h, List.map_append]
  rfl

theorem hexDigits_of_lt {n : Nat} (h : n < 16) : hexDigits n = [(Nat.digitChar n).toUpper] := by
  unfold hexDigits
  rw [Nat.toDigits_of_lt_base h]
  rfl

/-- What is written are digits, and they are read as the number. -/
theorem hexDigits_spec (n : Nat) :
    (∀ c ∈ hexDigits n, (hexValue c).isSome = true) ∧ hexNumber (hexDigits n) none = some n := by
  induction n using Nat.strongRecOn with
  | ind n ih =>
    by_cases hn : n < 16
    · have hd := hexValue_digitChar n hn
      rw [hexDigits_of_lt hn]
      simp [hexNumber, hd]
    · have hd := hexValue_digitChar (n % 16) (Nat.mod_lt n (by decide))
      obtain ⟨hall, hval⟩ := ih (n / 16) (by omega)
      rw [hexDigits_of_le (by omega)]
      refine ⟨fun c hc => ?_, ?_⟩
      · rcases List.mem_append.mp hc with hc | hc
        · exact hall c hc
        · rw [List.mem_singleton.mp hc, hd]
          rfl
      · rw [hexNumber_append hall hd, hval, Option.getD_some]
        congr 1
        omega

theorem hexDigits_ne_nil (n : Nat) : hexDigits n ≠ [] := by
  simp [hexDigits, Nat.toDigits_ne_nil]

/-- A digit is neither a blank, a sign nor a slash. -/
theorem not_digit {c : Char} (h : (hexValue c).isSome = true) :
    c.toNat ∉ strWhiteSpace ∧ c ≠ '-' ∧ c ≠ '+' ∧ c ≠ '/' ∧ c ≠ 'x' ∧ c ≠ 'X' := by
  refine ⟨?_, ?_, ?_, ?_, ?_, ?_⟩
  · intro hw
    have hblank : ∀ n ∈ strWhiteSpace, (hexValue (Char.ofNat n)).isSome = false := by decide
    have hc := hblank c.toNat hw
    rw [Char.ofNat_toNat, h] at hc
    cases hc
  all_goals
    rintro rfl
    exact absurd h (by decide)

theorem skipPrefix_digits {cs : List Char} (h : ∀ c ∈ cs, (hexValue c).isSome = true) :
    skipPrefix cs = cs := by
  unfold skipPrefix
  split
  · exact absurd rfl (not_digit (h 'x' (by simp))).2.2.2.2.1
  · exact absurd rfl (not_digit (h 'X' (by simp))).2.2.2.2.2
  · rfl

theorem parseInt16_hexDigits {n : Nat} (h : n < 2 ^ 53) :
    parseInt16 (hexDigits n) = some (n : Int) := by
  have hdouble : toDouble n = some n := if_pos h
  obtain ⟨hall, hval⟩ := hexDigits_spec n
  have hskip := skipPrefix_digits hall
  cases hd : hexDigits n with
  | nil => exact absurd hd (hexDigits_ne_nil n)
  | cons c cs =>
    rw [hd] at hall hval hskip
    obtain ⟨hw, hminus, hplus, -⟩ := not_digit (hall c List.mem_cons_self)
    have hdrop : (c :: cs).dropWhile (·.toNat ∈ strWhiteSpace) = c :: cs :=
      List.dropWhile_cons_of_neg (by simpa using hw)
    unfold parseInt16
    rw [hdrop]
    split
    · rename_i heq
      exact absurd (List.cons.inj heq).1 hminus
    · rename_i heq
      exact absurd (List.cons.inj heq).1 hplus
    · rw [hskip, hval, Option.bind_some, hdouble]
      rfl

theorem splitSlash_digits {hi lo : List Char} (hh : ∀ c ∈ hi, (hexValue c).isSome = true)
    (hl : ∀ c ∈ lo, (hexValue c).isSome = true) : splitSlash (hi ++ '/' :: lo) = (hi, some lo) := by
  have hne : ∀ cs : List Char, (∀ c ∈ cs, (hexValue c).isSome = true) →
      ∀ c ∈ cs, decide (c ≠ '/') = true := fun cs h c hc =>
    decide_eq_true (not_digit (h c hc)).2.2.2.1
  have hlo : lo.takeWhile (· ≠ '/') = lo := by
    have h : (lo ++ []).takeWhile (· ≠ '/') = lo ++ [].takeWhile (· ≠ '/') :=
      List.takeWhile_append_of_pos (hne lo hl)
    simpa using h
  have hhead : ('/' :: lo).takeWhile (· ≠ '/') = [] := List.takeWhile_cons_of_neg (by simp)
  have htail : ('/' :: lo).dropWhile (· ≠ '/') = '/' :: lo := List.dropWhile_cons_of_neg (by simp)
  unfold splitSlash
  rw [List.dropWhile_append_of_pos (hne hi hh), List.takeWhile_append_of_pos (hne hi hh), htail,
    hhead, List.append_nil]
  show (hi, some (lo.takeWhile (· ≠ '/'))) = (hi, some lo)
  rw [hlo]

/-- **A position is read back as it was written.** -/
theorem lsnFromString_lsnToString {lsn : Nat} (h : lsn < 2 ^ 64) :
    lsnFromString (lsnToString lsn) = some (lsn : Int) := by
  have hmask : lsn &&& 0xffffffff = lsn % 2 ^ 32 := Nat.and_two_pow_sub_one_eq_mod lsn 32
  have hshift : lsn >>> 32 = lsn / 2 ^ 32 := Nat.shiftRight_eq_div_pow lsn 32
  have hval : Int.lor (((lsn / 2 ^ 32 : Nat) : Int) * 2 ^ 32) ((lsn % 2 ^ 32 : Nat) : Int) =
      (lsn : Int) := by
    show ((lsn / 2 ^ 32 * 2 ^ 32 ||| lsn % 2 ^ 32 : Nat) : Int) = lsn
    rw [Nat.mul_comm, ← Nat.two_pow_add_eq_or_of_lt (Nat.mod_lt lsn (by decide)), Nat.div_add_mod]
  unfold lsnFromString lsnToString
  rw [String.toList_ofList, splitSlash_digits (hexDigits_spec _).1 (hexDigits_spec _).1, hmask,
    hshift]
  dsimp only
  rw [parseInt16_hexDigits (by omega), parseInt16_hexDigits (by omega)]
  dsimp only
  rw [hval]

end Minipg
