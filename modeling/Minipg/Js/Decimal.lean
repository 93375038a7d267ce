import Minipg.Js
import Mathlib.Tactic.Ring
import Mathlib.Tactic.IntervalCases

/-!
# Decimal digits

`padded` and `toString` write numbers in decimal digits.  Digits are appended to both in the same
way (`padded_append`, `decimal_append`), and `padStart` makes one of the other (`padStart_decimal`).
-/

namespace Minipg.Js

/-- `String(n)`. -/
def decimal (n : Nat) : JsString := ascii (toString n)

/-- `s.padStart(width, c)`. -/
def padStart (s : JsString) (width : Nat) (c : UInt16) : JsString :=
  List.replicate (width - s.length) c ++ s

theorem digitChar_unit {d : Nat} (h : d < 10) :
    UInt16.ofNat (Nat.digitChar d).toNat = UInt16.ofNat (48 + d) := by
  interval_cases d <;> rfl

theorem decimal_eq (n : Nat) :
    decimal n = (Nat.toDigits 10 n).map fun c => UInt16.ofNat c.toNat := by
  simp [decimal, ascii]

theorem decimal_lt {d : Nat} (h : d < 10) : decimal d = [UInt16.ofNat (48 + d)] := by
  rw [decimal_eq, Nat.toDigits_of_lt_base h]
  exact congrArg (fun u => [u]) (digitChar_unit h)

theorem decimal_step {n : Nat} (h : 10 ≤ n) :
    decimal n = decimal (n / 10) ++ [UInt16.ofNat (48 + n % 10)] := by
  rw [decimal_eq, decimal_eq, Nat.toDigits_of_base_le (by decide) h, List.map_append]
  exact congrArg (fun u => _ ++ [u]) (digitChar_unit (Nat.mod_lt n (by decide)))

theorem padded_length : ∀ (width : Nat) (n : Int), (padded width n).length = width
  | 0, _ => rfl
  | width + 1, n => by rw [padded, List.length_append, padded_length width]; rfl

theorem padded_succ (width n : Nat) :
    padded (width + 1) n = padded width (n / 10 : Nat) ++ [UInt16.ofNat (48 + n % 10)] := rfl

theorem pow_step {m b r : Nat} : (m * 10 ^ (b + 1) + r) / 10 = m * 10 ^ b + r / 10 ∧
    (m * 10 ^ (b + 1) + r) % 10 = r % 10 := by
  have h : m * 10 ^ (b + 1) = m * 10 ^ b * 10 := by ring
  omega

theorem padded_append (a m : Nat) : ∀ (b r : Nat), r < 10 ^ b →
    padded (a + b) (m * 10 ^ b + r : Nat) = padded a m ++ padded b r
  | 0, r, hr => by
    have h0 : r = 0 := by omega
    rw [h0, Nat.pow_zero, Nat.mul_one]
    exact (List.append_nil _).symm
  | b + 1, r, hr => by
    obtain ⟨hdiv, hmod⟩ := @pow_step m b r
    rw [← Nat.add_assoc, padded_succ, hdiv, hmod, padded_append a m b (r / 10) (by omega),
      padded_succ, List.append_assoc]

theorem decimal_append {m : Nat} (hm : 0 < m) : ∀ (b r : Nat), r < 10 ^ b →
    decimal (m * 10 ^ b + r) = decimal m ++ padded b r
  | 0, r, hr => by
    have h0 : r = 0 := by omega
    rw [h0, Nat.pow_zero, Nat.mul_one]
    exact (List.append_nil _).symm
  | b + 1, r, hr => by
    obtain ⟨hdiv, hmod⟩ := @pow_step m b r
    have hle : 10 ≤ m * 10 ^ (b + 1) + r := by
      have h1 : 1 * 10 ≤ m * 10 ^ b * 10 :=
        Nat.mul_le_mul_right 10 (Nat.mul_pos hm (Nat.pow_pos (by decide)))
      have h2 : m * 10 ^ (b + 1) = m * 10 ^ b * 10 := by ring
      omega
    rw [decimal_step hle, hdiv, hmod, decimal_append hm b (r / 10) (by omega), padded_succ,
      List.append_assoc]

/-- The first digits are those of the number without the last ones. -/
theorem padded_take (a b n : Nat) :
    (padded (a + b) n).take a = padded a (n / 10 ^ b : Nat) := by
  have hr := Nat.mod_lt n (show 0 < 10 ^ b from Nat.pow_pos (by decide))
  have happ := padded_append a (n / 10 ^ b) b (n % 10 ^ b) hr
  rw [Nat.mul_comm, Nat.div_add_mod] at happ
  rw [happ, List.take_left' (padded_length a _)]

theorem padded_zero : ∀ width, padded width 0 = List.replicate width 48
  | 0 => rfl
  | width + 1 => by
    rw [padded, Int.zero_ediv, padded_zero width, List.replicate_succ']
    rfl

theorem padStart_decimal : ∀ (width n : Nat), n < 10 ^ (width + 1) →
    padStart (decimal n) (width + 1) 48 = padded (width + 1) n
  | width, n, hn => by
    by_cases hlt : n < 10
    · rw [decimal_lt hlt, padded_succ, Nat.div_eq_of_lt hlt, Nat.mod_eq_of_lt hlt]
      exact congrArg (· ++ _) (padded_zero width).symm
    · cases width with
      | zero => exact absurd hn hlt
      | succ width =>
        have hrest := padStart_decimal width (n / 10) (by omega)
        rw [padded_succ, ← hrest, decimal_step (Nat.le_of_not_lt hlt)]
        unfold padStart
        rw [List.length_append, List.length_singleton, Nat.add_sub_add_right, List.append_assoc]

end Minipg.Js
