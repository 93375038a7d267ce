import Minipg.Decode.Places
import Minipg.Encode.Appends
import Minipg.Js.Utf8

/-!
# Integers on the wire

What `readIntBE` and the shifts of a row mapper read where `writeIntBE` has written.
-/

namespace Minipg.Cells

open Js Encode

theorem emod_mul_step (n p : Int) :
    n % (p * 256) = (n / 256) % p * 256 + n % 256 := by
  have hdiv : n / (p * 256) = n / 256 / p := by
    rw [Int.mul_comm, Int.ediv_ediv_of_nonneg (by decide)]
  rw [Int.emod_def, Int.emod_def (n / 256), hdiv]
  have hn := Int.mul_ediv_add_emod n 256
  rw [Int.sub_mul]
  have hcomm : p * 256 * (n / 256 / p) = p * (n / 256 / p) * 256 := Int.mul_right_comm ..
  omega

theorem foldl_bigEndian : ∀ (size : Nat) (n : Int) (acc : Nat),
    (bigEndian size n).foldl (fun m c => m * 256 + c.toNat) acc =
      acc * 256 ^ size + (n % 256 ^ size).toNat
  | 0, n, acc => by
    have hone : n % 256 ^ 0 = 0 := by omega
    rw [hone]
    exact (Nat.mul_one acc).symm
  | size + 1, n, acc => by
    have hpos : (0 : Int) < 256 ^ size := Int.pow_pos (by decide)
    have hstep := emod_mul_step n (256 ^ size)
    have hrem := Int.emod_nonneg (n / 256) (Int.ne_of_gt hpos)
    rw [bigEndian, List.foldl_append, foldl_bigEndian size]
    show _ * 256 + (byteOf (n % 256).toNat).toNat = _
    rw [toNat_byteOf (by omega), Int.pow_succ, hstep, Nat.pow_succ, Nat.add_mul, Nat.mul_assoc]
    omega

/-- What is read of a written integer. -/
theorem readBE_bigEndian (size : Nat) (n : Int) (pre post : Bytes) :
    readBE size (pre ++ bigEndian size n ++ post) pre.length = .ok (n % 256 ^ size).toNat := by
  have hlen := bigEndian_length size n
  have hslice := slice_middle pre (bigEndian size n) post
  rw [hlen] at hslice
  unfold readBE
  rw [if_pos (by simp only [List.length_append, hlen]; omega), hslice, foldl_bigEndian,
    Nat.zero_mul, Nat.zero_add]

/-- An integer that fits is read back. -/
theorem signed_emod {bits : Nat} (hbits : 0 < bits) {n : Int} (hlo : -2 ^ (bits - 1) ≤ n)
    (hhi : n < 2 ^ (bits - 1)) : signed bits (n % 2 ^ bits).toNat = n := by
  obtain ⟨k, rfl⟩ : ∃ k, bits = k + 1 := ⟨bits - 1, by omega⟩
  have hpow : (2 : Int) ^ (k + 1) = 2 ^ k * 2 := Int.pow_succ ..
  have hcast : ((2 ^ k : Nat) : Int) = 2 ^ k := by norm_cast
  have hpos : (0 : Int) < 2 ^ k := Int.pow_pos (by decide)
  rw [Nat.add_sub_cancel] at hlo hhi
  unfold signed
  rw [Nat.add_sub_cancel, hpow]
  by_cases hneg : n < 0
  · have hmod : n % (2 ^ k * 2) = n + 2 ^ k * 2 := by
      rw [← Int.add_emod_right, Int.emod_eq_of_lt (by omega) (by omega)]
    rw [hmod, if_neg (by omega)]
    omega
  · have hmod : n % (2 ^ k * 2) = n := Int.emod_eq_of_lt (by omega) (by omega)
    rw [hmod, if_pos (by omega)]
    omega

/-- `word` reads what `readUInt32BE` reads. -/
theorem word_eq_readBE {b : Bytes} {o : Nat} (h : o + 4 ≤ b.length) :
    readBE 4 b o = .ok (word b o) := by
  have hslice : slice b o 4 = [b[o], b[o + 1], b[o + 2], b[o + 3]] := by
    unfold slice
    rw [List.drop_eq_getElem_cons (show o < b.length by omega),
      List.drop_eq_getElem_cons (show o + 1 < b.length by omega),
      List.drop_eq_getElem_cons (show o + 1 + 1 < b.length by omega),
      List.drop_eq_getElem_cons (show o + 1 + 1 + 1 < b.length by omega)]
    rfl
  unfold readBE
  rw [if_pos h, hslice]
  simp only [word, bits, List.foldl_cons, List.foldl_nil,
    List.getElem?_eq_getElem (show o < b.length by omega),
    List.getElem?_eq_getElem (show o + 1 < b.length by omega),
    List.getElem?_eq_getElem (show o + 2 < b.length by omega),
    List.getElem?_eq_getElem (show o + 3 < b.length by omega), Option.map_some, Option.getD_some]
  exact congrArg Except.ok (by omega)

theorem word_bigEndian (n : Int) (pre post : Bytes) :
    word (pre ++ bigEndian 4 n ++ post) pre.length = (n % 2 ^ 32).toNat := by
  have hread := readBE_bigEndian 4 n pre post
  rw [word_eq_readBE (by simp only [List.length_append, bigEndian_length]; omega)] at hread
  exact Except.ok.inj hread

end Minipg.Cells
