import Minipg.Decode.Dispatch
import Minipg.Decode.Entries
import Minipg.Decode.Places
import Minipg.Js.Utf8

/-!
# Three parsers of instants

`src/temporal.ts` parses the same grammar in a string, in the bytes of a buffer and in code that is
inlined.  The code agrees with the function on bytes everywhere (`snippetOutcome_eq`), and both
agree with the function on strings unless a text only begins like an infinity
(`instant_parsers_agree_iff`): they compare its length where the other compares the text.
-/

namespace Minipg.Cells

open Js

section Parsers

variable (rt : Runtime)

/-- What the caller makes of `out` and `ok`. -/
def snippetOutcome (b : Bytes) (o l : Nat) : Option Double :=
  if (instantSnippet rt (chars b) o (o + l)).2 then
    some (instantSnippet rt (chars b) o (o + l)).1
  else none

theorem snippetOutcome_eq (b : Bytes) (o l : Nat) :
    snippetOutcome rt b o l = instantFromBytes rt b o l := by
  unfold snippetOutcome instantFromBytes
  by_cases h : startsInfinity (chars b) o = true
  · have hlen : o + l - o = l := Nat.add_sub_cancel_left o l
    rw [if_pos h]
    simp only [instantSnippet, if_pos h, hlen, decide_eq_true_eq]
  · rw [if_neg h, instantSnippet_eq rt (chars b) o (o + l) (Bool.not_eq_true _ ▸ h)]

/-- A text that begins like an infinity and has the length of one. -/
def FakeInfinity (s : JsString) : Prop :=
  s ≠ ascii "infinity" ∧ s ≠ ascii "-infinity" ∧
    (s[0]? = some 105 ∧ s.length = 8 ∨
      s[0]? = some 45 ∧ s[1]? = some 105 ∧ s.length = 9)

instance (s : JsString) : Decidable (FakeInfinity s) := inferInstanceAs (Decidable (_ ∧ _ ∧ _))

variable {s : JsString}

theorem latin1_length (s : JsString) : (latin1 s).length = s.length := List.length_map ..

/-- The bytes of the text are its characters. -/
theorem chars_latin1 (hs : ∀ u ∈ s, IsAscii u) :
    chars (latin1 s) = fun i => s[i]?.map UInt16.toNat := by
  funext i
  unfold chars latin1
  rw [List.getElem?_map]
  cases hi : s[i]? with
  | none => rfl
  | some u =>
    have hlt : u.toNat < 128 := hs u (List.mem_of_getElem? hi)
    show some (byteOf u.toNat).toNat = some u.toNat
    rw [toNat_byteOf (by omega)]

theorem getElem?_unit {i : Nat} (u : UInt16) :
    s[i]?.map UInt16.toNat = some u.toNat ↔ s[i]? = some u := by
  cases s[i]? with
  | none => exact ⟨nofun, nofun⟩
  | some v =>
    exact ⟨fun h => congrArg some (UInt16.toNat_inj.mp (Option.some.inj h)), fun h => congrArg _ h⟩

/-- The length that both of the other parsers ask for. -/
theorem infinity_length (hstart : s[0]? = some 105 ∨ s[0]? = some 45 ∧ s[1]? = some 105) :
    s.length = (if s[0]? = some 45 then 9 else 8) ↔
      s[0]? = some 105 ∧ s.length = 8 ∨ s[0]? = some 45 ∧ s[1]? = some 105 ∧ s.length = 9 := by
  rcases hstart with h | ⟨h, h'⟩
  · rw [h]
    simp
  · rw [h, h']
    simp

/-- On the bytes of a text alone the parsers agree, unless its length is taken for an infinity. -/
theorem instantFromBytes_string_iff (hs : ∀ u ∈ s, IsAscii u) :
    instantFromBytes rt (latin1 s) 0 s.length = instantFromString rt s ↔ ¬FakeInfinity s := by
  have hi : s[0]?.map UInt16.toNat = some 105 ↔ s[0]? = some 105 := getElem?_unit 105
  have hminus : s[0]?.map UInt16.toNat = some 45 ↔ s[0]? = some 45 := getElem?_unit 45
  have hi' : s[1]?.map UInt16.toNat = some 105 ↔ s[1]? = some 105 := getElem?_unit 105
  have hstart : startsInfinity (fun i => s[i]?.map UInt16.toNat) 0 = true ↔
      s[0]? = some 105 ∨ s[0]? = some 45 ∧ s[1]? = some 105 := by
    unfold startsInfinity
    rw [decide_eq_true_eq, hi, hminus, hi']
  unfold instantFromBytes instantFromString
  rw [chars_latin1 hs]
  dsimp only
  by_cases h : startsInfinity (fun i => s[i]?.map UInt16.toNat) 0 = true
  · have hlength := infinity_length (hstart.mp h)
    rw [if_pos h, if_pos h, show (if s[0]?.map UInt16.toNat = some 45 then 9 else 8) =
      if s[0]? = some 45 then 9 else 8 from if_congr hminus rfl rfl]
    by_cases hname : s = ascii "infinity" ∨ s = ascii "-infinity"
    · have hlen : s.length = if s[0]? = some 45 then 9 else 8 := by
        rcases hname with rfl | rfl
        · decide
        · decide
      rw [if_pos hname, if_pos hlen]
      exact iff_of_true rfl fun hfake => hname.elim hfake.1 hfake.2.1
    · rw [if_neg hname]
      obtain ⟨hpos, hneg⟩ := not_or.mp hname
      by_cases hlen : s.length = if s[0]? = some 45 then 9 else 8
      · rw [if_pos hlen]
        exact iff_of_false nofun fun hnot => hnot ⟨hpos, hneg, hlength.mp hlen⟩
      · rw [if_neg hlen]
        exact iff_of_true rfl fun hfake => hlen (hlength.mpr hfake.2.2)
  · rw [if_neg h, if_neg h, Nat.zero_add]
    refine iff_of_true rfl fun hfake => h (hstart.mpr ?_)
    rcases hfake.2.2 with ⟨h₀, -⟩ | ⟨h₀, h₁, -⟩
    · exact .inl h₀
    · exact .inr ⟨h₀, h₁⟩

/-- **The three parsers agree** on a text, wherever it lies in a buffer, exactly when it does not
only begin like an infinity of its length. -/
theorem instant_parsers_agree_iff (hs : ∀ u ∈ s, IsAscii u) (pre post : Bytes) :
    (instantFromBytes rt (pre ++ latin1 s ++ post) pre.length s.length = instantFromString rt s ∧
      snippetOutcome rt (pre ++ latin1 s ++ post) pre.length s.length =
        instantFromString rt s) ↔ ¬FakeInfinity s := by
  have hplace := @instantFromBytes_place rt pre (latin1 s) post
  rw [latin1_length] at hplace
  rw [snippetOutcome_eq, hplace, instantFromBytes_string_iff rt hs, and_self]

end Parsers

open Plans (hexOnly)

/-- A date between other bytes. -/
theorem date_parsers_agree :
    instantFromBytes hexOnly.env.rt ([120, 120] ++ latin1 (ascii "2020-06-01") ++ [121]) 2 10 =
        instantFromString hexOnly.env.rt (ascii "2020-06-01") ∧
      snippetOutcome hexOnly.env.rt ([120, 120] ++ latin1 (ascii "2020-06-01") ++ [121]) 2 10 =
        instantFromString hexOnly.env.rt (ascii "2020-06-01") :=
  (@instant_parsers_agree_iff hexOnly.env.rt (ascii "2020-06-01") (forall_of_all (by decide))
    [120, 120] [121]).mpr (by decide)

/-- A word that begins with an `i` is no timestamp as a string, and an infinity as bytes. -/
theorem italians_differ :
    instantFromString hexOnly.env.rt (ascii "italians") = none ∧
    instantFromBytes hexOnly.env.rt (latin1 (ascii "italians")) 0 8 = some hexOnly.env.rt.nan ∧
    snippetOutcome hexOnly.env.rt (latin1 (ascii "italians")) 0 8 = some hexOnly.env.rt.nan := by
  decide

end Minipg.Cells
