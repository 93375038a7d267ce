import Minipg.Decode.Columns
import Minipg.Encode.Text
import Mathlib.Data.List.Forall2

/-!
# Array literals

`arrayLiteral` (`src/encode.ts`) writes a nested array as the text of an array, which
`parseArrayLiteral` (`src/decode.ts`) reads.  `Arr`, `Quoted` and `Bare` are the loops of the parser
without a bound on their steps; they end on every text (`parse_reads`).  What they make of a text
does not depend on what stands after it (`ReadsAs`), and so the literal of an array is read as the
array (`arrayLiteral_parses`).
-/

namespace Minipg.Literals

open Js Cells Encode

variable {text : JsString} {leaf : Leaf} {delim : UInt16}

/-! ### The loops -/

/-- The loop over an element in quotes. -/
inductive Quoted (text : JsString) : Nat → JsString → JsString × Nat → Prop
  | ends {i : Nat} {s : JsString} (h : text[i]? = none) : Quoted text i s (s, i)
  | closes {i : Nat} {s : JsString} (h : text[i]? = some 34) : Quoted text i s (s, i + 1)
  | escapes {i : Nat} {s : JsString} {r : JsString × Nat} (h : text[i]? = some 92)
      (rest : Quoted text (i + 2) (s ++ (text[i + 1]?.map ([·])).getD (ascii "undefined")) r) :
      Quoted text i s r
  | takes {i : Nat} {s : JsString} {r : JsString × Nat} {ch : UInt16} (h : text[i]? = some ch)
      (hesc : ch ≠ 92) (hend : ch ≠ 34) (rest : Quoted text (i + 1) (s ++ [ch]) r) :
      Quoted text i s r

/-- The loop to the end of an element without quotes. -/
inductive Bare (text : JsString) (delim : UInt16) : Nat → Nat → Prop
  | ends {j : Nat} (h : text[j]? = none) : Bare text delim j j
  | stops {j : Nat} {c : UInt16} (h : text[j]? = some c) (hc : c = delim ∨ c = 125) :
      Bare text delim j j
  | takes {j k : Nat} {c : UInt16} (h : text[j]? = some c) (hc : ¬(c = delim ∨ c = 125))
      (rest : Bare text delim (j + 1) k) : Bare text delim j k

/-- `raw === 'NULL' ? null : decodeLeaf(raw)`. -/
def bareValue (leaf : Leaf) (raw : JsString) : Except JsError Value :=
  if raw = ascii "NULL" then pure .null else leaf raw

/-- The loop of `arr()`. -/
inductive Arr (text : JsString) (leaf : Leaf) (delim : UInt16) :
    Nat → List Value → Except JsError (List Value × Nat) → Prop
  | ends {i : Nat} {out : List Value} (h : text[i]? = none) :
      Arr text leaf delim i out (.ok (out, i))
  | closes {i : Nat} {out : List Value} (h : text[i]? = some 125) :
      Arr text leaf delim i out (.ok (out, i + 1))
  | skips {i : Nat} {out : List Value} {r : Except JsError (List Value × Nat)}
      (h : text[i]? = some delim) (hd : delim ≠ 125) (rest : Arr text leaf delim (i + 1) out r) :
      Arr text leaf delim i out r
  | nests {i j : Nat} {out inner : List Value} {r : Except JsError (List Value × Nat)}
      (h : text[i]? = some 123) (hd : delim ≠ 123)
      (inside : Arr text leaf delim (i + 1) [] (.ok (inner, j)))
      (rest : Arr text leaf delim j (out ++ [.array inner]) r) : Arr text leaf delim i out r
  | nestThrows {i : Nat} {out : List Value} {e : JsError} (h : text[i]? = some 123)
      (hd : delim ≠ 123) (inside : Arr text leaf delim (i + 1) [] (.error e)) :
      Arr text leaf delim i out (.error e)
  | quoted {i j : Nat} {out : List Value} {s : JsString} {v : Value}
      {r : Except JsError (List Value × Nat)} (h : text[i]? = some 34) (hd : delim ≠ 34)
      (hq : Quoted text (i + 1) [] (s, j)) (hv : leaf s = .ok v)
      (rest : Arr text leaf delim j (out ++ [v]) r) : Arr text leaf delim i out r
  | quotedThrows {i j : Nat} {out : List Value} {s : JsString} {e : JsError}
      (h : text[i]? = some 34) (hd : delim ≠ 34) (hq : Quoted text (i + 1) [] (s, j))
      (hv : leaf s = .error e) : Arr text leaf delim i out (.error e)
  | bare {i j : Nat} {out : List Value} {c : UInt16} {v : Value}
      {r : Except JsError (List Value × Nat)} (h : text[i]? = some c)
      (hc : c ≠ 125 ∧ c ≠ delim ∧ c ≠ 123 ∧ c ≠ 34) (hb : Bare text delim i j)
      (hv : bareValue leaf ((text.drop i).take (j - i)) = .ok v)
      (rest : Arr text leaf delim j (out ++ [v]) r) : Arr text leaf delim i out r
  | bareThrows {i j : Nat} {out : List Value} {c : UInt16} {e : JsError} (h : text[i]? = some c)
      (hc : c ≠ 125 ∧ c ≠ delim ∧ c ≠ 123 ∧ c ≠ 34) (hb : Bare text delim i j)
      (hv : bareValue leaf ((text.drop i).take (j - i)) = .error e) :
      Arr text leaf delim i out (.error e)

/-- A run of `parseArrayLiteral` that ends: behind the dimensions, if any, and a brace. -/
def Parses (leaf : Leaf) (delim : UInt16) (text : JsString) (r : Except JsError Value) : Prop :=
  ∃ r', Arr text leaf delim
      ((if text[0]? = some 91 then
        match text.findIdx? (· = 61) with
        | some eq => eq + 1
        | none => 0
      else 0) + 1) [] r' ∧ r = r'.map fun p => .array p.1

/-! ### They end -/

theorem lt_of_at {i : Nat} {c : UInt16} (h : text[i]? = some c) : i < text.length :=
  (List.getElem?_eq_some_iff.mp h).1

theorem none_of_le {i : Nat} (h : text.length ≤ i) : text[i]? = none :=
  List.getElem?_eq_none_iff.mpr h

/-- Enough steps for the rest of the text. -/
theorem quotedAt_runs : ∀ (fuel i : Nat) (s : JsString), text.length ≤ i + fuel →
    Quoted text i s (quotedAt text fuel i s)
  | 0, i, s, h => .ends (none_of_le h)
  | fuel + 1, i, s, h => by
    unfold quotedAt
    cases hc : text[i]? with
    | none => exact .ends hc
    | some ch =>
      dsimp only
      by_cases hesc : ch = 92
      · rw [if_pos hesc]
        exact .escapes (hesc ▸ hc) (quotedAt_runs fuel _ _ (by omega))
      · rw [if_neg hesc]
        by_cases hend : ch = 34
        · rw [if_pos hend]
          exact .closes (hend ▸ hc)
        · rw [if_neg hend]
          exact .takes hc hesc hend (quotedAt_runs fuel _ _ (by omega))

theorem Quoted.le {i : Nat} {s : JsString} {r : JsString × Nat} (h : Quoted text i s r) :
    i ≤ r.2 := by
  induction h with
  | ends => exact Nat.le_refl _
  | closes => exact Nat.le_succ _
  | escapes _ _ ih => omega
  | takes _ _ _ _ ih => omega

theorem bareEnd_runs : ∀ fuel j : Nat, text.length ≤ j + fuel →
    Bare text delim j (bareEnd text delim fuel j)
  | 0, j, h => .ends (none_of_le h)
  | fuel + 1, j, h => by
    unfold bareEnd
    cases hc : text[j]? with
    | none => exact .ends hc
    | some c =>
      dsimp only
      by_cases hstop : c = delim ∨ c = 125
      · rw [if_pos hstop]
        exact .stops hc hstop
      · rw [if_neg hstop]
        exact .takes hc hstop (bareEnd_runs fuel _ (by omega))

theorem Bare.le {j k : Nat} (h : Bare text delim j k) : j ≤ k := by
  induction h with
  | ends => exact Nat.le_refl _
  | stops => exact Nat.le_refl _
  | takes _ _ _ ih => omega

/-- An element without quotes is not empty. -/
theorem Bare.lt {j k : Nat} {c : UInt16} (h : Bare text delim j k) (hc : text[j]? = some c)
    (hno : ¬(c = delim ∨ c = 125)) : j < k := by
  cases h with
  | ends h => rw [h] at hc; cases hc
  | stops h hs =>
    rw [h] at hc
    cases hc
    exact absurd hs hno
  | takes _ _ rest => exact rest.le

theorem Arr.le {i : Nat} {out : List Value} {r : Except JsError (List Value × Nat)}
    (h : Arr text leaf delim i out r) : ∀ p, r = .ok p → i ≤ p.2 := by
  induction h with
  | ends => rintro p ⟨⟩; exact Nat.le_refl _
  | closes => rintro p ⟨⟩; exact Nat.le_succ _
  | skips _ _ _ ih => intro p hp; have := ih p hp; omega
  | nests _ _ _ _ ihin ihrest =>
    intro p hp
    have hin := ihin _ rfl
    have hrest := ihrest p hp
    omega
  | nestThrows => rintro p ⟨⟩
  | quoted _ _ hq _ _ ih =>
    intro p hp
    have hle := hq.le
    have hrest := ih p hp
    dsimp only at hle
    omega
  | quotedThrows => rintro p ⟨⟩
  | bare _ _ hb _ _ ih => intro p hp; exact Nat.le_trans hb.le (ih p hp)
  | bareThrows => rintro p ⟨⟩

/-- **The loop ends** in no more steps than the text is long. -/
theorem elements_runs : ∀ (fuel i : Nat) (out : List Value), text.length ≤ i + fuel →
    Arr text leaf delim i out (elements text leaf delim fuel i out)
  | 0, i, out, h => .ends (none_of_le h)
  | fuel + 1, i, out, h => by
    unfold elements
    have hq := @quotedAt_runs text (text.length + 1) (i + 1) [] (by omega)
    have hb := @bareEnd_runs text delim (text.length + 1) i (by omega)
    generalize quotedAt text (text.length + 1) (i + 1) [] = q at hq ⊢
    generalize bareEnd text delim (text.length + 1) i = k at hb ⊢
    obtain ⟨s, j⟩ := q
    cases hc : text[i]? with
    | none => exact .ends hc
    | some c =>
      dsimp only
      by_cases hclose : c = 125
      · rw [if_pos hclose]
        exact .closes (hclose ▸ hc)
      rw [if_neg hclose]
      by_cases hdelim : c = delim
      · rw [if_pos hdelim]
        exact .skips (hdelim ▸ hc) (hdelim ▸ hclose) (elements_runs fuel _ _ (by omega))
      rw [if_neg hdelim]
      by_cases hopen : c = 123
      · rw [if_pos hopen]
        have hd : delim ≠ 123 := fun hd => hdelim (hopen.trans hd.symm)
        have hin := elements_runs fuel (i + 1) [] (by omega)
        cases he : elements text leaf delim fuel (i + 1) [] with
        | error e =>
          rw [he] at hin
          exact .nestThrows (hopen ▸ hc) hd hin
        | ok p =>
          rw [he] at hin
          have hle : i + 1 ≤ p.2 := hin.le _ rfl
          exact .nests (hopen ▸ hc) hd hin (elements_runs fuel _ _ (by omega))
      rw [if_neg hopen]
      by_cases hquote : c = 34
      · rw [if_pos hquote]
        have hd : delim ≠ 34 := fun hd => hdelim (hquote.trans hd.symm)
        have hle : i + 1 ≤ j := hq.le
        cases hv : leaf s with
        | error e => exact .quotedThrows (hquote ▸ hc) hd hq hv
        | ok v => exact .quoted (hquote ▸ hc) hd hq hv (elements_runs fuel _ _ (by omega))
      · rw [if_neg hquote]
        have hlt := hb.lt hc (not_or.mpr ⟨hdelim, hclose⟩)
        have hall : c ≠ 125 ∧ c ≠ delim ∧ c ≠ 123 ∧ c ≠ 34 := ⟨hclose, hdelim, hopen, hquote⟩
        by_cases hnull : (text.drop i).take (k - i) = ascii "NULL"
        · rw [if_pos hnull]
          exact .bare hc hall hb (if_pos hnull) (elements_runs fuel _ _ (by omega))
        · rw [if_neg hnull]
          have hbare : bareValue leaf ((text.drop i).take (k - i)) = _ := if_neg hnull
          cases hv : leaf ((text.drop i).take (k - i)) with
          | error e => exact .bareThrows hc hall hb (hbare.trans hv)
          | ok v => exact .bare hc hall hb (hbare.trans hv) (elements_runs fuel _ _ (by omega))

/-- **The parser ends on every text**, with what the model computes. -/
theorem parse_reads (leaf : Leaf) (delim : UInt16) (text : JsString) :
    Parses leaf delim text (parseArrayLiteral leaf delim text) := by
  refine ⟨_, elements_runs (text.length + 1) _ [] (by omega), ?_⟩
  unfold parseArrayLiteral
  dsimp only
  cases elements text leaf delim (text.length + 1) _ [] <;> rfl

/-! ### They have one result -/

theorem Quoted.eq {i : Nat} {s : JsString} {r : JsString × Nat} (h : Quoted text i s r) :
    ∀ fuel, text.length ≤ i + fuel → quotedAt text fuel i s = r := by
  induction h with
  | ends h =>
    rintro (_ | fuel) _
    · rfl
    · simp only [quotedAt, h]
  | @closes i s h =>
    rintro (_ | fuel) hle
    · have := lt_of_at h
      omega
    · simp [quotedAt, h]
  | @escapes i s r h _ ih =>
    rintro (_ | fuel) hle
    · have := lt_of_at h
      omega
    · simp only [quotedAt, h]
      exact ih fuel (by omega)
  | @takes i s r ch h hesc hend _ ih =>
    rintro (_ | fuel) hle
    · have := lt_of_at h
      omega
    · simp only [quotedAt, h, if_neg hesc, if_neg hend]
      exact ih fuel (by omega)

theorem Bare.eq {j k : Nat} (h : Bare text delim j k) :
    ∀ fuel, text.length ≤ j + fuel → bareEnd text delim fuel j = k := by
  induction h with
  | ends h =>
    rintro (_ | fuel) _
    · rfl
    · simp only [bareEnd, h]
  | @stops j c h hc =>
    rintro (_ | fuel) hle
    · rfl
    · simp only [bareEnd, h, if_pos hc]
  | @takes j k c h hc _ ih =>
    rintro (_ | fuel) hle
    · have := lt_of_at h
      omega
    · simp only [bareEnd, h, if_neg hc]
      exact ih fuel (by omega)

/-- A step of the loop at a character. -/
theorem elements_succ {i : Nat} {c : UInt16} (h : text[i]? = some c) (fuel : Nat)
    (out : List Value) : elements text leaf delim (fuel + 1) i out =
      if c = 125 then .ok (out, i + 1)
      else if c = delim then elements text leaf delim fuel (i + 1) out
      else if c = 123 then
        elements text leaf delim fuel (i + 1) [] >>= fun p =>
          elements text leaf delim fuel p.2 (out ++ [.array p.1])
      else if c = 34 then
        leaf (quotedAt text (text.length + 1) (i + 1) []).1 >>= fun v =>
          elements text leaf delim fuel (quotedAt text (text.length + 1) (i + 1) []).2 (out ++ [v])
      else
        bareValue leaf ((text.drop i).take (bareEnd text delim (text.length + 1) i - i)) >>=
          fun v =>
            elements text leaf delim fuel (bareEnd text delim (text.length + 1) i) (out ++ [v]) := by
  rw [elements, h]
  generalize quotedAt text (text.length + 1) (i + 1) [] = q
  generalize bareEnd text delim (text.length + 1) i = k
  dsimp only
  unfold bareValue
  split
  · rfl
  split
  · rfl
  split
  · rfl
  split
  · rfl
  split <;> rfl

theorem Arr.eq {i : Nat} {out : List Value} {r : Except JsError (List Value × Nat)}
    (h : Arr text leaf delim i out r) :
    ∀ fuel, text.length ≤ i + fuel → elements text leaf delim fuel i out = r := by
  have hpos : ∀ {i c fuel}, text[i]? = some c → text.length ≤ i + fuel →
      ∃ n, fuel = n + 1 := by
    intro i c fuel hc hle
    have := lt_of_at hc
    exact ⟨fuel - 1, by omega⟩
  induction h with
  | ends h =>
    rintro (_ | fuel) _
    · rfl
    · simp only [elements, h]
  | closes h =>
    intro fuel hle
    obtain ⟨n, rfl⟩ := hpos h hle
    rw [elements_succ h, if_pos rfl]
  | skips h hd _ ih =>
    intro fuel hle
    obtain ⟨n, rfl⟩ := hpos h hle
    rw [elements_succ h, if_neg hd, if_pos rfl]
    exact ih n (by omega)
  | nests h hd hin _ ihin ihrest =>
    intro fuel hle
    obtain ⟨n, rfl⟩ := hpos h hle
    have hj := hin.le _ rfl
    dsimp only at hj
    rw [elements_succ h, if_neg (by decide), if_neg hd.symm, if_pos rfl, ihin n (by omega)]
    exact ihrest n (by omega)
  | nestThrows h hd _ ihin =>
    intro fuel hle
    obtain ⟨n, rfl⟩ := hpos h hle
    rw [elements_succ h, if_neg (by decide), if_neg hd.symm, if_pos rfl, ihin n (by omega)]
    rfl
  | quoted h hd hq hv _ ih =>
    intro fuel hle
    obtain ⟨n, rfl⟩ := hpos h hle
    have hj := hq.le
    dsimp only at hj
    rw [elements_succ h, if_neg (by decide), if_neg hd.symm, if_neg (by decide), if_pos rfl,
      hq.eq _ (by omega), hv]
    exact ih n (by omega)
  | quotedThrows h hd hq hv =>
    intro fuel hle
    obtain ⟨n, rfl⟩ := hpos h hle
    rw [elements_succ h, if_neg (by decide), if_neg hd.symm, if_neg (by decide), if_pos rfl,
      hq.eq _ (by omega), hv]
    rfl
  | bare h hc hb hv _ ih =>
    intro fuel hle
    obtain ⟨n, rfl⟩ := hpos h hle
    have hj := hb.lt h (not_or.mpr ⟨hc.2.1, hc.1⟩)
    rw [elements_succ h, if_neg hc.1, if_neg hc.2.1, if_neg hc.2.2.1, if_neg hc.2.2.2,
      hb.eq _ (by omega), hv]
    exact ih n (by omega)
  | bareThrows h hc hb hv =>
    intro fuel hle
    obtain ⟨n, rfl⟩ := hpos h hle
    rw [elements_succ h, if_neg hc.1, if_neg hc.2.1, if_neg hc.2.2.1, if_neg hc.2.2.2,
      hb.eq _ (by omega), hv]
    rfl

/-! ### What stands at a position -/

theorem at_of_drop {i : Nat} {c : UInt16} {rest : JsString} (h : text.drop i = c :: rest) :
    text[i]? = some c := by
  rw [← List.head?_drop, h]
  rfl

theorem drop_add {i : Nat} {s rest : JsString} (h : text.drop i = s ++ rest) :
    text.drop (i + s.length) = rest := by
  rw [← List.drop_drop, h, List.drop_left]

theorem drop_succ {i : Nat} {c : UInt16} {rest : JsString} (h : text.drop i = c :: rest) :
    text.drop (i + 1) = rest := drop_add (s := [c]) h

/-- An escaped text up to its quote. -/
theorem quoted_escaped (s : JsString) : ∀ {i : Nat} {acc tail : JsString},
    text.drop i = escQuoted s ++ 34 :: tail →
      Quoted text i acc (acc ++ s, i + (escQuoted s).length + 1) := by
  induction s with
  | nil =>
    intro i acc tail h
    rw [List.append_nil]
    exact .closes (at_of_drop h)
  | cons c s ih =>
    intro i acc tail h
    have hassoc : acc ++ c :: s = acc ++ [c] ++ s := by simp
    by_cases hc : c = 0x22 ∨ c = 0x5c
    · rw [escape_special hc] at h ⊢
      have hnext := drop_succ h
      have hrest := @ih _ (acc ++ [c]) _ (drop_succ hnext)
      rw [hassoc]
      refine .escapes (at_of_drop h) ?_
      rw [at_of_drop hnext]
      have hlen : i + (0x5c :: c :: escQuoted s).length + 1 =
          i + 1 + 1 + (escQuoted s).length + 1 := by
        simp only [List.length_cons]
        omega
      rw [hlen]
      exact hrest
    · rw [escape_plain hc] at h ⊢
      have hrest := @ih _ (acc ++ [c]) _ (drop_succ h)
      obtain ⟨hquote, hesc⟩ := not_or.mp hc
      rw [hassoc]
      refine .takes (at_of_drop h) hesc hquote ?_
      have hlen : i + (c :: escQuoted s).length + 1 = i + 1 + (escQuoted s).length + 1 := by
        simp only [List.length_cons]
        omega
      rw [hlen]
      exact hrest

theorem bare_to {i : Nat} {c : UInt16} {tail : JsString} (hc : c = delim ∨ c = 125) (s : JsString)
    (hs : ∀ u ∈ s, ¬(u = delim ∨ u = 125)) (h : text.drop i = s ++ c :: tail) :
    Bare text delim i (i + s.length) := by
  induction s generalizing i with
  | nil => exact .stops (at_of_drop h) hc
  | cons u s ih =>
    have hrest := ih (fun v hv => hs v (List.mem_cons_of_mem u hv)) (drop_succ h)
    have hlen : i + (u :: s).length = i + 1 + s.length := by
      simp only [List.length_cons]
      omega
    rw [hlen]
    exact .takes (at_of_drop h) (hs u List.mem_cons_self) hrest

/-! ### Elements -/

/-- An element that is a string. -/
def strLeaf : Leaf := fun s => .ok (.string s)

/-- The text `lit` is the element `v`, whatever stands before it and after its delimiter. -/
def ReadsAs (delim : UInt16) (lit : JsString) (v : Value) : Prop :=
  ∀ {text : JsString} {i : Nat} {out : List Value} {r : Except JsError (List Value × Nat)}
    {c : UInt16} {tail : JsString}, text.drop i = lit ++ c :: tail → (c = delim ∨ c = 125) →
    Arr text strLeaf delim (i + lit.length) (out ++ [v]) r → Arr text strLeaf delim i out r

/-- A delimiter that no quote, brace or letter is. -/
structure Delimits (delim : UInt16) : Prop where
  close : delim ≠ 125
  opens : delim ≠ 123
  quote : delim ≠ 34
  null : ∀ u ∈ ascii "NULL", u ≠ delim

theorem comma_delimits : Delimits 44 :=
  ⟨by decide, by decide, by decide, forall_of_all (by decide)⟩

theorem semicolon_delimits : Delimits 59 :=
  ⟨by decide, by decide, by decide, forall_of_all (by decide)⟩

theorem quoted_readsAs (hd : Delimits delim) (s : JsString) :
    ReadsAs delim (quoted s) (.string s) := by
  intro text i out r c tail h _ rest
  have hopen : text.drop i = 34 :: (escQuoted s ++ 34 :: c :: tail) := by
    rw [h]
    simp [quoted]
  have hq := @quoted_escaped text s _ [] _ (drop_succ hopen)
  have hlen : i + 1 + (escQuoted s).length + 1 = i + (quoted s).length := by
    simp only [quoted, List.length_cons, List.length_append, List.length_nil]
    omega
  rw [hlen] at hq
  exact .quoted (at_of_drop hopen) hd.quote hq rfl rest

theorem null_readsAs (hd : Delimits delim) : ReadsAs delim (ascii "NULL") .null := by
  intro text i out r c tail h hc rest
  have hfree : ∀ u ∈ ascii "NULL", ¬(u = delim ∨ u = 125) := by
    intro u hu
    refine not_or.mpr ⟨hd.null u hu, ?_⟩
    have hno : ∀ u ∈ ascii "NULL", u ≠ 125 := forall_of_all (by decide)
    exact hno u hu
  have hb := bare_to hc _ hfree h
  refine .bare (at_of_drop h) ⟨by decide, hd.null _ List.mem_cons_self, by decide, by decide⟩ hb ?_
    rest
  rw [h, Nat.add_sub_cancel_left, List.take_left]
  rfl

/-- A text that needs no quotes. -/
theorem bare_readsAs {s : JsString} (hne : s ≠ []) (hnull : s ≠ ascii "NULL")
    (hs : ∀ u ∈ s, u ≠ 125 ∧ u ≠ delim ∧ u ≠ 123 ∧ u ≠ 34) : ReadsAs delim s (.string s) := by
  intro text i out r c tail h hc rest
  have hb := bare_to hc s (fun u hu => not_or.mpr ⟨(hs u hu).2.1, (hs u hu).1⟩) h
  obtain ⟨u, s, rfl⟩ := List.exists_cons_of_ne_nil hne
  refine .bare (at_of_drop h) (hs u List.mem_cons_self) hb ?_ rest
  rw [h, Nat.add_sub_cancel_left, List.take_left]
  exact if_neg hnull

/-- The texts of elements after one another. -/
def joined (delim : UInt16) : List JsString → JsString
  | [] => []
  | lit :: lits => lit ++ lits.flatMap (delim :: ·)

theorem joined_reads (hd : Delimits delim) {lits : List JsString} {vs : List Value}
    (h : List.Forall₂ (ReadsAs delim) lits vs) : ∀ {text : JsString} {i : Nat} {out : List Value}
      {tail : JsString}, text.drop i = joined delim lits ++ 125 :: tail →
      Arr text strLeaf delim i out
        (.ok (out ++ vs, i + (joined delim lits).length + 1)) := by
  induction h with
  | nil =>
    intro text i out tail h
    rw [List.append_nil]
    exact .closes (at_of_drop h)
  | @cons lit v lits vs hlit _ ih =>
    intro text i out tail h
    have hout : out ++ v :: vs = out ++ [v] ++ vs := by simp
    cases lits with
    | nil =>
      have hlit' : text.drop i = lit ++ 125 :: tail := by simpa [joined] using h
      have hend := @ih text (i + lit.length) (out ++ [v]) tail (drop_add hlit')
      refine hlit hlit' (.inr rfl) ?_
      rw [hout]
      simpa [joined] using hend
    | cons lit' lits =>
      have hlit' : text.drop i = lit ++ delim :: (joined delim (lit' :: lits) ++ 125 :: tail) := by
        rw [h]
        simp [joined]
      have hskip := drop_add hlit'
      have hrest := @ih text (i + lit.length + 1) (out ++ [v]) tail (drop_succ hskip)
      refine hlit hlit' (.inl rfl) (.skips (at_of_drop hskip) hd.close ?_)
      have hlen : i + (joined delim (lit :: lit' :: lits)).length + 1 =
          i + lit.length + 1 + (joined delim (lit' :: lits)).length + 1 := by
        simp only [joined, List.flatMap_cons, List.length_append, List.length_cons]
        omega
      rw [hout, hlen]
      exact hrest

/-- A list between braces. -/
def braced (delim : UInt16) (lits : List JsString) : JsString := 123 :: (joined delim lits ++ [125])

theorem braced_readsAs (hd : Delimits delim) {lits : List JsString} {vs : List Value}
    (h : List.Forall₂ (ReadsAs delim) lits vs) : ReadsAs delim (braced delim lits) (.array vs) := by
  intro text i out r c tail ht _ rest
  have hopen : text.drop i = 123 :: (joined delim lits ++ 125 :: c :: tail) := by
    rw [ht]
    simp [braced]
  have hin := @joined_reads delim hd lits vs h text _ [] _ (drop_succ hopen)
  have hlen : i + 1 + (joined delim lits).length + 1 = i + (braced delim lits).length := by
    simp only [braced, List.length_cons, List.length_append, List.length_nil]
    omega
  rw [hlen] at hin
  exact .nests (at_of_drop hopen) hd.opens hin rest

/-- **A whole literal.** -/
theorem braced_parses (hd : Delimits delim) {lits : List JsString} {vs : List Value}
    (h : List.Forall₂ (ReadsAs delim) lits vs) :
    parseArrayLiteral strLeaf delim (braced delim lits) = .ok (.array vs) := by
  have hdrop : (braced delim lits).drop 1 = joined delim lits ++ 125 :: [] := rfl
  have hrun := (@joined_reads delim hd lits vs h _ _ [] _ hdrop).eq
    ((braced delim lits).length + 1) (by omega)
  have hno : ¬(braced delim lits)[0]? = some 91 := by
    show ¬some (123 : UInt16) = some 91
    decide
  unfold parseArrayLiteral
  simp only [if_neg hno]
  rw [hrun]
  rfl

/-! ### Nested arrays -/

/-- A nested array of strings and NULL, or an element of one. -/
inductive Nested
  | null
  | string (s : JsString)
  | array (elements : List Nested)

mutual

def Nested.value : Nested → Value
  | .null => .null
  | .string s => .string s
  | .array es => .array (values es)

def values : List Nested → List Value
  | [] => []
  | e :: es => e.value :: values es

end

variable {js : Engine}

/-- The elements of a literal, behind those before. -/
theorem elementLiterals_joined {vs : List Value} {lits : List JsString}
    (h : List.Forall₂ (fun v lit => elementLiteral js v = .ok lit) vs lits) : ∀ i,
    elementLiterals js vs (i + 1) = .ok (lits.flatMap (44 :: ·)) := by
  induction h with
  | nil => exact fun _ => rfl
  | cons hv _ ih =>
    intro i
    rw [elementLiterals, hv, ih (i + 1)]
    rfl

theorem arrayLiteral_braced {vs : List Value} {lits : List JsString}
    (h : List.Forall₂ (fun v lit => elementLiteral js v = .ok lit) vs lits) :
    arrayLiteral js vs = .ok (braced 44 lits) := by
  unfold arrayLiteral
  cases h with
  | nil => rfl
  | cons hv hrest =>
    rw [elementLiterals, hv, elementLiterals_joined hrest 0]
    rfl

mutual

theorem nested_reads : ∀ e : Nested,
    ∃ lit, elementLiteral js e.value = .ok lit ∧ ReadsAs 44 lit e.value
  | .null => ⟨_, rfl, null_readsAs comma_delimits⟩
  | .string s => ⟨_, rfl, quoted_readsAs comma_delimits s⟩
  | .array es => by
    obtain ⟨lits, hlits, hreads⟩ := nested_read es
    refine ⟨braced 44 lits, ?_, braced_readsAs comma_delimits hreads⟩
    rw [Nested.value, elementLiteral]
    exact arrayLiteral_braced hlits

theorem nested_read : ∀ es : List Nested, ∃ lits,
    List.Forall₂ (fun v lit => elementLiteral js v = .ok lit) (values es) lits ∧
      List.Forall₂ (ReadsAs 44) lits (values es)
  | [] => ⟨[], .nil, .nil⟩
  | e :: es => by
    obtain ⟨lit, hlit, hread⟩ := nested_reads e
    obtain ⟨lits, hlits, hreads⟩ := nested_read es
    exact ⟨lit :: lits, .cons hlit hlits, .cons hread hreads⟩

end

/-- **The literal of an array is read as the array.** -/
theorem arrayLiteral_parses (es : List Nested) : ∃ text, arrayLiteral js (values es) = .ok text ∧
    parseArrayLiteral strLeaf 44 text = .ok (.array (values es)) := by
  obtain ⟨lits, hlits, hreads⟩ := @nested_read js es
  exact ⟨_, arrayLiteral_braced hlits, braced_parses comma_delimits hreads⟩

end Minipg.Literals
