import Minipg.Encode.Appends
import Minipg.Neon.Raw

/-!
# The end of the rows

Without an end the loop over the rows goes on until a column runs past the buffer, and goes on for
ever where a row has no columns (`terminates_iff`).
-/

namespace Minipg.Neon

open Js
open Json (Tree isWsByte ws jsonParse)
open Cells (Bytes Runtime)
open Encode (Thrown ok_of_bind)

section Steps

variable {rt : Runtime} {rb rb' b b' : Bytes}

theorem skipCommas_length_le (b : Bytes) : (skipCommas b).length ≤ b.length :=
  (List.dropWhile_suffix _).length_le

/-- A column is not read past the end of the buffer. -/
theorem rawCell_length_le (h : rawCell rt rb b = .ok (rb', b')) :
    b'.length ≤ b.length ∧ b ≠ [] := by
  have hskip := skipCommas_length_le b
  have hnil : b = [] → skipCommas b = [] := by
    rintro rfl
    rfl
  have hscan := scanString_length_le (skipCommas b)
  unfold rawCell at h
  dsimp only at h
  split at h
  · rename_i hnull
    obtain ⟨x, -, h⟩ := ok_of_bind h
    cases h
    refine ⟨?_, fun hb => ?_⟩
    · rw [List.length_drop]
      omega
    · rw [hnil hb] at hnull
      cases hnull
  split at h
  · rename_i hescaped
    obtain ⟨s, -, h⟩ := ok_of_bind h
    obtain ⟨x, -, h⟩ := ok_of_bind h
    cases h
    refine ⟨by omega, fun hb => ?_⟩
    rw [hnil hb] at hescaped
    cases hescaped
  split at h
  · cases h
  · rename_i hne
    obtain ⟨x, -, h⟩ := ok_of_bind h
    cases h
    exact ⟨by omega, fun hb => hne (hnil hb)⟩

theorem rawCells_length_le : ∀ {n : Nat} {rb rb' b b' : Bytes},
    rawCells rt n rb b = .ok (rb', b') → b'.length ≤ b.length ∧ (n ≠ 0 → b ≠ [])
  | 0, _, _, _, _, h => by
    cases h
    exact ⟨Nat.le_refl _, fun h => (h rfl).elim⟩
  | n + 1, _, _, _, _, h => by
    obtain ⟨⟨rb, b⟩, hcell, h⟩ := ok_of_bind h
    have hone := rawCell_length_le hcell
    have hrest := (rawCells_length_le h).1
    exact ⟨Nat.le_trans hrest hone.1, fun _ => hone.2⟩

theorem rawRow_length_le {ncols : Nat} (h : rawRow rt ncols b = .ok (rb, b')) :
    b'.length ≤ b.length ∧ (ncols ≠ 0 → b ≠ []) := by
  obtain ⟨⟨rb, c⟩, hcells, h⟩ := ok_of_bind h
  have hlen := rawCells_length_le hcells
  have hws : (ws c).length ≤ c.length := (List.dropWhile_suffix _).length_le
  have hdrop : ((ws c).drop 1).length ≤ (ws c).length := (List.drop_suffix 1 _).length_le
  refine ⟨?_, hlen.2⟩
  dsimp only at h
  split at h
  all_goals
    cases h
    omega

end Steps

section Loop

variable (rt : Runtime) {α : Type} (p : Plan α)

/-- The loop ends. -/
def Ends (b : Bytes) : Prop := ∃ fuel r, rawRows rt p fuel b = some r

variable {rt p} {b : Bytes}

theorem rawRows_succ (hopen : ¬(skipCommas b).head? = some 0x5d) (fuel : Nat) :
    rawRows rt p (fuel + 1) b =
      match rawRow rt p.columns.length ((skipCommas b).drop 1) with
      | .error e => some (.error e)
      | .ok (rb, c) =>
        match finish p.columns.length rb >>= p.rowFrom with
        | .error e => some (.error e)
        | .ok row => (rawRows rt p fuel c).map fun r => r.map fun (rows, b) => (row :: rows, b) :=
  if_neg hopen

theorem ends_iff : Ends rt p b ↔ (skipCommas b).head? = some 0x5d ∨
    ∀ rb c row, rawRow rt p.columns.length ((skipCommas b).drop 1) = .ok (rb, c) →
      finish p.columns.length rb >>= p.rowFrom = .ok row → Ends rt p c := by
  by_cases hclose : (skipCommas b).head? = some 0x5d
  · refine iff_of_true ⟨1, .ok ([], (skipCommas b).drop 1), ?_⟩ (.inl hclose)
    exact if_pos hclose
  have hstep := @rawRows_succ rt _ p b hclose
  constructor
  · rintro ⟨fuel, r, h⟩
    refine .inr fun rb c row hrow hfrom => ?_
    cases fuel with
    | zero => cases h
    | succ fuel =>
      rw [hstep, hrow] at h
      dsimp only at h
      rw [hfrom] at h
      obtain ⟨r', h', -⟩ := Option.map_eq_some_iff.mp h
      exact ⟨fuel, r', h'⟩
  · rintro (h | h)
    · exact absurd h hclose
    cases hrow : rawRow rt p.columns.length ((skipCommas b).drop 1) with
    | error e =>
      refine ⟨1, .error e, ?_⟩
      rw [hstep, hrow]
    | ok r =>
      obtain ⟨rb, c⟩ := r
      cases hfrom : finish p.columns.length rb >>= p.rowFrom with
      | error e =>
        refine ⟨1, .error e, ?_⟩
        rw [hstep, hrow]
        dsimp only
        rw [hfrom]
      | ok row =>
        obtain ⟨fuel, r, hr⟩ := h rb c row hrow hfrom
        have hsome : (rawRows rt p (fuel + 1) b).isSome = true := by
          rw [hstep, hrow]
          dsimp only
          rw [hfrom, hr]
          rfl
        exact ⟨fuel + 1, Option.isSome_iff_exists.mp hsome⟩

/-- With a column every row takes a byte. -/
theorem ends_of_columns (hcols : p.columns ≠ []) : ∀ (n : Nat) {b : Bytes}, b.length ≤ n →
    Ends rt p b := by
  have hpos : p.columns.length ≠ 0 := fun h => hcols (List.length_eq_zero_iff.mp h)
  intro n
  induction n with
  | zero =>
    intro b hb
    refine ends_iff.mpr (.inr fun rb c row hrow _ => ?_)
    have hnil : b = [] := List.length_eq_zero_iff.mp (Nat.le_zero.mp hb)
    rw [hnil] at hrow
    exact ((rawRow_length_le hrow).2 hpos rfl).elim
  | succ n ih =>
    intro b hb
    refine ends_iff.mpr (.inr fun rb c row hrow _ => ih ?_)
    obtain ⟨hle, hne⟩ := rawRow_length_le hrow
    have hskip := skipCommas_length_le b
    have hlen := List.length_pos_iff.mpr (hne hpos)
    rw [List.length_drop] at hle hlen
    omega

end Loop

/-! ### Rows without columns -/

/-- The last byte that is no white space. -/
def lastByte (b : Bytes) : Option UInt8 := (b.filter fun c => !isWsByte c).getLast?

/-- There is a `]` behind nothing, behind a comma or behind a `]`, apart from white space. -/
def Closes (b : Bytes) : Prop :=
  ∃ before rest, b = before ++ 0x5d :: rest ∧ ∀ c ∈ lastByte before, c = 0x2c ∨ c = 0x5d

theorem lastByte_append (b b' : Bytes) : lastByte (b ++ b') = (lastByte b').or (lastByte b) := by
  unfold lastByte
  rw [List.filter_append, List.getLast?_append]

theorem lastByte_cons {c : UInt8} (hc : isWsByte c = false) (b : Bytes) :
    lastByte (c :: b) = (lastByte b).or (some c) := by
  have h := lastByte_append [c] b
  have hone : lastByte [c] = some c := by
    unfold lastByte
    rw [List.filter_cons_of_pos (by rw [hc]; rfl)]
    rfl
  rwa [hone] at h

theorem lastByte_some {c : UInt8} (hc : isWsByte c = false) (b : Bytes) :
    ∃ d, lastByte (c :: b) = some d ∧ (lastByte b = some d ∨ lastByte b = none ∧ d = c) := by
  rw [lastByte_cons hc]
  cases lastByte b with
  | none => exact ⟨c, rfl, .inr ⟨rfl, rfl⟩⟩
  | some d => exact ⟨d, rfl, .inl rfl⟩

theorem lastByte_behind {c : UInt8} (hc : isWsByte c = false) (b b' : Bytes) :
    lastByte (b ++ c :: b') = lastByte (c :: b') := by
  obtain ⟨d, hd, -⟩ := lastByte_some hc b'
  rw [lastByte_append, hd]
  rfl

/-- What is left of a row without columns, behind its first byte. -/
def rowEnd (b : Bytes) : Bytes := if (ws b).head? = some 0x5d then (ws b).drop 1 else ws b

theorem dropWhile_head {p : UInt8 → Bool} {b : Bytes} {c : UInt8}
    (h : c ∈ (b.dropWhile p).head?) : p c = false := by
  have hnot := List.head?_dropWhile_not p b
  rw [show (b.dropWhile p).head? = some c from h] at hnot
  exact hnot

/-- White space ends at a byte that is none. -/
theorem ws_cases (b : Bytes) : ∃ blank, b = blank ++ ws b ∧ lastByte blank = none ∧
    ∀ c ∈ (ws b).head?, isWsByte c = false := by
  refine ⟨b.takeWhile isWsByte, List.takeWhile_append_dropWhile.symm, ?_, fun c hc => ?_⟩
  · have hnil : (b.takeWhile isWsByte).filter (fun c => !isWsByte c) = [] := by
      refine List.filter_eq_nil_iff.mpr fun c hc => ?_
      rw [List.mem_takeWhile_imp hc]
      decide
    unfold lastByte
    rw [hnil]
    rfl
  · exact dropWhile_head hc

theorem lastByte_blank {blank b : Bytes} (h : lastByte blank = none) :
    lastByte (blank ++ b) = lastByte b := by
  rw [lastByte_append, h, Option.or_none]

section Zero

variable {b t : Bytes} {c : UInt8}

/-- White space and commas end at a byte that is neither. -/
theorem skipCommas_cases (h : skipCommas b = c :: t) : ∃ blank, b = blank ++ c :: t ∧
    (∀ d ∈ blank, isWsByte d ∨ d = 0x2c) ∧ isWsByte c = false ∧ c ≠ 0x2c := by
  have hhead : (isWsByte c || decide (c = 0x2c)) = false := by
    refine dropWhile_head (p := fun c => isWsByte c || decide (c = 0x2c)) (b := b) ?_
    show (skipCommas b).head? = some c
    rw [h]
    rfl
  obtain ⟨hc, hcomma⟩ := Bool.or_eq_false_iff.mp hhead
  refine ⟨b.takeWhile fun c => isWsByte c || decide (c = 0x2c), ?_, fun d hd => ?_, hc,
    of_decide_eq_false hcomma⟩
  · rw [← h]
    exact List.takeWhile_append_dropWhile.symm
  · have hd := List.mem_takeWhile_imp hd
    rw [Bool.or_eq_true, decide_eq_true_eq] at hd
    exact hd

theorem closes_rowEnd (hcomma : c ≠ 0x2c) (hclose : c ≠ 0x5d) {m rest : Bytes}
    (h : ∀ d ∈ (lastByte m).or (some c), d = 0x2c ∨ d = 0x5d) :
    Closes (rowEnd (m ++ 0x5d :: rest)) := by
  -- the white space ends before the `]`
  obtain ⟨blanks, hm, hblanks, hfirst⟩ := ws_cases m
  have hbytes : lastByte m = lastByte (ws m) :=
    calc lastByte m = lastByte (blanks ++ ws m) := congrArg lastByte hm
      _ = lastByte (ws m) := lastByte_blank hblanks
  rw [hbytes] at h
  cases hws : ws m with
  | nil =>
    rw [hws] at h
    rcases h c rfl with h | h
    · exact absurd h hcomma
    · exact absurd h hclose
  | cons f m' =>
    have hf : isWsByte f = false := hfirst f (by rw [hws]; rfl)
    have hrow : ws (m ++ 0x5d :: rest) = f :: (m' ++ 0x5d :: rest) := by
      unfold ws at hws ⊢
      rw [List.dropWhile_append, hws]
      rfl
    obtain ⟨d, hd, hd'⟩ := lastByte_some hf m'
    rw [hws, hd] at h
    unfold rowEnd
    rw [hrow]
    split
    · refine ⟨m', rest, rfl, fun e he => h e ?_⟩
      rcases hd' with hm' | ⟨hm', -⟩
      · rw [hm'] at he
        exact he
      · rw [hm'] at he
        cases he
    · refine ⟨f :: m', rest, rfl, fun e he => h e ?_⟩
      rw [hd] at he
      exact he

theorem closes_of_rowEnd (hc : isWsByte c = false) (blank : Bytes) (h : Closes (rowEnd t)) :
    Closes (blank ++ c :: t) := by
  obtain ⟨spaces, ht, hspaces, hhead⟩ := ws_cases t
  obtain ⟨before, rest, heq, hbefore⟩ := h
  have hlast : ∀ m, lastByte (blank ++ c :: (spaces ++ m)) = (lastByte m).or (some c) := by
    intro m
    rw [lastByte_behind hc, lastByte_cons hc, lastByte_blank hspaces]
  unfold rowEnd at heq
  split at heq
  · rename_i hbracket
    have hws := Json.cons_of_head? hbracket
    refine ⟨blank ++ c :: (spaces ++ 0x5d :: before), rest, ?_, fun d hd => ?_⟩
    · rw [ht, hws, heq]
      simp
    · rw [hlast, lastByte_cons (by decide)] at hd
      cases hlb : lastByte before with
      | none =>
        rw [hlb] at hd
        cases hd
        exact .inr rfl
      | some e =>
        rw [hlb] at hd
        cases hd
        exact hbefore d hlb
  · rename_i hbracket
    cases before with
    | nil =>
      rw [heq] at hbracket
      exact absurd rfl hbracket
    | cons f before =>
      have hf : isWsByte f = false := hhead f (by rw [heq]; rfl)
      obtain ⟨e, he, -⟩ := lastByte_some hf before
      refine ⟨blank ++ c :: (spaces ++ f :: before), rest, ?_, fun d hd => ?_⟩
      · rw [ht, heq]
        simp
      · rw [hlast, he] at hd
        exact hbefore d (he ▸ hd)

/-- The end is not in a row's first byte nor in the white space behind it. -/
theorem closes_iff_rowEnd (h : skipCommas b = c :: t) (hclose : c ≠ 0x5d) :
    Closes b ↔ Closes (rowEnd t) := by
  obtain ⟨blank, rfl, hblank, hc, hcomma⟩ := skipCommas_cases h
  refine ⟨?_, closes_of_rowEnd hc blank⟩
  rintro ⟨before, rest, heq, hbefore⟩
  rcases List.append_eq_append_iff.mp heq with ⟨m, rfl, hrest⟩ | ⟨m, rfl, hrest⟩
  · cases m with
    | nil => exact absurd (List.cons.inj hrest).1 hclose
    | cons _ m =>
      cases hrest
      rw [lastByte_behind hc, lastByte_cons hc] at hbefore
      exact closes_rowEnd hcomma hclose hbefore
  · cases m with
    | nil => exact absurd (List.cons.inj hrest).1.symm hclose
    | cons d m =>
      obtain ⟨rfl, -⟩ := List.cons.inj hrest
      rcases hblank 0x5d (by simp) with h | h
      · cases h
      · cases h

theorem closes_bracket (h : skipCommas b = 0x5d :: t) : Closes b := by
  obtain ⟨blank, rfl, hblank, -, -⟩ := skipCommas_cases h
  refine ⟨blank, t, rfl, fun c hc => ?_⟩
  have hmem := List.mem_filter.mp (List.mem_of_getLast? hc)
  rcases hblank c hmem.1 with hws | hcomma
  · rw [hws] at hmem
    cases hmem.2
  · exact .inl hcomma

theorem not_closes_nil : ¬Closes [] := by
  rintro ⟨before, rest, h, -⟩
  cases before
  all_goals cases h

variable (rt : Runtime) {α : Type} {p : Plan α} (hcols : p.columns = []) {row : α}
  (hrow : p.rowFrom [0, 0] = .ok row)

include hcols hrow

theorem rawRows_zero (fuel : Nat) (b : Bytes) : rawRows rt p (fuel + 1) b =
    if (skipCommas b).head? = some 0x5d then some (.ok ([], (skipCommas b).drop 1))
    else (rawRows rt p fuel (rowEnd ((skipCommas b).drop 1))).map fun r =>
      r.map fun (rows, b) => (row :: rows, b) := by
  have hraw : rawRow rt p.columns.length ((skipCommas b).drop 1) =
      .ok ([], rowEnd ((skipCommas b).drop 1)) := by
    rw [hcols]
    rfl
  have hfrom : finish p.columns.length [] >>= p.rowFrom = .ok row := by
    rw [hcols]
    exact hrow
  rw [rawRows]
  dsimp only
  rw [hraw]
  dsimp only
  rw [hfrom]

theorem closes_of_ends : ∀ {fuel : Nat} {b : Bytes} {r : Except Thrown (List α × Bytes)},
    rawRows rt p fuel b = some r → Closes b := by
  intro fuel
  induction fuel with
  | zero =>
    intro b r h
    cases h
  | succ fuel ih =>
    intro b r h
    rw [rawRows_zero rt hcols hrow] at h
    split at h
    · rename_i hclose
      exact closes_bracket (Json.cons_of_head? hclose)
    · rename_i hclose
      obtain ⟨r', h', -⟩ := Option.map_eq_some_iff.mp h
      have hend := ih h'
      cases hskip : skipCommas b with
      | nil =>
        rw [hskip] at hend
        exact absurd hend not_closes_nil
      | cons c t =>
        rw [hskip] at hclose hend
        refine (closes_iff_rowEnd hskip fun hc => hclose ?_).mpr hend
        rw [hc]
        rfl

theorem ends_of_closes : ∀ (n : Nat) {b : Bytes}, b.length ≤ n → Closes b → Ends rt p b := by
  intro n
  induction n with
  | zero =>
    intro b hb h
    rw [List.length_eq_zero_iff.mp (Nat.le_zero.mp hb)] at h
    exact absurd h not_closes_nil
  | succ n ih =>
    intro b hb h
    cases hskip : skipCommas b with
    | nil =>
      obtain ⟨before, rest, rfl, -⟩ := h
      have hall := List.dropWhile_eq_nil_iff.mp hskip 0x5d (by simp)
      cases hall
    | cons c t =>
      by_cases hc : c = 0x5d
      · refine ⟨1, .ok ([], t), ?_⟩
        rw [rawRows_zero rt hcols hrow, hskip, hc]
        rfl
      · have hlen := skipCommas_length_le b
        have hrest : (rowEnd t).length ≤ t.length := by
          have hws : (ws t).length ≤ t.length := (List.dropWhile_suffix _).length_le
          unfold rowEnd
          split
          · rw [List.length_drop]
            omega
          · exact hws
        rw [hskip, List.length_cons] at hlen
        obtain ⟨fuel, r, hr⟩ := ih (by omega) ((closes_iff_rowEnd hskip hc).mp h)
        refine ⟨fuel + 1, r.map fun (rows, b) => (row :: rows, b), ?_⟩
        rw [rawRows_zero rt hcols hrow, hskip, if_neg (by simpa using hc)]
        show (rawRows rt p fuel (rowEnd t)).map _ = _
        rw [hr]
        rfl

end Zero

/-! ### The scan -/

section Scan

variable (rt : Runtime) {α : Type} (plan : Tree → Except Thrown (Plan α)) (raw : Bytes)

def Terminates : Prop := ∃ fuel r, decodeSingleRaw rt plan fuel raw = some r

variable {rt plan raw}

theorem terminates_of_plan {fields : Tree} {p : Plan α} (hfields : fieldsOf rt raw = some fields)
    (hplan : plan fields = .ok p) : Terminates rt plan raw ↔ Ends rt p (rowsAt raw) := by
  have hdecode : ∀ fuel, decodeSingleRaw rt plan fuel raw =
      (rawRows rt p fuel (rowsAt raw)).map fun r =>
        r.bind fun (rows, b) => rawResult rt p.columns rows b := by
    intro fuel
    unfold decodeSingleRaw
    rw [hfields]
    dsimp only
    rw [hplan]
  constructor
  · rintro ⟨fuel, r, h⟩
    rw [hdecode] at h
    obtain ⟨r', h', -⟩ := Option.map_eq_some_iff.mp h
    exact ⟨fuel, r', h'⟩
  · rintro ⟨fuel, r, h⟩
    refine ⟨fuel, r.bind fun (rows, b) => rawResult rt p.columns rows b, ?_⟩
    rw [hdecode, h]
    rfl

theorem ends_of_error {p : Plan α} (hcols : p.columns = []) {e : Thrown}
    (h : p.rowFrom [0, 0] = .error e) (b : Bytes) : Ends rt p b := by
  refine ends_iff.mpr (.inr fun rb c row hraw hfrom => ?_)
  rw [hcols] at hraw hfrom
  cases hraw
  have hfrom : p.rowFrom [0, 0] = .ok row := hfrom
  rw [h] at hfrom
  cases hfrom

/-- **The scan ends** on every buffer, except where there are no columns and the rows do not
close. -/
theorem terminates_iff : Terminates rt plan raw ↔
    ∀ fields p row, fieldsOf rt raw = some fields → plan fields = .ok p → p.columns = [] →
      p.rowFrom [0, 0] = .ok row → Closes (rowsAt raw) := by
  cases hfields : fieldsOf rt raw with
  | none =>
    refine iff_of_true ⟨0, .error syntaxError, ?_⟩ fun fields p row h => (nomatch h)
    unfold decodeSingleRaw
    rw [hfields]
  | some fields =>
    cases hplan : plan fields with
    | error e =>
      refine iff_of_true ⟨0, .error e, ?_⟩ fun fields' p row h hp => ?_
      · unfold decodeSingleRaw
        rw [hfields]
        dsimp only
        rw [hplan]
      · cases h
        rw [hplan] at hp
        cases hp
    | ok p =>
      rw [terminates_of_plan hfields hplan]
      by_cases hcols : p.columns = []
      · cases hrow : p.rowFrom [0, 0] with
        | error e =>
          refine iff_of_true (ends_of_error hcols hrow _) fun fields' p' row h hp _ hrow' => ?_
          cases h
          rw [hplan] at hp
          cases hp
          rw [hrow] at hrow'
          cases hrow'
        | ok row =>
          constructor
          · rintro ⟨fuel, r, h⟩ fields' p' row' h' hp _ _
            cases h'
            rw [hplan] at hp
            cases hp
            exact closes_of_ends rt hcols hrow h
          · intro h
            exact ends_of_closes rt hcols hrow _ (Nat.le_refl _)
              (h fields p row rfl hplan hcols hrow)
      · refine iff_of_true (ends_of_columns hcols _ (Nat.le_refl _)) fun fields' p' row h hp => ?_
        cases h
        rw [hplan] at hp
        cases hp
        exact fun h => absurd h hcols

end Scan

end Minipg.Neon
