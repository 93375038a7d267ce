import Minipg.Decode.Columns

/-!
# Compiled and interpreted columns

Code that is inlined computes what the function of the other mapper computes, for every kind of
column (`inlineSnippet_eq`, `binary_agree`).  What differs is the order in which they are asked: the
compiled mapper looks at the name of a target before it looks at the type.  So the two agree on a
column exactly when no built-in code stands in for a target of a defined type, or when it does what
the target does (`columns_agree_iff`).
-/

namespace Minipg.Cells

open Js

/-! ### The same values -/

section Primitives

variable (rt : Runtime)

theorem intFromBytes_eq (b : Bytes) (o l : Nat) : intFromBytes rt b o l = txtInt rt b o l := by
  unfold intFromBytes txtInt
  by_cases hs : chars b o = some 45
  · simp [hs]
  · simp [hs]

/-- Reading on after a failed check does no harm. -/
theorem instantSnippet_eq (c : Chars) (p e : Nat) (h : startsInfinity c p = false) :
    (if (instantSnippet rt c p e).2 then some (instantSnippet rt c p e).1 else none) =
      instantFrom rt c p e := by
  simp only [instantSnippet, instantFrom, h]
  generalize (if isBc c p e = true then e - 3 else e) = e'
  generalize yearLoop rt c (e' - p) p (rt.int 0) 0 = year
  obtain ⟨q, y, n⟩ := year
  by_cases hd : badDate c q e' n = true
  · by_cases ht : startsTime c (q + 6) e' = true
    · simp [hd, ht]
    · simp [hd, ht]
  · by_cases ht : startsTime c (q + 6) e' = true
    · by_cases hb : badTime c (q + 6 + 1) e' = true
      · simp [hd, ht, hb]
      · simp [hd, ht, hb]
    · simp [hd, ht]

theorem tsFromBytes_eq (b : Bytes) (o l : Nat) : tsFromBytes rt b o l = tsParse rt b o l := by
  have hval : tsFromBytes rt b o l = (if (instantSnippet rt (chars b) o (o + l)).2 then
      some (instantSnippet rt (chars b) o (o + l)).1 else none).getD rt.nan := by
    unfold tsFromBytes
    obtain ⟨ems, ok⟩ := instantSnippet rt (chars b) o (o + l)
    cases ok with
    | true => rfl
    | false => rfl
  rw [hval]
  unfold tsParse instantFromBytes
  cases h : startsInfinity (chars b) o with
  | true =>
    have hlen : o + l - o = l := by omega
    simp only [instantSnippet, h, hlen]
    simp
  | false =>
    rw [instantSnippet_eq rt (chars b) o (o + l) h]
    simp

/-- The code of a text column is the function of the other mapper. -/
theorem inlineSnippet_eq (oid : Int) (js : Target) :
    inlineSnippet rt oid js = pickText rt oid js := by
  unfold inlineSnippet pickText
  generalize (if absent js ∧ oid ∈ instantOids then some "date" else js) = js
  by_cases hi : (js = some "date" ∨ js = some "ms") ∧ oid ∈ instantOids
  · simp only [if_pos hi, tsFromBytes_eq]
    by_cases hd : js = some "date"
    · simp only [if_pos hd]
      rfl
    · simp only [if_neg hd]
      rfl
  simp only [if_neg hi]
  generalize (if js = some "date" ∨ js = some "ms" then some "string" else js) = js
  by_cases hb : js = some "bigint" ∨ absent js ∧ oid = 20
  · simp only [if_pos hb]
    rfl
  simp only [if_neg hb]
  by_cases hf : oid = 700 ∧ js ≠ some "string"
  · obtain ⟨rfl, hs⟩ := hf
    by_cases hp : js = some "precise"
    · subst hp
      rfl
    · simp [hs, hp, defaultJs, intOids]
      rfl
  have hf' : ¬(oid = 700 ∧ js ≠ some "string" ∧ js = some "precise") := fun h => hf ⟨h.1, h.2.1⟩
  simp only [if_neg hf, if_neg hf', intFromBytes_eq]
  generalize js.getD (defaultJs oid) = eff
  split
  · by_cases h : oid ∈ intOids
    · simp only [if_pos h]
      rfl
    · simp only [if_neg h]
      rfl
  · by_cases h : oid ∈ asciiSafe
    · simp only [if_pos h]
      rfl
    · simp only [if_neg h]
      rfl
  all_goals rfl

/-- The code of a binary column is the function of the other mapper, and is there when that is. -/
theorem pickBinary_eq (oid : Int) (js : Target) :
    (pickBinary rt oid js).toOption = binarySnippet rt oid js := by
  unfold pickBinary binarySnippet
  split
  case h_5 =>
    by_cases hn : js = some "number"
    · simp only [if_pos hn]
      rfl
    · by_cases hs : js = some "string"
      · simp only [if_neg hn, if_pos hs]
        rfl
      · simp only [if_neg hn, if_neg hs]
        rfl
  case h_8 | h_9 | h_10 =>
    by_cases hm : js = some "ms"
    · simp only [if_pos hm]
      rfl
    · simp only [if_neg hm]
      rfl
  all_goals rfl

end Primitives

/-! ### Targets of defined types -/

/-- What `inlineSnippet` has for the name of a target, whatever a type means by it. -/
def named (rt : Runtime) : String → Option Cell
  | "number" => some (txtF64 rt)
  | "string" | "date" | "ms" => some (txtUtf8 rt)
  | "bigint" => some (txtBigInt rt)
  | "latin1" => some txtLatin1
  | "bool" => some txtBool
  | "json" => some (txtJson rt)
  | "bytea" => some (txtBytea rt)
  | _ => none

/-- The sentinels of defined types are no types of the server. -/
theorem inlineSnippet_sentinel (rt : Runtime) (oid : Int) (js : Target) (h : oid ≤ -2000) :
    inlineSnippet rt oid js = js.bind (named rt) := by
  have hinstant : oid ∉ instantOids := by
    simp [instantOids]
    omega
  have hint : oid ∉ intOids := by
    simp [intOids]
    omega
  have hascii : oid ∉ asciiSafe := by
    simp [asciiSafe]
    omega
  have hjs : defaultJs oid = "helper" := by
    unfold defaultJs
    split <;> first | omega | simp [hascii]
  have h700 : oid ≠ 700 := by omega
  have h20 : oid ≠ 20 := by omega
  rw [inlineSnippet_eq]
  unfold pickText
  simp only [hinstant, hint, hascii, h700, h20, hjs, and_false, false_and, if_false, or_false]
  cases js with
  | none => rfl
  | some name =>
    show _ = named rt name
    by_cases hd : name = "date" ∨ name = "ms"
    · rcases hd with rfl | rfl
      · rfl
      · rfl
    by_cases hb : name = "bigint"
    · subst hb
      rfl
    obtain ⟨hdate, hms⟩ := not_or.mp hd
    simp only [Option.some.injEq, hdate, hms, hb, or_false, if_false, Option.getD_some]
    unfold named
    split
    all_goals first
      | rfl
      | simp_all

theorem hasDefault_sentinel (oid : Int) (h : oid ≤ -2000) : hasDefault oid = false := by
  simp [hasDefault]
  omega

/-- A target of the extension types is the name of no built-in code. -/
theorem extLeafFor_name (env : Env) (oid : Int) (js : Target) (leaf : Leaf)
    (h : extLeafFor env oid js = some leaf) :
    inlineSnippet env.rt oid js = none ∧ hasDefault oid = false := by
  unfold extLeafFor at h
  split at h
  all_goals first
    | exact ⟨rfl, rfl⟩
    | cases h

/-! ### Columns -/

/-- The same value, or both throw. -/
def Agree (x y : Except JsError Value) : Prop := ∀ v, x = .ok v ↔ y = .ok v

theorem Agree.of_eq {x y : Except JsError Value} (h : x = y) : Agree x y := by
  intro v
  rw [h]

section Dispatch

variable (env : Env) (col : CodegenCol) (map : DecoderMap)

theorem helperFor_eq (oid : Int) : helperFor env oid map = wrap (decoderFor env oid map) := by
  unfold helperFor
  split
  next h =>
    obtain ⟨rfl, hc⟩ := h
    simp only [decoderFor, hc]
    rfl
  · rfl

theorem binary_agree (b : Bytes) (o l : Nat) (h : col.format = .binary) :
    Agree (decode (compiled env col map) b o l) (decode (pickDecoder env col map) b o l) := by
  have hpick := pickBinary_eq env.rt col.oid col.js
  unfold compiled pickDecoder
  rw [if_pos h, if_pos h, ← hpick]
  cases pickBinary env.rt col.oid col.js with
  | ok d => exact .of_eq rfl
  | error e =>
    intro v
    exact ⟨nofun, nofun⟩

/-- An override is asked first by both. -/
theorem override_eq (d : Decoder) (ht : col.format ≠ .binary) (h : map.custom col.oid = some d) :
    compiled env col map = pickDecoder env col map := by
  have hhas : map.has col.oid = true := by simp [DecoderMap.has, h]
  have hhelper : helperForCol env col map = wrap d := by
    unfold helperForCol
    rw [helperFor_eq, decoderFor, h, hhas]
    split <;> rfl
  unfold compiled pickDecoder
  simp [ht, h, hhelper]

theorem array_eq (elem : Int) (js : Target) (ht : col.format ≠ .binary)
    (hc : map.custom col.oid = none) (ha : col.array = some (elem, js)) :
    compiled env col map = pickDecoder env col map := by
  have hhas : map.has col.oid = false := by
    simp [DecoderMap.has, hc, col.array_oid (by simp [ha])]
  have hhelper : helperForCol env col map = wrap (arrayDecoderForElem env elem js) := by
    simp [helperForCol, ha, hhas]
  unfold compiled pickDecoder
  simp [ht, hc, ha, hhelper]

/-- A column that no type of the user is behind. -/
theorem builtin_eq (ht : col.format ≠ .binary) (hc : map.custom col.oid = none)
    (ha : col.array = none) (hcus : customAt env col = none) :
    compiled env col map = pickDecoder env col map := by
  have hpick := inlineSnippet_eq env.rt col.oid col.js
  unfold compiled pickDecoder helperForCol
  cases hext : extLeafFor env col.oid col.js with
  | some leaf =>
    obtain ⟨hinl, hdef⟩ := extLeafFor_name env col.oid col.js leaf hext
    have hhas : map.has col.oid = false := by simp [DecoderMap.has, hc, hdef]
    simp [ht, hc, ha, hcus, hhas, hinl, extAt, hext]
  | none =>
    simp [ht, hc, ha, hcus, hpick, extAt, hext, helperFor_eq]

/-- A target of a defined type: the compiled mapper goes by its name first. -/
theorem defined_eq (user : Cell) (ht : col.format ≠ .binary) (hc : map.custom col.oid = none)
    (ha : col.array = none) (hcus : customAt env col = some user) :
    compiled env col map = .ok ((col.js.bind (named env.rt)).getD user) ∧
      pickDecoder env col map = .ok user := by
  have hoid : col.oid ≤ -2000 := by
    cases hdef : env.registry.defs col.oid with
    | none => simp [customAt, ha, hdef] at hcus
    | some defn => exact env.registry.sentinel col.oid defn hdef
  have hhas : map.has col.oid = false := by
    simp [DecoderMap.has, hc, hasDefault_sentinel col.oid hoid]
  have hhelper : helperForCol env col map = user := by simp [helperForCol, ha, hhas, hcus]
  constructor
  · simp [compiled, ht, hc, ha, hhelper, inlineSnippet_sentinel env.rt col.oid col.js hoid]
  · simp [pickDecoder, ht, hc, ha, hcus]

/-- Built-in code stands in for the target of a defined type. -/
structure Shadowed (builtin user : Cell) : Prop where
  text : col.format ≠ .binary
  no_override : map.custom col.oid = none
  scalar : col.array = none
  name : col.js.bind (named env.rt) = some builtin
  target : customAt env col = some user

/-- The mappers agree on a cell unless built-in code stands in for a target and does something
else. -/
theorem columns_agree_iff (b : Bytes) (o l : Nat) :
    Agree (decode (compiled env col map) b o l) (decode (pickDecoder env col map) b o l) ↔
      ∀ builtin user, Shadowed env col map builtin user → Agree (builtin b o l) (user b o l) := by
  constructor
  · intro h builtin user hs
    obtain ⟨hcomp, hpick⟩ := defined_eq env col map user hs.text hs.no_override hs.scalar hs.target
    rw [hcomp, hpick, hs.name] at h
    exact h
  · intro h
    by_cases ht : col.format = .binary
    · exact binary_agree env col map b o l ht
    cases hc : map.custom col.oid with
    | some d => exact .of_eq (by rw [override_eq env col map d ht hc])
    | none =>
      cases ha : col.array with
      | some a => exact .of_eq (by rw [array_eq env col map a.1 a.2 ht hc ha])
      | none =>
        cases hcus : customAt env col with
        | none => exact .of_eq (by rw [builtin_eq env col map ht hc ha hcus])
        | some user =>
          obtain ⟨hcomp, hpick⟩ := defined_eq env col map user ht hc ha hcus
          rw [hcomp, hpick]
          cases hn : col.js.bind (named env.rt) with
          | none => exact .of_eq rfl
          | some builtin => exact h builtin user ⟨ht, hc, ha, hn, hcus⟩

end Dispatch

/-! ### A type whose target is called `bool` -/

section YesNo

/-- `targets: { bool: (t) => t === 'yes' }`. -/
def yesNo : CustomTypeDef where
  ascii := true
  delim := 44
  targets := fun t => if t = "bool" then some fun s => .ok (.boolean (s = ascii "yes")) else none
  rawTargets := fun _ => none

def yesNoRegistry : Registry where
  defs := fun oid => if oid = -2000 then some yesNo else none
  sentinel := by
    intro oid defn h
    by_cases ho : oid = -2000
    · omega
    · simp [ho] at h

def yesNoCol : CodegenCol where
  oid := -2000
  js := some "bool"
  array_oid := by simp

def plainMap : DecoderMap := ⟨fun _ => none⟩

/-- The text `yes`. -/
def yesCell : Bytes := [121, 101, 115]

/-- A cell that says `yes` is `false` to the one and `true` to the other. -/
theorem yesNo_shadowed :
    ¬∃ (rt : Runtime) (geo : GeoParser → Leaf),
      Agree (decode (compiled ⟨rt, yesNoRegistry, geo⟩ yesNoCol plainMap) yesCell 0 3)
        (decode (pickDecoder ⟨rt, yesNoRegistry, geo⟩ yesNoCol plainMap) yesCell 0 3) := by
  rintro ⟨rt, geo, h⟩
  have htrue := (h (.boolean true)).mpr rfl
  have hfalse : decode (compiled ⟨rt, yesNoRegistry, geo⟩ yesNoCol plainMap) yesCell 0 3 =
      .ok (.boolean false) := rfl
  rw [hfalse] at htrue
  cases htrue

end YesNo

end Minipg.Cells
