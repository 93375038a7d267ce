import Minipg.Decode.Standard
import Mathlib.Data.List.DropRight

/-!
# JSON

`parseText` reads the grammar of JSON; an `Ast` keeps the digits of its numbers.  `JSON.parse` is
`value` of the `record`, where the last of the members with a key is the one that stays.
-/

namespace Minipg.Json

open Js
open Cells (isDigit)

/-- What `JSON.parse` returns; an object is the list of its own properties. -/
inductive Tree
  | null
  | boolean (b : Bool)
  | number (x : Double)
  | bigint (n : Int)
  | string (s : JsString)
  | array (items : List Tree)
  | object (properties : List (JsString × Tree))

inductive Ast
  | null
  | boolean (b : Bool)
  | number (token : JsString)
  | string (s : JsString)
  | array (items : List Ast)
  | object (members : List (JsString × Ast))

/-! ### The grammar -/

def isWs (u : UInt16) : Bool := u = 32 ∨ u = 9 ∨ u = 10 ∨ u = 13

def skipWs (s : JsString) : JsString := s.dropWhile isWs

/-- A character of a number. -/
def isNumeric (u : UInt16) : Bool := isDigit u ∨ u = 46 ∨ u = 101 ∨ u = 69 ∨ u = 43 ∨ u = 45

def isExponent : JsString → Bool
  | [] => true
  | u :: s =>
    let ds := match s with
      | [] => []
      | v :: t => if v = 43 ∨ v = 45 then t else v :: t
    (u = 101 ∨ u = 69) ∧ ds ≠ [] ∧ ds.all isDigit

def isFraction : JsString → Bool
  | [] => true
  | u :: s =>
    if u = 46 then s.takeWhile isDigit ≠ [] && isExponent (s.dropWhile isDigit)
    else isExponent (u :: s)

/-- The number without its sign. -/
def unsigned : JsString → JsString
  | [] => []
  | u :: s => if u = 45 then s else u :: s

/-- A number starts with one digit, or with a digit that is no 0. -/
def isNumber (token : JsString) : Bool :=
  let ds := (unsigned token).takeWhile isDigit
  ds ≠ [] && (ds.head? ≠ some 48 || ds.length = 1) &&
    isFraction ((unsigned token).dropWhile isDigit)

/-- What a backslash makes of a character. -/
def escaped (u : UInt16) : Option UInt16 :=
  if u = 34 ∨ u = 92 ∨ u = 47 then some u
  else if u = 98 then some 8
  else if u = 102 then some 12
  else if u = 110 then some 10
  else if u = 114 then some 13
  else if u = 116 then some 9
  else none

def hexUnit (a b c d : UInt16) : Option UInt16 := do
  let a ← Cells.hexValue a
  let b ← Cells.hexValue b
  let c ← Cells.hexValue c
  let d ← Cells.hexValue d
  return UInt16.ofNat (((a * 16 + b) * 16 + c) * 16 + d)

/-- A string, behind its first quote. -/
def parseChars : JsString → Option (JsString × JsString)
  | [] => none
  | u :: s =>
    if u = 34 then some ([], s)
    else if u = 92 then
      match s with
      | [] => none
      | e :: s =>
        if e = 117 then
          match s with
          | a :: b :: c :: d :: s => do
            let v ← hexUnit a b c d
            let (t, rest) ← parseChars s
            return (v :: t, rest)
          | _ => none
        else do
          let v ← escaped e
          let (t, rest) ← parseChars s
          return (v :: t, rest)
    else if u < 32 then none
    else do
      let (t, rest) ← parseChars s
      return (u :: t, rest)

/-- `true`, `false`, `null` or a number. -/
def parseWord (s : JsString) : Option (Ast × JsString) :=
  if ascii "true" <+: s then some (.boolean true, s.drop 4)
  else if ascii "false" <+: s then some (.boolean false, s.drop 5)
  else if ascii "null" <+: s then some (.null, s.drop 4)
  else if isNumber (s.takeWhile isNumeric) then
    some (.number (s.takeWhile isNumeric), s.dropWhile isNumeric)
  else none

mutual

/-- A value behind any white space; `fuel` only has to be the number of characters. -/
def parseValue : Nat → JsString → Option (Ast × JsString)
  | 0, _ => none
  | fuel + 1, s =>
    match skipWs s with
    | [] => none
    | u :: t =>
      if u = 123 then
        if (skipWs t).head? = some 125 then some (.object [], (skipWs t).drop 1)
        else (parseMembers fuel (skipWs t)).map fun r => (.object r.1, r.2)
      else if u = 91 then
        if (skipWs t).head? = some 93 then some (.array [], (skipWs t).drop 1)
        else (parseItems fuel (skipWs t)).map fun r => (.array r.1, r.2)
      else if u = 34 then (parseChars t).map fun r => (.string r.1, r.2)
      else parseWord (u :: t)

/-- The items of an array up to its end. -/
def parseItems : Nat → JsString → Option (List Ast × JsString)
  | 0, _ => none
  | fuel + 1, s => do
    let (v, s) ← parseValue fuel s
    match skipWs s with
    | [] => none
    | u :: s =>
      if u = 44 then (parseItems fuel s).map fun r => (v :: r.1, r.2)
      else if u = 93 then some ([v], s)
      else none

/-- The members of an object up to its end. -/
def parseMembers : Nat → JsString → Option (List (JsString × Ast) × JsString)
  | 0, _ => none
  | fuel + 1, s =>
    match skipWs s with
    | [] => none
    | u :: s =>
      if u = 34 then do
        let (k, s) ← parseChars s
        if (skipWs s).head? = some 58 then
          let (v, s) ← parseValue fuel ((skipWs s).drop 1)
          match skipWs s with
          | [] => none
          | u :: s =>
            if u = 44 then (parseMembers fuel s).map fun r => ((k, v) :: r.1, r.2)
            else if u = 125 then some ([(k, v)], s)
            else none
        else none
      else none

end

/-- A value with white space around it. -/
def parseText (s : JsString) : Option Ast :=
  match parseValue (s.length + 1) s with
  | some (a, rest) => if skipWs rest = [] then some a else none
  | none => none

/-! ### Derivations -/

theorem cons_of_head? {α : Type} {s : List α} {u : α} (h : s.head? = some u) :
    s = u :: s.drop 1 := by
  cases s with
  | nil => cases h
  | cons v t =>
    cases h
    rfl

/-- What holds of every value, every array and every object that is read. -/
structure Rules (V : JsString → Ast → JsString → Prop) (I : JsString → List Ast → JsString → Prop)
    (M : JsString → List (JsString × Ast) → JsString → Prop) : Prop where
  emptyObject {s t rest} : skipWs s = 123 :: t → skipWs t = 125 :: rest → V s (.object []) rest
  object {s t rest ms} : skipWs s = 123 :: t → (skipWs t).head? ≠ some 125 →
    M (skipWs t) ms rest → V s (.object ms) rest
  emptyArray {s t rest} : skipWs s = 91 :: t → skipWs t = 93 :: rest → V s (.array []) rest
  array {s t rest vs} : skipWs s = 91 :: t → (skipWs t).head? ≠ some 93 →
    I (skipWs t) vs rest → V s (.array vs) rest
  string {s t rest v} : skipWs s = 34 :: t → parseChars t = some (v, rest) → V s (.string v) rest
  word {s t rest u a} : skipWs s = u :: t → u ≠ 123 → u ≠ 91 → u ≠ 34 →
    parseWord (u :: t) = some (a, rest) → V s a rest
  lastItem {s r rest v} : V s v r → skipWs r = 93 :: rest → I s [v] rest
  item {s r t rest v vs} : V s v r → skipWs r = 44 :: t → I t vs rest → I s (v :: vs) rest
  lastMember {s t t' t'' r rest k v} : skipWs s = 34 :: t → parseChars t = some (k, t') →
    skipWs t' = 58 :: t'' → V t'' v r → skipWs r = 125 :: rest → M s [(k, v)] rest
  member {s t t' t'' r r' rest k v ms} : skipWs s = 34 :: t → parseChars t = some (k, t') →
    skipWs t' = 58 :: t'' → V t'' v r → skipWs r = 44 :: r' → M r' ms rest →
    M s ((k, v) :: ms) rest

section Rules

variable {V : JsString → Ast → JsString → Prop} {I : JsString → List Ast → JsString → Prop}
  {M : JsString → List (JsString × Ast) → JsString → Prop} (R : Rules V I M) {fuel : Nat}

include R

theorem Rules.parseValue (hitems : ∀ {s vs rest}, parseItems fuel s = some (vs, rest) → I s vs rest)
    (hmembers : ∀ {s ms rest}, parseMembers fuel s = some (ms, rest) → M s ms rest)
    {s rest : JsString} {a : Ast} (h : parseValue (fuel + 1) s = some (a, rest)) : V s a rest := by
  rw [Json.parseValue] at h
  cases hs : skipWs s with
  | nil =>
    rw [hs] at h
    cases h
  | cons u t =>
    rw [hs] at h
    dsimp only at h
    by_cases hbrace : u = 123
    · subst hbrace
      rw [if_pos rfl] at h
      split at h
      · rename_i hclose
        cases h
        exact R.emptyObject hs (cons_of_head? hclose)
      · rename_i hclose
        obtain ⟨⟨ms, r⟩, hms, h⟩ := Option.map_eq_some_iff.mp h
        cases h
        exact R.object hs hclose (hmembers hms)
    rw [if_neg hbrace] at h
    by_cases hbracket : u = 91
    · subst hbracket
      rw [if_pos rfl] at h
      split at h
      · rename_i hclose
        cases h
        exact R.emptyArray hs (cons_of_head? hclose)
      · rename_i hclose
        obtain ⟨⟨vs, r⟩, hvs, h⟩ := Option.map_eq_some_iff.mp h
        cases h
        exact R.array hs hclose (hitems hvs)
    rw [if_neg hbracket] at h
    by_cases hquote : u = 34
    · subst hquote
      rw [if_pos rfl] at h
      obtain ⟨⟨v, r⟩, hv, h⟩ := Option.map_eq_some_iff.mp h
      cases h
      exact R.string hs hv
    · rw [if_neg hquote] at h
      exact R.word hs hbrace hbracket hquote h

theorem Rules.parseItems
    (hvalue : ∀ {s a rest}, Json.parseValue fuel s = some (a, rest) → V s a rest)
    (hitems : ∀ {s vs rest}, Json.parseItems fuel s = some (vs, rest) → I s vs rest)
    {s rest : JsString} {vs : List Ast} (h : Json.parseItems (fuel + 1) s = some (vs, rest)) :
    I s vs rest := by
  rw [Json.parseItems] at h
  obtain ⟨⟨v, t⟩, hv, h⟩ := Option.bind_eq_some_iff.mp h
  dsimp only at h
  cases hs : skipWs t with
  | nil =>
    rw [hs] at h
    cases h
  | cons u t =>
    rw [hs] at h
    dsimp only at h
    split at h
    · rename_i hcomma
      subst hcomma
      obtain ⟨⟨vs, r⟩, hvs, h⟩ := Option.map_eq_some_iff.mp h
      cases h
      exact R.item (hvalue hv) hs (hitems hvs)
    split at h
    · rename_i hclose
      subst hclose
      cases h
      exact R.lastItem (hvalue hv) hs
    · cases h

theorem Rules.parseMembers
    (hvalue : ∀ {s a rest}, Json.parseValue fuel s = some (a, rest) → V s a rest)
    (hmembers : ∀ {s ms rest}, Json.parseMembers fuel s = some (ms, rest) → M s ms rest)
    {s rest : JsString} {ms : List (JsString × Ast)}
    (h : Json.parseMembers (fuel + 1) s = some (ms, rest)) : M s ms rest := by
  rw [Json.parseMembers] at h
  cases hs : skipWs s with
  | nil =>
    rw [hs] at h
    cases h
  | cons u t =>
    rw [hs] at h
    dsimp only at h
    split at h
    · rename_i hquote
      subst hquote
      obtain ⟨⟨k, t'⟩, hk, h⟩ := Option.bind_eq_some_iff.mp h
      dsimp only at h
      split at h
      · rename_i hcolon
        obtain ⟨⟨v, r⟩, hv, h⟩ := Option.bind_eq_some_iff.mp h
        have hcons := cons_of_head? hcolon
        dsimp only at h
        cases hs' : skipWs r with
        | nil =>
          rw [hs'] at h
          cases h
        | cons u' r =>
          rw [hs'] at h
          dsimp only at h
          split at h
          · rename_i hcomma
            subst hcomma
            obtain ⟨⟨ms, r'⟩, hms, h⟩ := Option.map_eq_some_iff.mp h
            cases h
            exact R.member hs hk hcons (hvalue hv) hs' (hmembers hms)
          split at h
          · rename_i hclose
            subst hclose
            cases h
            exact R.lastMember hs hk hcons (hvalue hv) hs'
          · cases h
      · cases h
    · cases h

/-- **The induction on what is read.** -/
theorem Rules.read : ∀ fuel,
    (∀ {s a rest}, Json.parseValue fuel s = some (a, rest) → V s a rest) ∧
    (∀ {s vs rest}, Json.parseItems fuel s = some (vs, rest) → I s vs rest) ∧
    (∀ {s ms rest}, Json.parseMembers fuel s = some (ms, rest) → M s ms rest)
  | 0 => by
    refine ⟨fun h => ?_, fun h => ?_, fun h => ?_⟩
    all_goals cases h
  | fuel + 1 => by
    obtain ⟨hvalue, hitems, hmembers⟩ := Rules.read fuel
    exact ⟨R.parseValue hitems hmembers, R.parseItems hvalue hitems,
      R.parseMembers hvalue hmembers⟩

theorem Rules.text {s : JsString} {a : Ast} (h : parseText s = some a) :
    ∃ rest, V s a rest ∧ skipWs rest = [] := by
  unfold parseText at h
  split at h
  · rename_i b rest hb
    split at h
    · rename_i hrest
      cases h
      exact ⟨rest, (R.read _).1 hb, hrest⟩
    · cases h
  · cases h

end Rules

/-! ### What is left -/

/-- Something has been read. -/
def Consumed (s rest : JsString) : Prop := rest <:+ s ∧ rest.length < s.length

theorem skipWs_suffix (s : JsString) : skipWs s <:+ s := List.dropWhile_suffix _

namespace Consumed

variable {s t r : JsString}

theorem trans (h : Consumed s t) (h' : Consumed t r) : Consumed s r :=
  ⟨h'.1.trans h.1, Nat.lt_trans h'.2 h.2⟩

theorem behind {u : UInt16} (h : skipWs s = u :: t) : Consumed s t := by
  have hsuf : u :: t <:+ s := h ▸ skipWs_suffix s
  exact ⟨(List.suffix_cons u t).trans hsuf, hsuf.length_le⟩

theorem of_skip (h : Consumed (skipWs s) r) : Consumed s r :=
  ⟨h.1.trans (skipWs_suffix s), Nat.lt_of_lt_of_le h.2 (skipWs_suffix s).length_le⟩

theorem skip (h : Consumed s t) (h' : Consumed (skipWs t) r) : Consumed s r := h.trans h'.of_skip

/-- There is a step to take. -/
theorem step {g : Nat} (h : Consumed s t) (hg : s.length ≤ g + t.length) : ∃ k, g = k + 1 := by
  have hlen := h.2
  exact ⟨g - 1, by omega⟩

end Consumed

/-- The characters of a string, up to its closing quote. -/
inductive Chars : JsString → JsString → JsString → Prop
  | quote (rest) : Chars (34 :: rest) [] rest
  | plain {u s v rest} : u ≠ 34 → u ≠ 92 → ¬u < 32 → Chars s v rest → Chars (u :: s) (u :: v) rest
  | escape {e x s v rest} : e ≠ 117 → escaped e = some x → Chars s v rest →
      Chars (92 :: e :: s) (x :: v) rest
  | unit {a b c d x s v rest} : hexUnit a b c d = some x → Chars s v rest →
      Chars (92 :: 117 :: a :: b :: c :: d :: s) (x :: v) rest

theorem chars_of_parseChars : ∀ (n : Nat) {s v rest : JsString}, s.length ≤ n →
    parseChars s = some (v, rest) → Chars s v rest
  | _, [], _, _, _, h => by cases h
  | 0, _ :: _, _, _, hn, _ => by cases hn
  | n + 1, u :: s, v, rest, hn, h => by
    rw [List.length_cons] at hn
    rw [parseChars.eq_def] at h
    dsimp only at h
    split at h
    · rename_i hq
      cases h
      rw [hq]
      exact .quote _
    split at h
    · rename_i hb
      subst hb
      cases s with
      | nil => cases h
      | cons e s =>
        rw [List.length_cons] at hn
        dsimp only at h
        split at h
        · rename_i he
          subst he
          match s, h with
          | a :: b :: c :: d :: s, h =>
            obtain ⟨x, hx, h⟩ := Option.bind_eq_some_iff.mp h
            obtain ⟨⟨t, r⟩, hs, h⟩ := Option.bind_eq_some_iff.mp h
            cases h
            simp only [List.length_cons] at hn
            exact .unit hx (chars_of_parseChars n (by omega) hs)
        · rename_i he
          obtain ⟨x, hx, h⟩ := Option.bind_eq_some_iff.mp h
          obtain ⟨⟨t, r⟩, hs, h⟩ := Option.bind_eq_some_iff.mp h
          cases h
          exact .escape he hx (chars_of_parseChars n (by omega) hs)
    split at h
    · cases h
    · rename_i hq hb hc
      obtain ⟨⟨t, r⟩, hs, h⟩ := Option.bind_eq_some_iff.mp h
      cases h
      exact .plain hq hb hc (chars_of_parseChars n (by omega) hs)

theorem parseChars_plain {u : UInt16} (hq : u ≠ 34) (hb : u ≠ 92) (h : ¬u < 32)
    {s v rest : JsString} (hs : parseChars s = some (v, rest)) :
    parseChars (u :: s) = some (u :: v, rest) := by
  rw [parseChars.eq_def]
  dsimp only
  rw [if_neg hq, if_neg hb, if_neg h, hs]
  rfl

theorem parseChars_escape {e x : UInt16} (he : e ≠ 117) (hx : escaped e = some x)
    {s v rest : JsString} (hs : parseChars s = some (v, rest)) :
    parseChars (92 :: e :: s) = some (x :: v, rest) := by
  rw [parseChars.eq_def]
  dsimp only
  rw [if_neg (by decide), if_pos rfl, if_neg he, hx, hs]
  rfl

theorem parseChars_unit {a b c d x : UInt16} (hx : hexUnit a b c d = some x)
    {s v rest : JsString} (hs : parseChars s = some (v, rest)) :
    parseChars (92 :: 117 :: a :: b :: c :: d :: s) = some (x :: v, rest) := by
  rw [parseChars.eq_def]
  dsimp only
  rw [if_neg (by decide), if_pos rfl, if_pos rfl, hx]
  show ((parseChars s).bind fun _ => _) = _
  rw [hs]
  rfl

theorem parseChars_iff {s v rest : JsString} :
    parseChars s = some (v, rest) ↔ Chars s v rest := by
  refine ⟨chars_of_parseChars _ (Nat.le_refl _), fun h => ?_⟩
  induction h with
  | quote rest =>
    rw [parseChars.eq_def]
    exact if_pos rfl
  | plain hq hb hc _ ih => exact parseChars_plain hq hb hc ih
  | escape he hx _ ih => exact parseChars_escape he hx ih
  | unit hx _ ih => exact parseChars_unit hx ih

/-- The characters of a string are followed by what is left, whatever it is. -/
theorem Chars.split {s v rest : JsString} (h : Chars s v rest) :
    ∃ u c, s = (u :: c) ++ rest ∧ ∀ rest', Chars ((u :: c) ++ rest') v rest' := by
  induction h with
  | quote rest => exact ⟨34, [], rfl, Chars.quote⟩
  | @plain w _ _ _ hq hb hc _ ih =>
    obtain ⟨u, c, rfl, h⟩ := ih
    exact ⟨w, u :: c, rfl, fun rest' => .plain hq hb hc (h rest')⟩
  | @escape e _ _ _ _ he hx _ ih =>
    obtain ⟨u, c, rfl, h⟩ := ih
    exact ⟨92, e :: u :: c, rfl, fun rest' => .escape he hx (h rest')⟩
  | @unit a b c' d _ _ _ _ hx _ ih =>
    obtain ⟨u, c, rfl, h⟩ := ih
    exact ⟨92, 117 :: a :: b :: c' :: d :: u :: c, rfl, fun rest' => .unit hx (h rest')⟩

theorem Consumed.of_append (u : UInt16) (c rest : JsString) : Consumed ((u :: c) ++ rest) rest := by
  refine ⟨List.suffix_append .., ?_⟩
  rw [List.length_append, List.length_cons]
  omega

theorem parseChars_consumed {s v rest : JsString} (h : parseChars s = some (v, rest)) :
    Consumed s rest := by
  obtain ⟨u, c, rfl, -⟩ := (parseChars_iff.mp h).split
  exact .of_append u c rest

theorem parseWord_consumed {s rest : JsString} {a : Ast} (h : parseWord s = some (a, rest)) :
    Consumed s rest := by
  have hword : ∀ (w : String) (k : Nat), (ascii w).length = k + 1 → ascii w <+: s →
      Consumed s (s.drop (k + 1)) := by
    intro w k hk hp
    have hlen := hp.length_le
    refine ⟨List.drop_suffix .., ?_⟩
    rw [List.length_drop]
    omega
  unfold parseWord at h
  split at h
  · rename_i hp
    cases h
    exact hword "true" 3 (by decide) hp
  split at h
  · rename_i hp
    cases h
    exact hword "false" 4 (by decide) hp
  split at h
  · rename_i hp
    cases h
    exact hword "null" 3 (by decide) hp
  split at h
  · rename_i hn
    cases h
    refine ⟨List.dropWhile_suffix _, ?_⟩
    have hne : s.takeWhile isNumeric ≠ [] := by
      intro hnil
      rw [hnil] at hn
      cases hn
    have hlen := congrArg List.length (@List.takeWhile_append_dropWhile _ isNumeric s)
    have hpos := List.length_pos_iff.mpr hne
    rw [List.length_append] at hlen
    omega
  · cases h

/-- A value is read, and as many steps as characters are enough. -/
def Reads (s : JsString) (a : Ast) (rest : JsString) : Prop :=
  Consumed s rest ∧ ∀ g, s.length ≤ g + rest.length → parseValue g s = some (a, rest)

def ReadsItems (s : JsString) (vs : List Ast) (rest : JsString) : Prop :=
  Consumed s rest ∧ ∀ g, s.length ≤ g + rest.length → parseItems g s = some (vs, rest)

def ReadsMembers (s : JsString) (ms : List (JsString × Ast)) (rest : JsString) : Prop :=
  Consumed s rest ∧ ∀ g, s.length ≤ g + rest.length → parseMembers g s = some (ms, rest)

theorem fuel_rules : Rules Reads ReadsItems ReadsMembers := by
  constructor
  case emptyObject =>
    intro s t rest hs ht
    have hc := (Consumed.behind hs).trans (.behind ht)
    refine ⟨hc, fun g hg => ?_⟩
    obtain ⟨k, rfl⟩ := hc.step hg
    rw [parseValue, hs]
    dsimp only
    rw [if_pos rfl, ht]
    rfl
  case object =>
    intro s t rest ms hs hne h
    have hc := (Consumed.behind hs).skip h.1
    refine ⟨hc, fun g hg => ?_⟩
    obtain ⟨k, rfl⟩ := hc.step hg
    have hlen := (Consumed.behind hs).2
    have hskip := (skipWs_suffix t).length_le
    rw [parseValue, hs]
    dsimp only
    rw [if_pos rfl, if_neg hne, h.2 k (by omega)]
    rfl
  case emptyArray =>
    intro s t rest hs ht
    have hc := (Consumed.behind hs).trans (.behind ht)
    refine ⟨hc, fun g hg => ?_⟩
    obtain ⟨k, rfl⟩ := hc.step hg
    rw [parseValue, hs]
    dsimp only
    rw [if_neg (by decide), if_pos rfl, ht]
    rfl
  case array =>
    intro s t rest vs hs hne h
    have hc := (Consumed.behind hs).skip h.1
    refine ⟨hc, fun g hg => ?_⟩
    obtain ⟨k, rfl⟩ := hc.step hg
    have hlen := (Consumed.behind hs).2
    have hskip := (skipWs_suffix t).length_le
    rw [parseValue, hs]
    dsimp only
    rw [if_neg (by decide), if_pos rfl, if_neg hne, h.2 k (by omega)]
    rfl
  case string =>
    intro s t rest v hs hv
    have hc := (Consumed.behind hs).trans (parseChars_consumed hv)
    refine ⟨hc, fun g hg => ?_⟩
    obtain ⟨k, rfl⟩ := hc.step hg
    rw [parseValue, hs]
    dsimp only
    rw [if_neg (by decide), if_neg (by decide), if_pos rfl, hv]
    rfl
  case word =>
    intro s t rest u a hs hbrace hbracket hquote hw
    have hc := (hs ▸ parseWord_consumed hw : Consumed (skipWs s) rest).of_skip
    refine ⟨hc, fun g hg => ?_⟩
    obtain ⟨k, rfl⟩ := hc.step hg
    rw [parseValue, hs]
    dsimp only
    rw [if_neg hbrace, if_neg hbracket, if_neg hquote, hw]
  case lastItem =>
    intro s r rest v hv hr
    have hend := Consumed.behind hr
    have hc := hv.1.trans hend
    refine ⟨hc, fun g hg => ?_⟩
    obtain ⟨k, rfl⟩ := hc.step hg
    have hlen := hend.2
    rw [parseItems, hv.2 k (by omega)]
    show (match skipWs r with | [] => none | u :: s => _) = _
    rw [hr]
    dsimp only
    rw [if_neg (by decide), if_pos rfl]
  case item =>
    intro s r t rest v vs hv hr hvs
    have hcomma := Consumed.behind hr
    have hc := (hv.1.trans hcomma).trans hvs.1
    refine ⟨hc, fun g hg => ?_⟩
    obtain ⟨k, rfl⟩ := hc.step hg
    have hlen := hcomma.2
    have hlen' := hvs.1.2
    have hlen'' := hv.1.2
    rw [parseItems, hv.2 k (by omega)]
    show (match skipWs r with | [] => none | u :: s => _) = _
    rw [hr]
    dsimp only
    rw [if_pos rfl, hvs.2 k (by omega)]
    rfl
  case lastMember =>
    intro s t t' t'' r rest k v hs hk hcol hv hr
    have hkey := ((Consumed.behind hs).trans (parseChars_consumed hk)).trans
      (.behind hcol)
    have hend := Consumed.behind hr
    have hc := (hkey.trans hv.1).trans hend
    refine ⟨hc, fun g hg => ?_⟩
    obtain ⟨n, rfl⟩ := hc.step hg
    have hlen := hkey.2
    have hlen' := hend.2
    rw [parseMembers, hs]
    dsimp only
    rw [if_pos rfl, hk]
    show (if (skipWs t').head? = some 58 then _ else _) = _
    rw [hcol, List.head?_cons, if_pos rfl]
    show (parseValue n t'' >>= fun p => _) = _
    rw [hv.2 n (by omega)]
    show (match skipWs r with | [] => none | u :: s => _) = _
    rw [hr]
    dsimp only
    rw [if_neg (by decide), if_pos rfl]
  case member =>
    intro s t t' t'' r r' rest k v ms hs hk hcol hv hr hms
    have hkey := ((Consumed.behind hs).trans (parseChars_consumed hk)).trans
      (.behind hcol)
    have hcomma := Consumed.behind hr
    have hc := ((hkey.trans hv.1).trans hcomma).trans hms.1
    refine ⟨hc, fun g hg => ?_⟩
    obtain ⟨n, rfl⟩ := hc.step hg
    have hlen := hkey.2
    have hlen' := hcomma.2
    have hlen'' := hms.1.2
    have hlen''' := hv.1.2
    rw [parseMembers, hs]
    dsimp only
    rw [if_pos rfl, hk]
    show (if (skipWs t').head? = some 58 then _ else _) = _
    rw [hcol, List.head?_cons, if_pos rfl]
    show (parseValue n t'' >>= fun p => _) = _
    rw [hv.2 n (by omega)]
    show (match skipWs r with | [] => none | u :: s => _) = _
    rw [hr]
    dsimp only
    rw [if_pos rfl, hms.2 n (by omega)]
    rfl

/-- How a value is read. -/
inductive ValueForm : JsString → Ast → JsString → Prop
  | emptyObject {s t rest} : skipWs s = 123 :: t → skipWs t = 125 :: rest →
      ValueForm s (.object []) rest
  | object {s t rest ms} : skipWs s = 123 :: t → (skipWs t).head? ≠ some 125 →
      ReadsMembers (skipWs t) ms rest → ValueForm s (.object ms) rest
  | emptyArray {s t rest} : skipWs s = 91 :: t → skipWs t = 93 :: rest →
      ValueForm s (.array []) rest
  | array {s t rest vs} : skipWs s = 91 :: t → (skipWs t).head? ≠ some 93 →
      ReadsItems (skipWs t) vs rest → ValueForm s (.array vs) rest
  | string {s t rest v} : skipWs s = 34 :: t → parseChars t = some (v, rest) →
      ValueForm s (.string v) rest
  | word {s t rest u a} : skipWs s = u :: t → u ≠ 123 → u ≠ 91 → u ≠ 34 →
      parseWord (u :: t) = some (a, rest) → ValueForm s a rest

theorem ValueForm.reads {s rest : JsString} {a : Ast} (h : ValueForm s a rest) :
    Reads s a rest := by
  cases h with
  | emptyObject hs ht => exact fuel_rules.emptyObject hs ht
  | object hs hne h => exact fuel_rules.object hs hne h
  | emptyArray hs ht => exact fuel_rules.emptyArray hs ht
  | array hs hne h => exact fuel_rules.array hs hne h
  | string hs hv => exact fuel_rules.string hs hv
  | word hs hbrace hbracket hquote h => exact fuel_rules.word hs hbrace hbracket hquote h

/-- How items are read. -/
inductive ItemsForm : JsString → List Ast → JsString → Prop
  | last {s r rest v} : Reads s v r → skipWs r = 93 :: rest → ItemsForm s [v] rest
  | cons {s r t rest v vs} : Reads s v r → skipWs r = 44 :: t → ReadsItems t vs rest →
      ItemsForm s (v :: vs) rest

theorem form_rules : Rules ValueForm
    (fun s vs rest => ReadsItems s vs rest ∧ ItemsForm s vs rest) ReadsMembers where
  emptyObject := .emptyObject
  object := .object
  emptyArray := .emptyArray
  array hs hne h := .array hs hne h.1
  string := .string
  word := .word
  lastItem hv hr := ⟨fuel_rules.lastItem hv.reads hr, .last hv.reads hr⟩
  item hv hr hvs := ⟨fuel_rules.item hv.reads hr hvs.1, .cons hv.reads hr hvs.1⟩
  lastMember hs hk hcol hv hr := fuel_rules.lastMember hs hk hcol hv.reads hr
  member hs hk hcol hv hr hms := fuel_rules.member hs hk hcol hv.reads hr hms

theorem Reads.form {s rest : JsString} {a : Ast} (h : Reads s a rest) : ValueForm s a rest :=
  (form_rules.read s.length).1 (h.2 s.length (Nat.le_add_right _ _))

/-- White space may be passed over first. -/
theorem Reads.skip {s rest : JsString} {a : Ast} (h : Reads s a rest) :
    Reads (skipWs s) a rest := by
  have hskip : skipWs (skipWs s) = skipWs s := List.dropWhile_idempotent isWs s
  have hform : ValueForm (skipWs s) a rest := by
    cases h.form with
    | emptyObject hs ht => exact .emptyObject (hskip.trans hs) ht
    | object hs hne h => exact .object (hskip.trans hs) hne h
    | emptyArray hs ht => exact .emptyArray (hskip.trans hs) ht
    | array hs hne h => exact .array (hskip.trans hs) hne h
    | string hs hv => exact .string (hskip.trans hs) hv
    | word hs hbrace hbracket hquote h =>
      exact .word (hskip.trans hs) hbrace hbracket hquote h
  exact hform.reads

theorem ReadsItems.form {s rest : JsString} {vs : List Ast} (h : ReadsItems s vs rest) :
    ItemsForm s vs rest :=
  ((form_rules.read s.length).2.1 (h.2 s.length (Nat.le_add_right _ _))).2

/-- A word that is no array and no string. -/
theorem parseWord_scalar {s rest : JsString} {a : Ast} (h : parseWord s = some (a, rest)) :
    (∃ b, a = .boolean b) ∨ a = .null ∧ s = ascii "null" ++ rest ∨ ∃ token, a = .number token := by
  unfold parseWord at h
  split at h
  · cases h
    exact .inl ⟨true, rfl⟩
  split at h
  · cases h
    exact .inl ⟨false, rfl⟩
  split at h
  · rename_i hp
    obtain ⟨r, rfl⟩ := hp
    cases h
    exact .inr (.inl ⟨rfl, rfl⟩)
  split at h
  · cases h
    exact .inr (.inr ⟨_, rfl⟩)
  · cases h

theorem Reads.array {s rest : JsString} {vs : List Ast} (h : Reads s (.array vs) rest) :
    ∃ t, skipWs s = 91 :: t ∧
      (vs = [] ∧ skipWs t = 93 :: rest ∨ ReadsItems (skipWs t) vs rest) := by
  cases h.form with
  | emptyArray hs ht => exact ⟨_, hs, .inl ⟨rfl, ht⟩⟩
  | array hs _ hvs => exact ⟨_, hs, .inr hvs⟩
  | word _ _ _ _ hw => rcases parseWord_scalar hw with ⟨_, h⟩ | ⟨h, -⟩ | ⟨_, h⟩ <;> cases h

theorem Reads.string {s rest v : JsString} (h : Reads s (.string v) rest) :
    ∃ t, skipWs s = 34 :: t ∧ Chars t v rest := by
  cases h.form with
  | string hs hv => exact ⟨_, hs, parseChars_iff.mp hv⟩
  | word _ _ _ _ hw => rcases parseWord_scalar hw with ⟨_, h⟩ | ⟨h, -⟩ | ⟨_, h⟩ <;> cases h

theorem Reads.null {s rest : JsString} (h : Reads s .null rest) :
    skipWs s = ascii "null" ++ rest := by
  cases h.form with
  | word hs _ _ _ hw =>
    rcases parseWord_scalar hw with ⟨_, h⟩ | ⟨-, h⟩ | ⟨_, h⟩
    · cases h
    · rw [hs, h]
    · cases h

theorem Reads.of_quote {s t rest : JsString} {a : Ast} (h : Reads s a rest)
    (hs : skipWs s = 34 :: t) : ∃ v, a = .string v ∧ Chars t v rest := by
  cases h.form with
  | string hs' hv =>
    rw [hs] at hs'
    cases hs'
    exact ⟨_, rfl, parseChars_iff.mp hv⟩
  | word hs' _ _ hne _ =>
    rw [hs] at hs'
    cases hs'
    exact absurd rfl hne
  | emptyObject hs' => rw [hs] at hs'; cases hs'
  | object hs' => rw [hs] at hs'; cases hs'
  | emptyArray hs' => rw [hs] at hs'; cases hs'
  | array hs' => rw [hs] at hs'; cases hs'

/-- **A text is read** if it is with any number of steps. -/
theorem parseText_of_value {fuel : Nat} {s rest : JsString} {a : Ast}
    (h : parseValue fuel s = some (a, rest)) (hrest : skipWs rest = []) :
    parseText s = some a := by
  have hvalue := ((fuel_rules.read fuel).1 h).2 (s.length + 1) (by omega)
  unfold parseText
  rw [hvalue]
  exact if_pos hrest

/-! ### Values -/

/-- `CreateDataProperty`. -/
def put {α : Type} (k : JsString) (v : α) : List (JsString × α) → List (JsString × α)
  | [] => [(k, v)]
  | p :: ps => if p.1 = k then (k, v) :: ps else p :: put k v ps

mutual

/-- The text of what stays. -/
def Ast.record : Ast → Ast
  | .array vs => .array (recordItems vs)
  | .object ms => .object (recordMembers [] ms)
  | .null => .null
  | .boolean b => .boolean b
  | .number token => .number token
  | .string s => .string s

def recordItems : List Ast → List Ast
  | [] => []
  | v :: vs => v.record :: recordItems vs

def recordMembers (o : List (JsString × Ast)) : List (JsString × Ast) → List (JsString × Ast)
  | [] => o
  | (k, v) :: ms => recordMembers (put k v.record o) ms

end

mutual

/-- The value of a record, with these numbers. -/
def Ast.value (num : JsString → Tree) : Ast → Tree
  | .null => .null
  | .boolean b => .boolean b
  | .number token => num token
  | .string s => .string s
  | .array vs => .array (valueItems num vs)
  | .object ms => .object (valueMembers num ms)

def valueItems (num : JsString → Tree) : List Ast → List Tree
  | [] => []
  | v :: vs => v.value num :: valueItems num vs

def valueMembers (num : JsString → Tree) : List (JsString × Ast) → List (JsString × Tree)
  | [] => []
  | (k, v) :: ms => (k, v.value num) :: valueMembers num ms

end

mutual

/-- The numbers of a text. -/
def Ast.tokens : Ast → List JsString
  | .null | .boolean _ | .string _ => []
  | .number token => [token]
  | .array vs => tokensItems vs
  | .object ms => tokensMembers ms

def tokensItems : List Ast → List JsString
  | [] => []
  | v :: vs => v.tokens ++ tokensItems vs

def tokensMembers : List (JsString × Ast) → List JsString
  | [] => []
  | (_, v) :: ms => v.tokens ++ tokensMembers ms

end

end Minipg.Json
