import Minipg.Decode.Entries
import Minipg.Decode.Markers

/-!
# The mappers of a connection

A connection keeps the mappers that it has compiled (`getMapper`, `src/connection.ts`).  The key is
put together from the columns with `:` between the fields and `,` between the columns, and the name
of a column and the keys of the groups that it is in are written as they are.
-/

namespace Minipg.Mappers

open Js Cells Plans Delimited

variable {calls : List Call}

/-! ### Columns -/

/-- The type of the elements of an array column: its own, by the sentinel, or the one that
`ARRAY_OID` has it for. -/
def IsElem (oid elem : Int) : Prop :=
  elem = oid ∧ oid < 0 ∨ ∃ n m : Nat, Bulk.arrayOid n = some m ∧ elem = n ∧ oid = m

/-- A column, with `format: 'text'` written out or not, and the groups that it is in, from the
outside. -/
structure MapperCol (calls : List Call) extends Column (JsonMarker calls) where
  name : String
  explicit : Bool := false
  groups : List (String × Bool) := []
  xform : Option (TransformMarker calls) := none
  nullable : Bool := false
  array_elem : ∀ elem js, array = some (elem, js) → IsElem oid elem
  explicit_text : explicit = true → format = .text

theorem MapperCol.eq_of {a b : MapperCol calls} (hcolumn : a.toColumn = b.toColumn)
    (hname : a.name = b.name) (hexplicit : a.explicit = b.explicit) (hgroups : a.groups = b.groups)
    (hxform : a.xform = b.xform) (hnullable : a.nullable = b.nullable) : a = b := by
  obtain ⟨⟩ := a
  obtain ⟨⟩ := b
  cases hcolumn
  cases hname
  cases hexplicit
  cases hgroups
  cases hxform
  cases hnullable
  rfl

/-- What the assembly of a row reads of it. -/
def MapperCol.place (c : MapperCol calls) : Place where
  name := c.name
  path := if c.groups = [] then none else some (c.groups.map Prod.fst)
  groupNullable := if c.groups = [] then none else some (c.groups.map Prod.snd)
  xform := c.xform.map (·.call.fn)
  nullable := c.nullable

theorem isElem_elemOid {oid elem : Int} (h : elemOid oid = some elem) : IsElem oid elem := by
  unfold elemOid at h
  split at h
  all_goals cases h
  all_goals exact .inr ⟨_, _, rfl, rfl, rfl⟩

/-- A column whose elements are marked with their type. -/
def Marked (c : Column (JsonMarker calls)) : Prop :=
  ∀ elem js, c.array = some (elem, js) → IsElem c.oid elem

theorem tagArrayCol_marked {c : Column (JsonMarker calls)} (h : Marked c) :
    Marked (tagArrayCol c) := by
  unfold tagArrayCol
  split
  · exact h
  · split
    · exact h
    · next helem =>
      intro elem js harray
      cases harray
      exact isElem_elemOid helem

theorem textInstant_marked {c d : Column (JsonMarker calls)} (h : Marked c)
    (hd : textInstant c = some d) : Marked d := by
  unfold textInstant at hd
  split at hd
  · cases hd
    exact h
  · unfold Column.elementsAsText at hd
    split at hd
    · next helem =>
      split at hd
      · cases hd
        intro elem js harray
        cases harray
        exact h _ _ helem
      · cases hd
    · cases hd

theorem resolveCol_eq (cfg : PlanConfig) (c : Column (JsonMarker calls)) :
    Connection.resolveCol cfg c = if cfg.temporal = .string then
      (textInstant (tagArrayCol c)).getD (tagArrayCol c) else tagArrayCol c := rfl

theorem resolveCol_marked (cfg : PlanConfig) {c : Column (JsonMarker calls)} (h : Marked c) :
    Marked (Connection.resolveCol cfg c) := by
  rw [resolveCol_eq]
  split
  · cases hd : textInstant (tagArrayCol c) with
    | none => exact tagArrayCol_marked h
    | some d => exact textInstant_marked (tagArrayCol_marked h) hd
  · exact tagArrayCol_marked h

theorem tagArrayCol_eq (c : Column (JsonMarker calls)) :
    (tagArrayCol c).oid = c.oid ∧ (tagArrayCol c).js = c.js ∧ (tagArrayCol c).json = c.json ∧
      (tagArrayCol c).format = c.format := by
  unfold tagArrayCol
  split
  · exact ⟨rfl, rfl, rfl, rfl⟩
  · split <;> exact ⟨rfl, rfl, rfl, rfl⟩

/-- The instants that `temporal: 'string'` asks for as text. -/
def Asked (cfg : PlanConfig) (c : Column (JsonMarker calls)) : Prop :=
  cfg.temporal = .string ∧ absent c.js ∧ c.json.isNone ∧ c.oid ∈ instantOids

instance (cfg : PlanConfig) (c : Column (JsonMarker calls)) : Decidable (Asked cfg c) :=
  inferInstanceAs (Decidable (_ ∧ _))

theorem textInstant_format {c d : Column (JsonMarker calls)} (hd : textInstant c = some d)
    (h : c.format = .text) : d.format = .text := by
  unfold textInstant at hd
  split at hd
  · cases hd
    rfl
  · unfold Column.elementsAsText at hd
    split at hd
    · split at hd
      · cases hd
        exact h
      · cases hd
    · cases hd

theorem resolveCol_format (cfg : PlanConfig) (c : Column (JsonMarker calls))
    (h : c.format = .text ∨ Asked cfg c) : (Connection.resolveCol cfg c).format = .text := by
  obtain ⟨hoid, hjs, hjson, hformat⟩ := tagArrayCol_eq c
  rw [resolveCol_eq]
  obtain h | ⟨htemporal, hasked⟩ := h
  · rw [← hformat] at h
    split
    · cases hd : textInstant (tagArrayCol c) with
      | none => exact h
      | some d => exact textInstant_format hd h
    · exact h
  · rw [← hoid, ← hjs, ← hjson] at hasked
    rw [if_pos htemporal, textInstant, if_pos hasked]
    rfl

/-- `resolveCols`, on a column. -/
def MapperCol.resolve (cfg : PlanConfig) (c : MapperCol calls) : MapperCol calls :=
  { c with
    toColumn := Connection.resolveCol cfg c.toColumn
    explicit := c.explicit ∨ Asked cfg c.toColumn
    array_elem := resolveCol_marked cfg c.array_elem
    explicit_text h := resolveCol_format cfg c.toColumn <| by
      obtain h | h := of_decide_eq_true h
      · exact .inl (c.explicit_text h)
      · exact .inr h }

/-! ### Keys -/

def intText : Int → Text
  | .ofNat n => decimal n
  | .negSucc n => '-' :: decimal (n + 1)

def formatText : WireFormat → Bool → Text
  | .binary, _ => "binary".toList
  | .text, true => "text".toList
  | .text, false => ['t']

/-- `c.format ?? 't'`. -/
def MapperCol.formatText (c : MapperCol calls) : Text := Mappers.formatText c.format c.explicit

def targetText (js : Target) : Text := (js.getD "").toList

def MapperCol.jsonText (c : MapperCol calls) : Text :=
  match c.json with
  | none => []
  | some m => m.text

def MapperCol.arrayText (c : MapperCol calls) : Text :=
  match c.array with
  | none => []
  | some (elem, js) => 'a' :: (intText elem ++ targetText js)

def MapperCol.pathText (c : MapperCol calls) : Text := join '.' (c.groups.map (·.1.toList))

def MapperCol.bitsText (c : MapperCol calls) : Text :=
  c.groups.map fun g => if g.2 then '1' else '0'

def MapperCol.nullableText (c : MapperCol calls) : Text := if c.nullable then ['n'] else []

def MapperCol.xformText (c : MapperCol calls) : Text :=
  match c.xform with
  | none => []
  | some m => decimal m.id

/-- The fields of a column that say how a cell is decoded. -/
def MapperCol.typeFields (c : MapperCol calls) (rest : Text) : Text :=
  intText c.oid ++ ':' :: (c.formatText ++ ':' :: (targetText c.js ++ ':' :: (c.jsonText ++
    ':' :: (c.arrayText ++ ':' :: rest))))

/-- The fields that say where the cell goes. -/
def MapperCol.placeFields (c : MapperCol calls) (rest : Text) : Text :=
  c.pathText ++ ':' :: (c.bitsText ++ ':' :: (c.nullableText ++ ':' :: (c.xformText ++ rest)))

def MapperCol.keyText (c : MapperCol calls) (rest : Text) : Text :=
  c.name.toList ++ ':' :: c.typeFields (c.placeFields rest)

/-- `cols.map(…).join(',')`. -/
def columnsText : List (MapperCol calls) → Text
  | [] => []
  | [c] => c.keyText []
  | c :: d :: cols => c.keyText (',' :: columnsText (d :: cols))

def modeText : Rows.RowMode → Text
  | .array => "array".toList
  | .object => "object".toList

def mapperKey (cfg : PlanConfig) (cols : List (MapperCol calls)) (mode : Rows.RowMode) : Text :=
  modeText mode ++ '|' :: columnsText (cols.map (·.resolve cfg))

/-- As many cells of a row as there are columns; past the end, the length of a cell is read as 0. -/
def cellsOf (n : Nat) (row : List (Option Bytes)) : List (Option Bytes) :=
  (List.range n).map fun i => (row[i]?).getD (some [])

/-- The mapper that `getMapper` compiles, on a row. -/
def getMapper (cfg : PlanConfig) (dec : Decoding (JsonMarker calls)) (cols : List (MapperCol calls))
    (mode : Rows.RowMode) (row : List (Option Bytes)) : Except Failure Row :=
  let cols := cols.map (·.resolve cfg)
  decodeRow cfg dec (cols.map (·.place)) mode
    ((cols.map (·.toColumn)).zip (cellsOf cols.length row))

end Minipg.Mappers
