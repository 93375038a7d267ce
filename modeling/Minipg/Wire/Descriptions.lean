import Minipg.Decode.BigEndian
import Minipg.Encode.Frames
import Minipg.Wire.Cstrings

/-!
# Descriptions

The bodies of RowDescription and ParameterDescription (`src/protocol.ts`).  The counts and the OIDs
of the wire are unsigned, and both parsers read them signed: a ParameterDescription is read back
exactly when its count and its OIDs lie below the sign bit (`described_iff`), and a RowDescription
is read to its end unless it is cut before the NUL of a name (`rowDescription_ends`).
-/

namespace Minipg.Descriptions

open Js Cells Encode

/-! ### Parameters -/

def oidLoop (body : Bytes) : Nat → Nat → Except Js.JsError (List Int)
  | 0, _ => .ok []
  | k + 1, i => do
    let oid := signed 32 (← readBE 4 body (2 + i * 4))
    return oid :: (← oidLoop body k (i + 1))

/-- `new Array(n)` throws on a negative count. -/
def parseParameterDescription (body : Bytes) : Except Js.JsError (List Int) := do
  let n := signed 16 (← readBE 2 body 0)
  if n < 0 then .error .rangeError else oidLoop body n.toNat 0

/-- What `onData` does with a ParameterDescription while a task is current. -/
inductive Handled
  /-- `this.current._paramOids` -/
  | paramOids (oids : List Int)
  | socketDown (e : Js.JsError)
  deriving DecidableEq, Repr

def handleParameterDescription (body : Bytes) : Handled :=
  match parseParameterDescription body with
  | .ok oids => .paramOids oids
  | .error e => .socketDown e

/-- The types of the parameters of a statement whose Bind is accepted. -/
structure ParameterDescription where
  oids : List UInt32
  length_le : oids.length ≤ maxParams

namespace ParameterDescription

def body (d : ParameterDescription) : Bytes :=
  bigEndian 2 d.oids.length ++ d.oids.flatMap fun oid => bigEndian 4 oid.toNat

/-- The types as numbers. -/
def values (d : ParameterDescription) : List Int := d.oids.map fun oid => (oid.toNat : Int)

end ParameterDescription

theorem signed_eq {bits n : Nat} : signed bits n = n ↔ n < 2 ^ (bits - 1) := by
  unfold signed
  have hpos : 0 < 2 ^ bits := Nat.pow_pos (by decide)
  split
  · next h => exact ⟨fun _ => h, fun _ => rfl⟩
  · next h =>
    refine ⟨fun heq => ?_, fun hlt => absurd hlt h⟩
    have hcast : ((2 ^ bits : Nat) : Int) = 2 ^ bits := by norm_cast
    omega

/-- The OIDs are read one after another, each as a signed number. -/
theorem oidLoop_reads : ∀ (oids : List UInt32) (i : Nat) (pre post : Bytes),
    pre.length = 2 + i * 4 →
      oidLoop (pre ++ (oids.flatMap fun oid => bigEndian 4 oid.toNat) ++ post) oids.length i =
        .ok (oids.map fun oid => signed 32 oid.toNat)
  | [], _, _, _, _ => rfl
  | oid :: oids, i, pre, post, hpre => by
    have hread := readBE_bigEndian 4 oid.toNat pre
      ((oids.flatMap fun oid => bigEndian 4 oid.toNat) ++ post)
    have hmod : ((oid.toNat : Int) % 256 ^ 4).toNat = oid.toNat := by
      have hlt := oid.toNat_lt
      omega
    have hrest := oidLoop_reads oids (i + 1) (pre ++ bigEndian 4 oid.toNat) post (by
      rw [List.length_append, bigEndian_length, hpre]
      omega)
    rw [hmod, hpre] at hread
    simp only [List.append_assoc] at hread hrest
    simp only [List.length_cons, List.flatMap_cons, List.append_assoc, oidLoop, hread, hrest]
    rfl

/-- The count is read as a signed number. -/
theorem parse_body (d : ParameterDescription) :
    parseParameterDescription d.body =
      if d.oids.length ≤ 32767 then .ok (d.oids.map fun oid => signed 32 oid.toNat)
      else .error .rangeError := by
  have hle : d.oids.length ≤ 65535 := d.length_le
  have hcount := readBE_bigEndian 2 d.oids.length []
    (d.oids.flatMap fun oid => bigEndian 4 oid.toNat)
  have hmod : ((d.oids.length : Int) % 256 ^ 2).toNat = d.oids.length := by omega
  rw [hmod] at hcount
  have hbody : readBE 2 d.body 0 = .ok d.oids.length := hcount
  unfold parseParameterDescription
  rw [hbody]
  show (if signed 16 d.oids.length < 0 then _ else oidLoop _ (signed 16 d.oids.length).toNat 0) = _
  by_cases hsmall : d.oids.length ≤ 32767
  · have hsigned : signed 16 d.oids.length = d.oids.length := signed_eq.mpr (by omega)
    have hloop := oidLoop_reads d.oids 0 (bigEndian 2 d.oids.length) [] (bigEndian_length ..)
    rw [List.append_nil] at hloop
    rw [hsigned, if_neg (by omega), if_pos hsmall, Int.toNat_natCast]
    exact hloop
  · have hsigned : signed 16 d.oids.length < 0 := by
      unfold signed
      rw [if_neg (by omega)]
      omega
    rw [if_pos hsigned, if_neg hsmall]

theorem parse_long {d : ParameterDescription} (h : 32768 ≤ d.oids.length) :
    handleParameterDescription d.body = .socketDown .rangeError := by
  unfold handleParameterDescription
  rw [parse_body, if_neg (by omega)]

/-- **A ParameterDescription is read as it was sent** exactly when its count and its OIDs lie below
the sign bit, and it tears down the connection exactly when the count does not. -/
theorem described_iff (d : ParameterDescription) :
    (handleParameterDescription d.body = .paramOids d.values ↔
      d.oids.length < 2 ^ 15 ∧ ∀ oid ∈ d.oids, oid.toNat < 2 ^ 31) ∧
    ((∃ e, handleParameterDescription d.body = .socketDown e) ↔ 2 ^ 15 ≤ d.oids.length) := by
  by_cases hsmall : d.oids.length ≤ 32767
  · have hparse : handleParameterDescription d.body =
        .paramOids (d.oids.map fun oid => signed 32 oid.toNat) := by
      unfold handleParameterDescription
      rw [parse_body, if_pos hsmall]
    rw [hparse]
    refine ⟨?_, ⟨nofun, fun hlong => by omega⟩⟩
    rw [Handled.paramOids.injEq, ParameterDescription.values, List.map_inj_left]
    simp only [signed_eq]
    exact ⟨fun h => ⟨by omega, h⟩, fun h => h.2⟩
  · rw [parse_long (by omega)]
    exact ⟨⟨nofun, fun h => by omega⟩, fun _ => by omega, fun _ => ⟨_, rfl⟩⟩

/-- A statement with one parameter of a type whose OID has the sign bit. -/
def highOid : ParameterDescription := ⟨[0x80000000], by decide⟩

/-- As many parameters as have a count with the sign bit. -/
def manyTexts : ParameterDescription := ⟨List.replicate 32768 25, by
  rw [List.length_replicate]
  decide⟩

theorem manyTexts_length : manyTexts.oids.length = 32768 := List.length_replicate

theorem highOid_negative :
    handleParameterDescription highOid.body = .paramOids [-2147483648] ∧
    handleParameterDescription highOid.body ≠ .paramOids highOid.values ∧
    handleParameterDescription manyTexts.body = .socketDown .rangeError :=
  ⟨by decide, by decide, parse_long (Nat.le_of_eq manyTexts_length.symm)⟩

/-! ### Rows -/

open Cstrings

structure Field where
  name : JsString
  tableOid : Int
  columnId : Int
  dataTypeOid : Int
  dataTypeSize : Int
  typeModifier : Int
  format : Int
  deriving DecidableEq, Repr

/-- What comes after a name. -/
def field (body : Bytes) (_ : Nat) (name : JsString) (off : Nat) : Except Js.JsError Field := do
  return {
    name
    tableOid := signed 32 (← readBE 4 body off)
    columnId := signed 16 (← readBE 2 body (off + 4))
    dataTypeOid := signed 32 (← readBE 4 body (off + 6))
    dataTypeSize := signed 16 (← readBE 2 body (off + 10))
    typeModifier := signed 32 (← readBE 4 body (off + 12))
    format := signed 16 (← readBE 2 body (off + 16)) }

def parseRowDescription (rt : Runtime) (fuel : Nat) (body : Bytes) : Run (List Field) := do
  let n := signed 16 (← readBE 2 body 0)
  let (fields, _) ← records rt fuel body 0 18 (field body) n.toNat 2
  return fields

/-- Fewer fields than it counts come before one whose name has no end. -/
def RowCut (body : Bytes) : Prop :=
  ∃ n, readBE 2 body 0 = .ok n ∧ Cut 0 18 18 (signed 16 n).toNat (body.drop 2)

theorem field_reads (body : Bytes) (off : Nat) (name : JsString) (next : Nat) :
    (∃ f, field body off name next = .ok f) ↔ next + 18 ≤ body.length := by
  constructor
  · rintro ⟨f, hf⟩
    obtain ⟨tableOid, -, hf⟩ := ok_of_bind hf
    obtain ⟨columnId, -, hf⟩ := ok_of_bind hf
    obtain ⟨dataTypeOid, -, hf⟩ := ok_of_bind hf
    obtain ⟨dataTypeSize, -, hf⟩ := ok_of_bind hf
    obtain ⟨typeModifier, -, hf⟩ := ok_of_bind hf
    obtain ⟨format, hformat, -⟩ := ok_of_bind hf
    by_contra hshort
    have hlast : readBE 2 body (next + 16) = .error .rangeError := if_neg (by omega)
    rw [hlast] at hformat
    cases hformat
  · intro hlen
    unfold field readBE
    rw [if_pos (by omega), if_pos (by omega), if_pos (by omega), if_pos (by omega),
      if_pos (by omega), if_pos (by omega)]
    exact ⟨_, rfl⟩

/-- A RowDescription is parsed within a scan of the body for each name, or never. -/
theorem rowDescription_ends (rt : Runtime) (body : Bytes) :
    (∃ fuel, parseRowDescription rt fuel body ≠ none) ↔ ¬RowCut body := by
  constructor
  · rintro ⟨fuel, hends⟩ ⟨n, hn, hcut⟩
    refine hends (lift_bind_eq_none.mpr ⟨n, hn, bind_eq_none.mpr (.inl ?_)⟩)
    exact records_cut fuel (field_reads body) _ 2 hcut
  · intro hcut
    refine ⟨body.length + 1, fun hnone => ?_⟩
    obtain ⟨n, hn, hnone⟩ := lift_bind_eq_none.mp hnone
    rcases bind_eq_none.mp hnone with hnone | ⟨_, -, hnone⟩
    · exact records_ends (Nat.lt_succ_self _) (field_reads body) _ 2
        (fun hrows => hcut ⟨n, hn, hrows⟩) hnone
    · cases hnone

end Minipg.Descriptions
