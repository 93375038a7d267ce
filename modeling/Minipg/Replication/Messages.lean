import Minipg.Auth.Scram
import Minipg.Decode.Entries
import Minipg.Replication.Lsn
import Minipg.Wire.Descriptions

/-!
# Strings in the messages of a replication connection

ParameterStatus, and the two messages of `pgoutput` with strings, Relation and Message
(`src/replication.ts`).  Like RowDescription they are read to their end exactly when the NUL of
every string that is read is there (`bodies_end_iff`).
-/

namespace Minipg.Messages

open Js Cells Cstrings
open Auth (parseInt10)

/-- ParameterStatus, of which only the version counts; `serverMajor` is what was known before. -/
def param (fuel : Nat) (serverMajor : Int) (b : Bytes) : Run Int := do
  let z ← scan fuel b 0
  if latin1Slice b 0 z ≠ ascii "server_version" then return serverMajor
  let e ← scan fuel b (z + 1)
  return (parseInt10 (latin1Slice b (z + 1) (e - (z + 1)))).getD 0

structure Column where
  name : JsString
  oid : Int
  key : Bool
  deriving DecidableEq, Repr

/-- The fields of a Relation message; the identity is a code unit. -/
structure Relation where
  id : Int
  schema : JsString
  table : JsString
  replicaIdentity : Nat
  columns : List Column
  deriving DecidableEq, Repr

/-- `start` is where the flag of the key is, `off` where the OID is. -/
def column (b : Bytes) (start : Nat) (name : JsString) (off : Nat) :
    Except Js.JsError Column := do
  let oid := signed 32 (← readBE 4 b off)
  return ⟨name, oid, b[start]? = some 1⟩

/-- The case `'R'` of `decode`, up to `relEntry`. -/
def decodeRelation (rt : Runtime) (fuel : Nat) (b : Bytes) : Run Relation := do
  let id := signed 32 (← readBE 4 b 1)
  let (schema, off) ← cstr rt fuel b 5
  let (table, off) ← cstr rt fuel b off
  let n := signed 16 (← readBE 2 b (off + 1))
  let (columns, _) ← records rt fuel b 1 8 (column b) n.toNat (off + 3)
  return ⟨id, schema, table, bits b off, columns⟩

structure Message where
  transactional : Bool
  messagePrefix : JsString
  content : Bytes
  lsn : String
  deriving DecidableEq, Repr

/-- `b.subarray(start, stop)`, where a negative end counts from the end of the buffer. -/
def subarray (b : Bytes) (start : Nat) (stop : Int) : Bytes :=
  (b.take (if stop < 0 then stop + b.length else stop).toNat).drop start

/-- The case `'M'` of `decode`. -/
def decodeMessage (rt : Runtime) (fuel : Nat) (b : Bytes) : Run Message := do
  let lsn := lsnToString (← readBE 8 b 2)
  let (messagePrefix, off) ← cstr rt fuel b 10
  let len := signed 32 (← readBE 4 b off)
  return ⟨b[1]? = some 1, messagePrefix, subarray b (off + 4) (off + 4 + len), lsn⟩

/-! ### Bodies without an end -/

def versionName : Bytes := latin1 (ascii "server_version")

/-- The name has no end, or the version has none. -/
def StatusCut (b : Bytes) : Prop :=
  0 ∉ b ∨ ∃ version, b = versionName ++ 0 :: version ∧ 0 ∉ version

/-- The schema has no end, or the table, or the name of a column. -/
def RelationCut (b : Bytes) : Prop :=
  5 ≤ b.length ∧ (0 ∉ b.drop 5 ∨ ∃ schema rest, b.drop 5 = schema ++ 0 :: rest ∧ 0 ∉ schema ∧
    (0 ∉ rest ∨ ∃ table fields, rest = table ++ 0 :: fields ∧ 0 ∉ table ∧
      ∃ n, readBE 2 fields 1 = .ok n ∧ Cut 1 8 4 (signed 16 n).toNat (fields.drop 3)))

/-- The position is there, and the prefix has no end. -/
def MessageCut (b : Bytes) : Prop := 10 ≤ b.length ∧ 0 ∉ b.drop 10

theorem readBE_ok {size : Nat} {b : Bytes} {o : Nat} :
    (∃ n, readBE size b o = .ok n) ↔ o + size ≤ b.length := by
  unfold readBE
  split
  · next h => exact ⟨fun _ => h, fun _ => ⟨_, rfl⟩⟩
  · next h => exact ⟨nofun, fun hle => absurd hle h⟩

theorem readBE_drop (size : Nat) (b : Bytes) (start o : Nat) (h : start ≤ b.length) :
    readBE size (b.drop start) o = readBE size b (start + o) := by
  unfold readBE slice
  rw [List.length_drop, List.drop_drop]
  by_cases hle : start + o + size ≤ b.length
  · rw [if_pos hle, if_pos (by omega)]
  · rw [if_neg hle, if_neg (by omega)]

theorem column_reads (b : Bytes) (start : Nat) (name : JsString) (off : Nat) :
    (∃ c, column b start name off = .ok c) ↔ off + 4 ≤ b.length := by
  rw [← readBE_ok]
  unfold column
  cases readBE 4 b off with
  | error e => exact ⟨fun ⟨_, h⟩ => (nomatch h), fun ⟨_, h⟩ => (nomatch h)⟩
  | ok n => exact ⟨fun _ => ⟨n, rfl⟩, fun _ => ⟨_, rfl⟩⟩

theorem latin1_inj : ∀ {a b : Bytes}, (a.map fun c => UInt16.ofNat c.toNat) =
    b.map (fun c => UInt16.ofNat c.toNat) → a = b := by
  intro a b h
  refine List.map_injective_iff.mpr (fun x y hxy => ?_) h
  have hnat := congrArg UInt16.toNat hxy
  have hx := x.toNat_lt
  have hy := y.toNat_lt
  simp only [UInt16.toNat_ofNat'] at hnat
  exact UInt8.toNat_inj.mp (by omega)

theorem slice_name {b name rest : Bytes} (h : b = name ++ 0 :: rest) :
    latin1Slice b 0 name.length = ascii "server_version" ↔ name = versionName := by
  unfold latin1Slice slice
  rw [h, List.drop_zero, List.take_left]
  have hname : ascii "server_version" = versionName.map fun c => UInt16.ofNat c.toNat := by decide
  rw [hname]
  exact ⟨latin1_inj, fun heq => by rw [heq]⟩

theorem param_ends (serverMajor : Int) (b : Bytes) :
    (∃ fuel, param fuel serverMajor b ≠ none) ↔ ¬StatusCut b := by
  constructor
  · rintro ⟨fuel, hends⟩ hcut
    apply hends
    rcases hcut with habsent | ⟨version, rfl, hno⟩
    · exact bind_eq_none.mpr (.inl (scan_absent fuel habsent))
    · have hdrop : (versionName ++ 0 :: version).drop 0 = versionName ++ 0 :: version := rfl
      rcases scan_append fuel hdrop (by decide) with hscan | hscan
      · exact bind_eq_none.mpr (.inl hscan)
      · refine bind_eq_none.mpr (.inr ⟨_, hscan, ?_⟩)
        have hname := (slice_name (b := versionName ++ 0 :: version) rfl).mpr rfl
        rw [Nat.zero_add, hname, if_neg (not_not.mpr rfl)]
        have hafter := (length_of_drop hdrop).2
        rw [Nat.zero_add] at hafter
        exact bind_eq_none.mpr (.inl (scan_absent fuel (hafter ▸ hno)))
  · intro hcut
    have hmem : 0 ∈ b := by_contra fun habsent => hcut (.inl habsent)
    obtain ⟨name, version, hb, hno⟩ := List.eq_append_cons_of_mem hmem
    have hdrop : b.drop 0 = name ++ 0 :: version := hb
    have hafter := (length_of_drop hdrop).2
    refine ⟨b.length + 1, ?_⟩
    unfold param
    rw [scan_present (Nat.lt_succ_self _) hdrop hno]
    show (if _ then _ else _) ≠ none
    rw [Nat.zero_add]
    by_cases hname : latin1Slice b 0 name.length = ascii "server_version"
    · rw [if_neg (not_not.mpr hname)]
      have hversion : 0 ∈ version := by_contra fun habsent =>
        hcut (.inr ⟨version, (slice_name hb).mp hname ▸ hb, habsent⟩)
      obtain ⟨v, rest, hv, hnov⟩ := List.eq_append_cons_of_mem hversion
      rw [Nat.zero_add] at hafter
      have hscan := scan_present (Nat.lt_succ_self _) (hafter.trans hv) hnov
      rw [hscan]
      nofun
    · rw [if_pos hname]
      nofun

theorem decodeRelation_ends (rt : Runtime) (b : Bytes) :
    (∃ fuel, decodeRelation rt fuel b ≠ none) ↔ ¬RelationCut b := by
  constructor
  · rintro ⟨fuel, hends⟩ ⟨hlen, hcut⟩
    obtain ⟨id, hid⟩ := (@readBE_ok 4 b 1).mpr hlen
    refine hends (lift_bind_eq_none.mpr ⟨id, hid, ?_⟩)
    rcases hcut with habsent | ⟨schema, rest, hschema, hno, hcut⟩
    · exact cstr_bind_absent fuel habsent _
    · apply cstr_bind_none hschema hno
      obtain ⟨-, hrest⟩ := length_of_drop hschema
      rcases hcut with habsent | ⟨table, fields, htable, hno', n, hn, hcut⟩
      · exact cstr_bind_absent fuel (by rwa [hrest]) _
      · apply cstr_bind_none (hrest.trans htable) hno'
        obtain ⟨hend, hfields⟩ := length_of_drop (hrest.trans htable)
        rw [← hfields, readBE_drop _ _ _ _ (by omega)] at hn
        rw [← hfields, List.drop_drop] at hcut
        refine lift_bind_eq_none.mpr ⟨n, hn, bind_eq_none.mpr (.inl ?_)⟩
        exact records_cut fuel (column_reads b) _ _ hcut
  · intro hcut
    refine ⟨b.length + 1, fun hnone => ?_⟩
    have hfuel := Nat.lt_succ_self b.length
    obtain ⟨id, hid, hnone⟩ := lift_bind_eq_none.mp hnone
    have hlen := readBE_ok.mp ⟨id, hid⟩
    have hmem : 0 ∈ b.drop 5 := by_contra fun habsent => hcut ⟨hlen, .inl habsent⟩
    obtain ⟨schema, rest, hschema, hno⟩ := List.eq_append_cons_of_mem hmem
    obtain ⟨-, hrest⟩ := length_of_drop hschema
    have hmem' : 0 ∈ rest := by_contra fun habsent =>
      hcut ⟨hlen, .inr ⟨schema, rest, hschema, hno, .inl habsent⟩⟩
    obtain ⟨table, fields, htable, hno'⟩ := List.eq_append_cons_of_mem hmem'
    obtain ⟨hend, hfields⟩ := length_of_drop (hrest.trans htable)
    rw [cstr_bind hfuel hschema hno] at hnone
    dsimp only at hnone
    rw [cstr_bind hfuel (hrest.trans htable) hno'] at hnone
    obtain ⟨n, hn, hnone⟩ := lift_bind_eq_none.mp hnone
    rcases bind_eq_none.mp hnone with hnone | ⟨_, -, hnone⟩
    · refine records_ends hfuel (column_reads b) _ _ (fun hcolumns => ?_) hnone
      refine hcut ⟨hlen, .inr ⟨schema, rest, hschema, hno, .inr ⟨table, fields, htable, hno', n,
        ?_, ?_⟩⟩⟩
      · rwa [← hfields, readBE_drop _ _ _ _ (by omega)]
      · rwa [← hfields, List.drop_drop]
    · cases hnone

theorem decodeMessage_ends (rt : Runtime) (b : Bytes) :
    (∃ fuel, decodeMessage rt fuel b ≠ none) ↔ ¬MessageCut b := by
  constructor
  · rintro ⟨fuel, hends⟩ ⟨hlen, habsent⟩
    obtain ⟨lsn, hlsn⟩ := (@readBE_ok 8 b 2).mpr hlen
    exact hends (lift_bind_eq_none.mpr ⟨lsn, hlsn, cstr_bind_absent fuel habsent _⟩)
  · intro hcut
    refine ⟨b.length + 1, fun hnone => ?_⟩
    obtain ⟨lsn, hlsn, hnone⟩ := lift_bind_eq_none.mp hnone
    have hlen := readBE_ok.mp ⟨lsn, hlsn⟩
    have hmem : 0 ∈ b.drop 10 := by_contra fun habsent => hcut ⟨hlen, habsent⟩
    obtain ⟨name, rest, hname, hno⟩ := List.eq_append_cons_of_mem hmem
    rw [cstr_bind (Nat.lt_succ_self _) hname hno] at hnone
    obtain ⟨_, -, hnone⟩ := lift_bind_eq_none.mp hnone
    cases hnone

open Descriptions (parseRowDescription RowCut rowDescription_ends)

/-- **A body is read in finitely many steps** exactly when no string that is read lacks its NUL. -/
theorem bodies_end_iff (rt : Runtime) (serverMajor : Int) (b : Bytes) :
    ((∃ fuel, parseRowDescription rt fuel b ≠ none) ↔ ¬RowCut b) ∧
    ((∃ fuel, param fuel serverMajor b ≠ none) ↔ ¬StatusCut b) ∧
    ((∃ fuel, decodeRelation rt fuel b ≠ none) ↔ ¬RelationCut b) ∧
    ((∃ fuel, decodeMessage rt fuel b ≠ none) ↔ ¬MessageCut b) :=
  ⟨rowDescription_ends rt b, param_ends serverMajor b, decodeRelation_ends rt b,
    decodeMessage_ends rt b⟩

/-- One field is announced, and its name is cut off. -/
def cutRow : Bytes := [0, 1, 97]

/-- A relation whose schema is cut off. -/
def cutRelation : Bytes := [0x52, 0, 0, 64, 0, 97]

open Plans (hexOnly)

/-- Three bodies that are read for ever. -/
theorem truncated_run_on :
    (∀ fuel, parseRowDescription hexOnly.env.rt fuel cutRow = none) ∧
    (∀ fuel, param fuel 0 versionName = none) ∧
    ∀ fuel, decodeRelation hexOnly.env.rt fuel cutRelation = none := by
  refine ⟨fun fuel => by_contra fun h => ?_, fun fuel => by_contra fun h => ?_,
    fun fuel => by_contra fun h => ?_⟩
  · exact (rowDescription_ends _ cutRow).mp ⟨fuel, h⟩ ⟨1, rfl, .inl (by decide)⟩
  · exact (param_ends 0 versionName).mp ⟨fuel, h⟩ (.inl (by decide))
  · exact (decodeRelation_ends _ cutRelation).mp ⟨fuel, h⟩ ⟨by decide, .inl (by decide)⟩

end Minipg.Messages
