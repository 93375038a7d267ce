import Minipg.Encode.Writer

/-!
# Parameters as text and as binary values

`encodeValueInto` writes a value as text, `binEncoderFor` as the binary value of its declared type
where it fits (`src/encode.ts`).  An encoder returns the format that it chose.
-/

namespace Minipg.Encode

open Js Writer

abbrev Oid := Nat

abbrev BinEnc := Value → Write Format

/-- A value of the element type, or a mismatch. -/
abbrev ElemEnc := Value → Write Unit

def nulMsg : String :=
  "parameter contains NUL byte (0x00), which PostgreSQL text values cannot represent"

def guardNul (s : JsString) : Write Unit :=
  if hasNul s then throw (.js (.error nulMsg)) else pure ()

/-! ### Text -/

/-- Two digits. -/
def p2 (n : Int) : Write Unit := do
  byte (48 + n / 10)
  byte (48 + n % 10)

def writeIso : Option Time → Write Unit
  | none => throw (.js .rangeError)
  | some t => do
    let d := utcOf t.ms
    if ¬(0 ≤ d.year ∧ d.year ≤ 9999) then asc (isoString t.ms)
    else
      byte (48 + d.year / 1000 % 10)
      byte (48 + d.year / 100 % 10)
      byte (48 + d.year / 10 % 10)
      byte (48 + d.year % 10)
      byte 45
      p2 d.month
      byte 45
      p2 d.date
      byte 84
      p2 d.hours
      byte 58
      p2 d.minutes
      byte 58
      p2 d.seconds
      byte 46
      byte (48 + d.ms / 100)
      byte (48 + d.ms / 10 % 10)
      byte (48 + d.ms % 10)
      byte 90

/-- `run` is `s.slice(start, i)`; a quote or backslash starts the next one. -/
def writeEscRun (run : JsString) : JsString → Write Unit
  | [] => if run ≠ [] then str run else pure ()
  | c :: rest =>
    if c = 0x22 ∨ c = 0x5c then do
      if run ≠ [] then str run
      byte 0x5c
      writeEscRun [c] rest
    else writeEscRun (run ++ [c]) rest

def writeEscQuoted (s : JsString) : Write Unit := writeEscRun [] s

/-- `JSON.stringify(v)` where a string is needed. -/
def stringified (js : Engine) (v : Value) : Write JsString :=
  match js.stringify v with
  | .ok (some s) => pure s
  | .ok none => throw (.js .typeError)
  | .error e => throw (.js e)

mutual

def writeElement (js : Engine) : Value → Write Unit
  | .undefined | .null => asc (ascii "NULL")
  | .array arr => do
    byte 0x7b
    writeElements js arr 0
    byte 0x7d
  | .number x => asc (js.string (.number x))
  | .bigint n => asc (js.string (.bigint n))
  | .boolean b => byte (if b then 0x74 else 0x66)
  | .date t => do
    byte 0x22
    writeIso t
    byte 0x22
  | .buffer b => do
    byte 0x22
    writeEscQuoted (ascii "\\x" ++ hex b)
    byte 0x22
  | .object id => do
    byte 0x22
    writeEscQuoted (← stringified js (.object id))
    byte 0x22
  | .string s => do
    byte 0x22
    writeEscQuoted s
    byte 0x22
  | .other id => do
    byte 0x22
    writeEscQuoted (js.string (.other id))
    byte 0x22

def writeElements (js : Engine) : List Value → Nat → Write Unit
  | [], _ => pure ()
  | v :: rest, i => do
    if i ≠ 0 then byte 0x2c
    writeElement js v
    writeElements js rest (i + 1)

end

def writeArrayBody (js : Engine) (arr : List Value) : Write Unit := do
  byte 0x7b
  writeElements js arr 0
  byte 0x7d

/-- A value after its length, which is written over at the end. -/
def lengthPatched (body : Write Unit) : Write Unit := do
  let lp ← mark
  int32 0
  let s ← mark
  body
  patch32 lp ((← mark) - s)

def arrayLiteralInto (js : Engine) (arr : List Value) : Write Unit :=
  lengthPatched (writeArrayBody js arr)

def encodeValueInto (js : Engine) : BinEnc
  | .undefined | .null => do
    int32 (-1)
    return .text
  | .buffer b => do
    lpBytes b
    return .binary
  | .number x =>
    match x.safeInteger? with
    | some n => do
      lpAsciiInt n
      return .text
    | none => do
      lpAsc (js.string (.number x))
      return .text
  | .string s => do
    guardNul s
    lpStr s
    return .text
  | .boolean b => do
    int32 1
    byte (if b then 0x74 else 0x66)
    return .text
  | .date t => do
    lengthPatched (writeIso t)
    return .text
  | .array arr => do
    arrayLiteralInto js arr
    return .text
  | .object id => do
    lpStr (← stringified js (.object id))
    return .text
  | .bigint n => do
    let s := js.string (.bigint n)
    guardNul s
    lpAsc s
    return .text
  | .other id => do
    let s := js.string (.other id)
    guardNul s
    lpStr s
    return .text

/-! ### Binary -/

def pgEpochMs : Int := 946684800000
def msSafe : Int := 9007199254740
def i64Min : Int := -9223372036854775808
def i64Max : Int := 9223372036854775807

/-- A number that is an integer between `lo` and `hi`. -/
def intIn (lo hi : Int) : Value → Option Int
  | .number x => x.integer?.filter fun n => ¬(n < lo) ∧ ¬(n > hi)
  | _ => none

/-- A timestamp, from a time value. -/
def writeMicros (t : Time) : Write Unit :=
  let ms := t.ms - pgEpochMs
  if -msSafe ≤ ms ∧ ms ≤ msSafe then lpI64 (ms * 1000) else lpI64Big (ms * 1000)

def elemEncoderFor : Oid → ElemEnc
  | 16 => fun
    | .boolean b => do
      int32 1
      byte (if b then 1 else 0)
    | _ => throw .mismatch
  | 21 => fun v =>
    match intIn (-32768) 32767 v with
    | some n => do
      int32 2
      int16 (n % 65536)
    | none => throw .mismatch
  | 23 => fun v =>
    match intIn (-2147483648) 2147483647 v with
    | some n => do
      int32 4
      int32 n
    | none => throw .mismatch
  | 20 => fun
    | .number x =>
      match x.safeInteger? with
      | some n => lpI64 n
      | none => throw .mismatch
    | .bigint n => if i64Min ≤ n ∧ n ≤ i64Max then lpI64Big n else throw .mismatch
    | _ => throw .mismatch
  | 701 => fun
    | .number x => lpF8 x
    | _ => throw .mismatch
  | 25 | 1043 => fun
    | .string s => if hasNul s then throw .mismatch else lpStr s
    | _ => throw .mismatch
  | 1114 | 1184 => fun
    | .date (some t) => writeMicros t
    | _ => throw .mismatch
  | _ => fun _ => throw .mismatch

/-- The elements of an array, NULL among them. -/
def writeArrayElems (elem : ElemEnc) : List Value → Write Unit
  | [] => pure ()
  | v :: rest => do
    if v.isNullish then int32 (-1) else elem v
    writeArrayElems elem rest

/-- The dimensions and the elements of a binary array. -/
def writeDims (elemOid : Oid) (arr : List Value) : Write Unit :=
  if arr.length = 0 then do
    int32 0
    int32 0
    int32 elemOid
  else do
    int32 1
    int32 (if arr.any Value.isNullish then 1 else 0)
    int32 elemOid
    int32 arr.length
    int32 1
    writeArrayElems (elemEncoderFor elemOid) arr

def writeArrayBinary (elemOid : Oid) (arr : List Value) : Write Unit := do
  let lenPos ← mark
  int32 0
  writeDims elemOid arr
  patch32 lenPos ((← mark) - lenPos - 4)

def arrayEnc (js : Engine) (elemOid : Oid) : BinEnc
  | .array arr => do
    let start ← mark
    tryCatch
      (do
        writeArrayBinary elemOid arr
        return .binary)
      fun
        | .mismatch => do
          rewind start
          arrayLiteralInto js arr
          return .text
        | e => throw e
  | v => encodeValueInto js v

/-- `ELEM_OID`: the element type of an array type. -/
def elemOid : Oid → Option Oid
  | 1000 => some 16 | 1005 => some 21 | 1007 => some 23 | 1028 => some 26 | 1016 => some 20
  | 1021 => some 700 | 1022 => some 701 | 1231 => some 1700 | 791 => some 790 | 1009 => some 25
  | 1015 => some 1043 | 1014 => some 1042 | 1002 => some 18 | 1003 => some 19 | 199 => some 114
  | 3807 => some 3802 | 1001 => some 17 | 2951 => some 2950 | 1182 => some 1082
  | 1183 => some 1083 | 1115 => some 1114 | 1185 => some 1184 | 1187 => some 1186
  | 629 => some 628 | 1017 => some 600
  | _ => none

def binEncoderFor (js : Engine) : Oid → Option BinEnc
  | 16 => some fun
    | .boolean b => do
      int32 1
      byte (if b then 1 else 0)
      return .binary
    | v => encodeValueInto js v
  | 21 => some fun v =>
    match intIn (-32768) 32767 v with
    | some n => do
      int32 2
      int16 (n % 65536)
      return .binary
    | none => encodeValueInto js v
  | 23 => some fun v =>
    match intIn (-2147483648) 2147483647 v with
    | some n => do
      int32 4
      int32 n
      return .binary
    | none => encodeValueInto js v
  | 20 => some fun
    | .number x =>
      match x.safeInteger? with
      | some n => do
        lpI64 n
        return .binary
      | none => encodeValueInto js (.number x)
    | .bigint n =>
      if i64Min ≤ n ∧ n ≤ i64Max then do
        lpI64Big n
        return .binary
      else encodeValueInto js (.bigint n)
    | v => encodeValueInto js v
  | 701 => some fun
    | .number x => do
      lpF8 x
      return .binary
    | v => encodeValueInto js v
  | 1114 | 1184 => some fun
    | .date (some t) => do
      writeMicros t
      return .binary
    | v => encodeValueInto js v
  | 114 | 3802 => some fun
    | .string s => do
      lpStr s
      return .text
    | v => do
      lpStr (← stringified js v)
      return .text
  | oid => (elemOid oid).map (arrayEnc js)

/-- The encoder of a parameter of a type, binary or text. -/
def compileParamPlan (js : Engine) (oids : List Oid) : Option ParamsEncoder :=
  let encs := oids.map (binEncoderFor js)
  if encs.any Option.isSome then
    some fun v i =>
      match encs[i]? with
      | some (some e) => e v
      | _ => encodeValueInto js v
  else none

end Minipg.Encode
