import Mathlib.Algebra.GroupWithZero.Nat
import Mathlib.Algebra.Group.Int.Defs
import Mathlib.Algebra.Group.Nat.Defs
import Mathlib.Data.List.Infix

/-!
# Messages of the wire protocol

The messages `src/protocol.ts` writes to a backend and the ones `Connection.handle`
reads from it.  A `Frame` is one frontend message: the writer appends whole frames and
rewinds to a mark between two of them, so the outgoing buffer is a list of frames and
`Frame.size` is the number of bytes a frame takes (type byte, four length bytes,
payload).  A `Packet` is a frame together with where it came from, which the wire does
not carry: the connection never reads it, and the statements about the wire do.

A `BackendMsg` is one message of a socket chunk, already cut out by the parser.  The
body of a `BackendKeyData`, a `ParameterDescription` or a `RowDescription` may be too
short to read; the reader then throws, and `none` stands for such a body.
-/

namespace Minipg

abbrev Bytes := List UInt8
abbrev Oid := Nat
/-- A task is an object that the queue, the pipeline and the cancel records share; the
model names it by the order of submission. -/
abbrev TaskId := Nat
abbrev SocketId := Nat
abbrev PumpId := Nat

/-- What a thrown or rejected value carries: `isPg` for a `PgError`, the SQLSTATE (or
another `code`), the message, and the mark and hint of a late cancel. -/
structure JsError where
  isPg : Bool := false
  code : Option String := none
  message : String := ""
  isLateCancel : Bool := false
  hint : Option String := none
  deriving DecidableEq, Repr

/-- A `PgError` with this SQLSTATE. -/
def pgError (code : String) : JsError := { isPg := true, code := some code }

/-- A plain `Error` with this message. -/
def jsError (message : String) : JsError := { message := message }

/-- The part of a field descriptor that the connection reads. -/
structure Field where
  name : String
  dataTypeOid : Oid
  deriving DecidableEq, Repr

/-- The text a Parse must not contain: `guardNul`. -/
def hasNul (s : String) : Bool := s.toList.contains '\x00'

/-- The error of `guardNul(sql, 'query text')`. -/
def nulError : JsError := jsError "query text contains NUL byte (0x00)"

/-! ### Frontend -/

inductive Frame
  | parse (name sql : String) (paramOids : List Oid)
  | describe (name : String)
  | bind (name : String) (params : Bytes) (resultFormat : List Nat)
  | execute
  | close (name : String)
  | sync
  | query (sql : String)
  | copyData (payload : Bytes)
  | copyDone
  | copyFail (reason : String)
  | terminate
  | startup
  | password
  deriving DecidableEq, Repr

/-- Bytes of a C string: its UTF-8 bytes and the terminator. -/
def cstrSize (s : String) : Nat := s.utf8ByteSize + 1

/-- Bytes a frame takes in the buffer.  The startup packet and the password messages go
straight to the socket, so their size is never asked for. -/
def Frame.size : Frame → Nat
  | .parse name sql oids => 5 + cstrSize name + cstrSize sql + 2 + 4 * oids.length
  | .describe name => 5 + 1 + cstrSize name
  | .bind name params rf => 5 + cstrSize "" + cstrSize name + params.length + 2 + 2 * rf.length
  | .execute => 5 + cstrSize "" + 4
  | .close name => 5 + 1 + cstrSize name
  | .sync => 5
  | .query sql => 5 + cstrSize sql
  | .copyData payload => 5 + payload.length
  | .copyDone => 5
  | .copyFail reason => 5 + cstrSize reason
  | .terminate => 5
  | .startup => 0
  | .password => 0

/-- Where a frame came from: `startTask` of a task, a `pumpCopy` of a task, the abort that
answers a CopyInResponse or a CopyBothResponse while that task is current, or the
connection itself. -/
inductive Origin
  | start (t : TaskId)
  | pump (t : TaskId)
  | abort (t : Option TaskId)
  | link
  deriving DecidableEq, Repr

structure Packet where
  origin : Origin
  frame : Frame
  deriving DecidableEq, Repr

/-- `Writer.mark()`: the length of the batch in bytes. -/
def byteLength (ps : List Packet) : Nat := (ps.map fun p => p.frame.size).sum

@[simp] theorem byteLength_nil : byteLength [] = 0 := rfl

/-! ### Backend -/

/-- What an authentication request makes the connection do: nothing, answer with a password
message, or give the attempt up. -/
inductive AuthRequest
  | ok
  | respond
  | refuse (e : JsError)
  deriving DecidableEq, Repr

/-- The key a CancelRequest has to name. -/
structure BackendKey where
  pid : Int
  secret : Int
  deriving DecidableEq, Repr

inductive BackendMsg
  | authentication (r : AuthRequest)
  | parameterStatus
  | backendKeyData (key : Option BackendKey)
  | readyForQuery (status : Option Char)
  | copyInResponse
  | copyBothResponse
  | copyOutResponse
  | copyData (payload : Bytes)
  | copyDone
  | parameterDescription (oids : Option (List Oid))
  | rowDescription (fields : Option (List Field))
  | noData
  | dataRow (body : Bytes)
  | commandComplete (tag : String)
  | emptyQuery
  | errorResponse (e : JsError)
  | noticeResponse
  | notificationResponse
  | parseComplete
  | bindComplete
  | closeComplete
  | portalSuspended
  deriving DecidableEq, Repr

/-- The messages a `mode: 'wire'` task keeps: T, D, C, E and I. -/
def BackendMsg.isWire : BackendMsg → Bool
  | .rowDescription _ | .dataRow _ | .commandComplete _ | .errorResponse _ | .emptyQuery => true
  | _ => false

/-- `tag.split(' ')[0]`. -/
def commandWord (tag : String) : String := String.ofList (tag.toList.takeWhile (· ≠ ' '))

/-- The digits of `/(\d+)\s*$/`, read as a number. -/
def commandCount (tag : String) : Option Nat :=
  let digits := ((tag.toList.reverse.dropWhile Char.isWhitespace).takeWhile Char.isDigit).reverse
  if digits.isEmpty then none
  else some (digits.foldl (fun n d => 10 * n + (d.toNat - '0'.toNat)) 0)

example : commandWord "INSERT 0 12" = "INSERT" ∧ commandCount "INSERT 0 12" = some 12 := by decide

end Minipg
