import Minipg.Js.Percent
import Minipg.Js.Float
import Minipg.Lib.Leftmost

/-!
# Connection strings

`parseConnectionString` of `src/url.ts`.  What `new URL` makes of a string is a parameter: nothing,
or its components.
-/

namespace Minipg.Url

open Js

/-! ### Masking the password -/

/-- A character of `[^:/?#@\s]` -/
def isUserUnit (u : UInt16) : Bool := !([58, 47, 63, 35, 64].contains u) && !isBlankUnit u

/-- A character of `[^@/?#\s]` -/
def isPasswordUnit (u : UInt16) : Bool := !([64, 47, 63, 35].contains u) && !isBlankUnit u

/-- `$1***$2` and the rest, at a place where `/(:\/\/[^:/?#@\s]*:)[^@/?#\s]*(@)/` matches -/
def masked : JsString → Option JsString
  | 58 :: 47 :: 47 :: s =>
    match s.dropWhile isUserUnit with
    | 58 :: t =>
      match t.dropWhile isPasswordUnit with
      | 64 :: rest => some (ascii "://" ++ s.takeWhile isUserUnit ++ ascii ":***@" ++ rest)
      | _ => none
    | _ => none
  | _ => none

/-- Mask the password so that it does not get into messages. -/
def redactUrl (url : JsString) : JsString := Leftmost.replace masked url

/-! ### What it throws -/

def schemesText : JsString :=
  ascii " — it must start with \"postgres://\" or \"postgresql://\" (received: "

def notPostgresText (shown : JsString) : JsString :=
  ascii "minipg: invalid connection string" ++ schemesText ++ shown ++ ascii ")"

def malformedText (shown : JsString) : JsString :=
  ascii "minipg: could not parse connection string " ++ shown ++
    ascii " — check the host/port, and percent-encode any reserved characters in the " ++
    ascii "username/password (\"@\"→\"%40\", \":\"→\"%3A\", \"/\"→\"%2F\")"

def schemeText (protocol shown : JsString) : JsString :=
  ascii "minipg: unsupported connection string scheme \"" ++ protocol ++ ascii "\"" ++
    schemesText ++ shown ++ ascii ")"

def escapeText (what shown : JsString) : JsString :=
  ascii "minipg: the " ++ what ++ ascii " in connection string " ++ shown ++
    ascii " has an invalid percent-escape — write a literal \"%\" as \"%25\" and " ++
    ascii "percent-encode other reserved characters"

/-- What stands for a character of a JSON string. -/
def jsonUnit (u : UInt16) : JsString :=
  if isSurrogate u then
    ascii "\\u" ++ hex [UInt8.ofNat (u.toNat / 256), UInt8.ofNat (u.toNat % 256)]
  else if u = 34 ∨ u = 92 then [92, u]
  else if u = 8 then ascii "\\b"
  else if u = 9 then ascii "\\t"
  else if u = 10 then ascii "\\n"
  else if u = 12 then ascii "\\f"
  else if u = 13 then ascii "\\r"
  else if u.toNat < 32 then ascii "\\u00" ++ hex [UInt8.ofNat u.toNat]
  else [u]

def jsonUnits : JsString → JsString
  | u :: v :: s =>
    if isHigh u && isLow v then u :: v :: jsonUnits s else jsonUnit u ++ jsonUnits (v :: s)
  | [u] => jsonUnit u
  | [] => []

/-- `JSON.stringify` of a string. -/
def stringify (s : JsString) : JsString := 34 :: (jsonUnits s ++ [34])

def channelBindingText (value : JsString) : JsString :=
  ascii "minipg: invalid channel_binding value " ++ stringify value ++
    ascii " (expected `disable` | `prefer` | `require`)"

/-! ### Parsing -/

/-- The components that `new URL` returns. -/
structure URL where
  protocol : JsString
  username : JsString
  password : JsString
  hostname : JsString
  port : JsString
  pathname : JsString
  searchParams : List (JsString × JsString)

/-- `searchParams.get(name)`: the first of the name. -/
def URL.get (u : URL) (name : JsString) : Option JsString := u.searchParams.lookup name

inductive Ssl
  | off
  | require
  | verifyCa
  | verifyFull

/-- The fields of a `ConnectConfig` that a connection string sets. -/
structure ConnectConfig where
  user : Option JsString := none
  password : Option JsString := none
  path : Option JsString := none
  host : Option JsString := none
  port : Option Double := none
  database : Option JsString := none
  applicationName : Option JsString := none
  connectTimeout : Option Double := none
  options : Option JsString := none
  channelBinding : Option JsString := none
  ssl : Option Ssl := none

/-- A string that is there and is not empty. -/
def truthy : Option JsString → Option JsString
  | some [] => none
  | s => s

def decodePart (s what url : JsString) : Except JsString JsString :=
  match decodeURIComponent s with
  | some t => .ok t
  | none => .error (escapeText what (redactUrl url))

/-- Nothing is decoded where there is nothing. -/
def decodeSome (s what url : JsString) : Except JsString (Option JsString) :=
  if s = [] then .ok none else (decodePart s what url).map some

def lowerAscii (u : UInt16) : UInt16 := if 65 ≤ u.toNat ∧ u.toNat ≤ 90 then u + 32 else u

/-- `/^postgres(?:ql)?:\/\//i` -/
def hasScheme (s : JsString) : Bool :=
  (ascii "postgres://").isPrefixOf (s.map lowerAscii) ||
    (ascii "postgresql://").isPrefixOf (s.map lowerAscii)

/-- `s.replace(/^\[|\]$/g, '')` -/
def stripBrackets (s : JsString) : JsString :=
  let s := if s.head? = some 91 then s.tail else s
  if s.getLast? = some 93 then s.dropLast else s

/-- `s.replace(/^\//, '')` -/
def stripSlash (s : JsString) : JsString := if s.head? = some 47 then s.tail else s

def isStance (cb : JsString) : Bool :=
  [ascii "disable", ascii "prefer", ascii "require"].contains cb

def bindingOf (cb : Option JsString) : Except JsString (Option JsString) :=
  match truthy cb with
  | none => .ok none
  | some cb => if isStance cb then .ok (some cb) else .error (channelBindingText cb)

def sslOf (sslmode : JsString) : Ssl :=
  if sslmode = ascii "disable" then .off
  else if sslmode = ascii "verify-ca" then .verifyCa
  else if sslmode = ascii "verify-full" then .verifyFull
  else .require

/-- The socket, or the host if there is one. -/
def address (u : URL) : Option JsString × Option JsString :=
  match u.get (ascii "host") with
  | some (47 :: path) => (some (47 :: path), none)
  | _ => (none, if u.hostname = [] then none else some (stripBrackets u.hostname))

variable (number : JsString → Double)

/-- `parsed` is what `new URL(url)` gives, and `none` where it throws; `number` is `Number`. -/
def parseConnectionString (parsed : Option URL) (url : JsString) :
    Except JsString ConnectConfig := do
  let some u := parsed
    | throw (if hasScheme (trim url) then malformedText (redactUrl url)
        else notPostgresText (redactUrl url))
  if u.protocol ≠ ascii "postgres:" ∧ u.protocol ≠ ascii "postgresql:" then
    throw (schemeText u.protocol (redactUrl url))
  let user ← decodeSome u.username (ascii "username") url
  let password ← decodeSome u.password (ascii "password") url
  let (path, host) := address u
  let database ← decodeSome (stripSlash u.pathname) (ascii "database") url
  let channelBinding ← bindingOf (u.get (ascii "channel_binding"))
  let sslmode := (u.get (ascii "sslmode")).or (u.get (ascii "ssl"))
  return {
    user := user
    password := password
    path := path
    host := host
    port := if u.port = [] then none else some (number u.port)
    database := database
    applicationName := truthy (u.get (ascii "application_name"))
    connectTimeout := (truthy (u.get (ascii "connect_timeout"))).map fun ct =>
      (number ct).mul (.ofInt 1000)
    options := truthy (u.get (ascii "options"))
    channelBinding := channelBinding
    ssl := (truthy sslmode).map sslOf }

end Minipg.Url
