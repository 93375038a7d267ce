import Mathlib.Algebra.GroupWithZero.Nat
import Minipg.Js.Percent
import Minipg.Lib.Delimited

/-!
# Signing a request

`signV4` and `signRequest` of `src/sigv4.ts`, with the hash and the HMAC abstract.  `Aws` is what
the definition of Signature Version 4 says the canonical request is: names and values in the
percent-encoding of RFC 3986, sorted by name and then by value; the names of the headers in lower
case and sorted, the words of their values one space apart, and the values of one name joined by
commas.

Both are `none` where the query has no names and values: a broken escape, or no UTF-8 form.
-/

namespace Minipg.Sigv4

open Js Delimited

abbrev Bytes := List UInt8

/-- A `Record<string, string>`, in the order of its keys. -/
structure Headers where
  entries : List (JsString × JsString)
  nodup : (entries.map Prod.fst).Nodup

structure AwsCredentials where
  accessKeyId : JsString
  secretAccessKey : JsString
  sessionToken : Option JsString

structure SigV4Input where
  method : JsString
  path : JsString
  query : Option JsString
  headers : Headers
  body : JsString
  service : JsString
  region : JsString
  credentials : AwsCredentials
  amzDate : JsString

/-- What is not spelt out: SHA-256, HMAC and the lower case of a text. -/
structure Env where
  digest : Bytes → Bytes
  hmac : Bytes → Bytes → Bytes
  toLowerCase : JsString → JsString

def Env.sha256Hex (env : Env) (data : JsString) : JsString := hex (env.digest (utf8 data))

def Env.signingKey (env : Env) (secret date region service : JsString) : Bytes :=
  let k := env.hmac (utf8 (ascii "AWS4" ++ secret)) (utf8 date)
  let k := env.hmac k (utf8 region)
  let k := env.hmac k (utf8 service)
  env.hmac k (utf8 (ascii "aws4_request"))

/-- `lines.join('\n')` -/
def joinLines (lines : List JsString) : JsString := join 10 lines

/-! ### `signV4` -/

/-- `lc[k] = v` of a plain object, of which `__proto__` is no own property. -/
def assign (lc : List (JsString × JsString)) (k v : JsString) : List (JsString × JsString) :=
  if k = ascii "__proto__" then lc
  else if k ∈ lc.map Prod.fst then lc.map fun p => if p.1 = k then (k, v) else p
  else lc ++ [(k, v)]

def lookup (lc : List (JsString × JsString)) (k : JsString) : JsString :=
  ((lc.find? fun p => p.1 = k).map Prod.snd).getD []

/-- `replace(/\s+/g, ' ')`; whether the blanks before it have been replaced. -/
def collapse : Bool → JsString → JsString
  | _, [] => []
  | isReplaced, u :: s =>
    if isBlankUnit u then if isReplaced then collapse true s else 32 :: collapse true s
    else u :: collapse false s

def sortNames (names : List JsString) : List JsString := names.mergeSort fun a b => a ≤ b

def lowerCased (env : Env) (headers : Headers) : List (JsString × JsString) :=
  headers.entries.foldl (fun lc p => assign lc (env.toLowerCase p.1) p.2) []

def canonicalHeaders (lc : List (JsString × JsString)) (names : List JsString) : JsString :=
  names.flatMap fun n => n ++ [58] ++ collapse false (trim (lookup lc n)) ++ [10]

def signedHeaders (names : List JsString) : JsString := join 59 names

/-- What is before the first `=`, and what is after it. -/
def cut (p : JsString) : JsString × JsString :=
  (p.takeWhile (· ≠ 61), (p.dropWhile (· ≠ 61)).tail)

/-- `k=v&…` -/
def joinPairs (pairs : List (JsString × JsString)) : JsString :=
  join 38 (pairs.map fun p => p.1 ++ 61 :: p.2)

def byName (a b : JsString × JsString) : Bool := a.1 ≤ b.1

/-- The two parts of `k=v`, decoded and encoded again. -/
def recode (p : JsString) : Option (JsString × JsString) := do
  let k ← encodeURIComponent (← decodeURIComponent (cut p).1)
  let v ← encodeURIComponent (← decodeURIComponent (cut p).2)
  return (k, v)

def canonicalQuery (query : Option JsString) : Option JsString :=
  if query.getD [] = [] then some []
  else do
    let pairs ← ((query.getD []).splitOn 38).mapM recode
    return joinPairs (pairs.mergeSort byName)

/-- What `signV4` computes on its way to the header. -/
structure Signed where
  canonicalRequest : JsString
  canonicalHash : JsString
  stringToSign : JsString
  signature : JsString
  authorization : JsString
  signedHeaders : JsString

def signV4 (env : Env) (i : SigV4Input) : Option Signed := do
  let date := i.amzDate.take 8
  let payloadHash := env.sha256Hex i.body
  let lc := lowerCased env i.headers
  let names := sortNames (lc.map Prod.fst)
  let query ← canonicalQuery i.query
  let canonicalRequest := joinLines
    [i.method, if i.path = [] then ascii "/" else i.path, query, canonicalHeaders lc names,
      signedHeaders names, payloadHash]
  let canonicalHash := env.sha256Hex canonicalRequest
  let scope := join 47 [date, i.region, i.service, ascii "aws4_request"]
  let stringToSign := joinLines [ascii "AWS4-HMAC-SHA256", i.amzDate, scope, canonicalHash]
  let key := env.signingKey i.credentials.secretAccessKey date i.region i.service
  let signature := hex (env.hmac key (utf8 stringToSign))
  return {
    canonicalRequest := canonicalRequest
    canonicalHash := canonicalHash
    stringToSign := stringToSign
    signature := signature
    authorization := ascii "AWS4-HMAC-SHA256 Credential=" ++ i.credentials.accessKeyId ++ [47] ++
      scope ++ ascii ", SignedHeaders=" ++ signedHeaders names ++ ascii ", Signature=" ++ signature
    signedHeaders := signedHeaders names }

/-! ### The definition of AWS -/

namespace Aws

/-- The name and the value that `k=v` stands for. -/
def parameter (p : JsString) : Option (JsString × JsString) := do
  let k ← decodeURIComponent (cut p).1
  let v ← decodeURIComponent (cut p).2
  return (k, v)

/-- The names and values of a query. -/
def parameters (query : Option JsString) : Option (List (JsString × JsString)) :=
  if query.getD [] = [] then some [] else ((query.getD []).splitOn 38).mapM parameter

def encodeParameter (p : JsString × JsString) : Option (JsString × JsString) := do
  let k ← rfc3986 p.1
  let v ← rfc3986 p.2
  return (k, v)

/-- By name, and then by value. -/
def byNameAndValue (a b : JsString × JsString) : Bool := a.1 < b.1 ∨ a.1 = b.1 ∧ a.2 ≤ b.2

def canonicalQuery (query : Option JsString) : Option JsString := do
  let pairs ← (← parameters query).mapM encodeParameter
  return joinPairs (pairs.mergeSort byNameAndValue)

/-- The words of a text, which blanks separate. -/
def words : JsString → List JsString
  | [] => []
  | [u] => if isBlankUnit u then [] else [[u]]
  | u :: v :: s =>
    if isBlankUnit u then words (v :: s)
    else if isBlankUnit v then [u] :: words (v :: s)
    else match words (v :: s) with
      | w :: ws => (u :: w) :: ws
      | [] => [[u]]

def trimAll (value : JsString) : JsString := join 32 (words value)

/-- A value that a name has already is followed by a comma. -/
def combine (hs : List (JsString × JsString)) (name value : JsString) :
    List (JsString × JsString) :=
  if name ∈ hs.map Prod.fst then
    hs.map fun p => if p.1 = name then (name, p.2 ++ 44 :: value) else p
  else hs ++ [(name, value)]

def combined (env : Env) (headers : Headers) : List (JsString × JsString) :=
  headers.entries.foldl (fun hs p => combine hs (env.toLowerCase p.1) (trimAll p.2)) []

def canonicalRequest (env : Env) (i : SigV4Input) : Option JsString := do
  let hs := combined env i.headers
  let names := sortNames (hs.map Prod.fst)
  let query ← canonicalQuery i.query
  return joinLines
    [i.method, if i.path = [] then ascii "/" else i.path, query,
      names.flatMap fun n => n ++ [58] ++ lookup hs n ++ [10],
      join 59 names, env.sha256Hex i.body]

end Aws

/-! ### `signRequest` -/

/-- The part of a `URL` that is signed; `search` begins with `?` unless it is empty. -/
structure Url where
  host : JsString
  pathname : JsString
  search : JsString

structure SignRequestInput where
  method : JsString
  url : Url
  body : JsString
  service : JsString
  region : JsString
  credentials : AwsCredentials
  headers : Headers
  amzDate : JsString

/-- One more property of an object literal. -/
def Headers.set (h : Headers) (k v : JsString) : Headers where
  entries :=
    if k ∈ h.entries.map Prod.fst then h.entries.map fun p => if p.1 = k then (k, v) else p
    else h.entries ++ [(k, v)]
  nodup := by
    split
    next =>
      have hkeys : (h.entries.map fun p => if p.1 = k then (k, v) else p).map Prod.fst =
          h.entries.map Prod.fst := by
        rw [List.map_map]
        refine List.map_congr_left fun p _ => ?_
        by_cases hp : p.1 = k
        · simp [hp]
        · simp [hp]
      rw [hkeys]
      exact h.nodup
    next hk =>
      rw [List.map_append]
      refine List.nodup_append.mpr ⟨h.nodup, by simp, ?_⟩
      rintro a ha b hb rfl
      obtain rfl : a = k := List.mem_singleton.mp hb
      exact hk ha

/-- The input of `signV4`. -/
def SignRequestInput.toSign (env : Env) (i : SignRequestInput) : SigV4Input :=
  let headers := ((i.headers.set (ascii "host") i.url.host).set (ascii "x-amz-date") i.amzDate).set
    (ascii "x-amz-content-sha256") (env.sha256Hex i.body)
  { method := i.method
    path := i.url.pathname
    query := some (if i.url.search.head? = some 63 then i.url.search.tail else i.url.search)
    headers := match i.credentials.sessionToken with
      | some token =>
        if token = [] then headers else headers.set (ascii "x-amz-security-token") token
      | none => headers
    body := i.body
    service := i.service
    region := i.region
    credentials := i.credentials
    amzDate := i.amzDate }

end Minipg.Sigv4
