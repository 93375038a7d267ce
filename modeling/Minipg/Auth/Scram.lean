import Minipg.Js

/-!
# Authentication helpers

`src/auth.ts`: the MD5 password and the client of SCRAM-SHA-256.  Hashes, HMAC and PBKDF2 are a
`Crypto`, of which nothing is assumed.  `final` returns only where the server's signature is the one
that `continue` computed (`final_ok`), and where binding is required `scramForChannel` gives a client
of SCRAM-SHA-256-PLUS or throws (`scramForChannel_require`).
-/

namespace Minipg.Auth

open Js

inductive HashAlgo
  | sha224 | sha256 | sha384 | sha512
  deriving DecidableEq, Repr

/-- `node:crypto` and `Buffer`. -/
structure Crypto where
  md5 : List UInt8 → List UInt8
  hash : HashAlgo → List UInt8 → List UInt8
  hmac : List UInt8 → List UInt8 → List UInt8
  /-- `pbkdf2Sync(password, salt, iterations, 32, 'sha256')`. -/
  pbkdf2 : List UInt8 → List UInt8 → Nat → List UInt8
  /-- `s.normalize('NFKC')`. -/
  saslprep : JsString → JsString
  base64 : List UInt8 → JsString
  fromBase64 : JsString → List UInt8
  /-- `buf.toString('utf8')`. -/
  utf8Text : List UInt8 → JsString

variable (crypto : Crypto)

/-! ### MD5 -/

def md5hex (buf : List UInt8) : JsString := hex (crypto.md5 buf)

/-- `'md5' + md5( md5(password + user) + salt )`. -/
def md5Password (user password : JsString) (salt : List UInt8) : JsString :=
  let inner := md5hex crypto (utf8 password ++ utf8 user)
  ascii "md5" ++ md5hex crypto (utf8 inner ++ salt)

/-! ### SCRAM -/

inductive Mechanism
  | scramSha256
  | scramSha256Plus
  deriving DecidableEq, Repr

def Mechanism.name : Mechanism → JsString
  | .scramSha256 => ascii "SCRAM-SHA-256"
  | .scramSha256Plus => ascii "SCRAM-SHA-256-PLUS"

/-- The state of a client; `serverSignature` is null until `continue`. -/
structure Scram where
  mechanism : Mechanism
  password : JsString
  clientNonce : JsString
  gs2Header : JsString
  cAttr : JsString
  serverSignature : Option (List UInt8) := none
  deriving DecidableEq, Repr

namespace Scram

def clientFirstBare (s : Scram) : JsString := ascii "n=*,r=" ++ s.clientNonce

def clientFirst (s : Scram) : JsString := s.gs2Header ++ s.clientFirstBare

/-- The client as it was before `continue`. -/
def begun (s : Scram) : Scram := { s with serverSignature := none }

end Scram

/-- `scram(password, opts)`; `random` are the bytes of the nonce, `gs2` is 'n' or 'y'. -/
def scram (password : JsString) (cbData : Option (List UInt8)) (gs2 : String)
    (random : List UInt8) : Scram :=
  let gs2Header := match cbData with
    | some _ => ascii "p=tls-server-end-point,,"
    | none => ascii gs2 ++ ascii ",,"
  { mechanism := if cbData.isSome then .scramSha256Plus else .scramSha256
    password
    clientNonce := crypto.base64 random
    gs2Header
    cAttr := crypto.base64 (utf8 gs2Header ++ cbData.getD []) }

def isDigitUnit (u : UInt16) : Bool := 0x30 ≤ u.toNat && u.toNat ≤ 0x39

/-- `parseInt(s, 10)`; `none` is NaN. -/
def parseInt10 (s : JsString) : Option Int :=
  let rest := s.dropWhile isBlankUnit
  let (negative, rest) := match rest with
    | 0x2d :: r => (true, r)
    | 0x2b :: r => (false, r)
    | r => (false, r)
  match rest.takeWhile isDigitUnit with
  | [] => none
  | ds =>
    let n : Int := ds.foldl (fun n d => n * 10 + (d.toNat - 0x30 : Nat)) 0
    some (if negative then -n else n)

/-- The value of the last part that begins with this letter. -/
def attr (parts : List JsString) (k : UInt16) : Option JsString :=
  (parts.reverse.find? fun p => p.head? = some k).map (·.drop 2)

def xor (a b : List UInt8) : List UInt8 := a.zipIdx.map fun p => p.1 ^^^ b.getD p.2 0

/-- The message on the iteration count goes on with the count. -/
def «continue» (s : Scram) (serverFirst : JsString) : Except JsError (Scram × JsString) := do
  let attrs := attr (serverFirst.splitOn 0x2c)
  let nonce ← match attrs 0x72 with
    | some nonce => .ok nonce
    | none => .error .typeError
  if ¬s.clientNonce <+: nonce then throw (.error "SCRAM: server nonce mismatch")
  let iterations ← match (attrs 0x69).bind parseInt10 with
    | some n =>
      if 0 < n ∧ n ≤ 100000 then .ok n.toNat else .error (.error "SCRAM: bad iteration count")
    | none => .error (.error "SCRAM: bad iteration count")
  let salt ← match attrs 0x73 with
    | some saltB64 => .ok (crypto.fromBase64 saltB64)
    | none => .error .typeError
  let saltedPassword := crypto.pbkdf2 (utf8 (crypto.saslprep s.password)) salt iterations
  let clientKey := crypto.hmac saltedPassword (utf8 (ascii "Client Key"))
  let storedKey := crypto.hash .sha256 clientKey
  let clientFinalNoProof := ascii "c=" ++ s.cAttr ++ ascii ",r=" ++ nonce
  let authMessage :=
    s.clientFirstBare ++ ascii "," ++ serverFirst ++ ascii "," ++ clientFinalNoProof
  let clientProof := xor clientKey (crypto.hmac storedKey (utf8 authMessage))
  let serverSignature := crypto.hmac (crypto.hmac saltedPassword (utf8 (ascii "Server Key")))
    (utf8 authMessage)
  return ({ s with serverSignature := some serverSignature },
    clientFinalNoProof ++ ascii ",p=" ++ crypto.base64 clientProof)

def final (s : Scram) (serverFinal : JsString) : Except JsError Unit :=
  match (serverFinal.splitOn 0x2c).find? fun p => (ascii "v=").isPrefixOf p, s.serverSignature with
  | some part, some serverSignature =>
    if crypto.fromBase64 (part.drop 2) = serverSignature then .ok ()
    else .error (.error "SCRAM: server signature verification failed")
  | _, _ => .error (.error "SCRAM: missing server signature")

variable {crypto}

/-- **What is verified.** -/
theorem final_ok {s : Scram} {serverFinal : JsString} (h : final crypto s serverFinal = .ok ()) :
    ∃ part ∈ serverFinal.splitOn 0x2c, ascii "v=" <+: part ∧
      s.serverSignature = some (crypto.fromBase64 (part.drop 2)) := by
  unfold final at h
  split at h
  · next part serverSignature hpart hsig =>
    split at h
    · next heq =>
      refine ⟨part, List.mem_of_find?_eq_some hpart, ?_, by rw [hsig, heq]⟩
      exact List.isPrefixOf_iff_prefix.mp (List.find?_some hpart)
    · cases h
  · cases h

theorem continue_begun {s s' : Scram} {serverFirst m : JsString}
    (h : «continue» crypto s serverFirst = .ok (s', m)) : s'.begun = s.begun := by
  unfold «continue» at h
  simp only [bind, Except.bind, pure, Except.pure, throw, throwThe, MonadExceptOf.throw] at h
  repeat' split at h
  all_goals cases h
  rfl

/-! ### Channel binding -/

variable (crypto)

inductive Mode
  | disable | prefer | require
  deriving DecidableEq, Repr

/-- The hash of the certificate's own signature algorithm, but SHA-256 for MD5 and SHA-1. -/
def sigOidHash : List (List UInt8 × HashAlgo) :=
  [([0x2a, 0x86, 0x48, 0x86, 0xf7, 0x0d, 0x01, 0x01, 0x04], .sha256),
   ([0x2a, 0x86, 0x48, 0x86, 0xf7, 0x0d, 0x01, 0x01, 0x05], .sha256),
   ([0x2a, 0x86, 0x48, 0x86, 0xf7, 0x0d, 0x01, 0x01, 0x0b], .sha256),
   ([0x2a, 0x86, 0x48, 0x86, 0xf7, 0x0d, 0x01, 0x01, 0x0c], .sha384),
   ([0x2a, 0x86, 0x48, 0x86, 0xf7, 0x0d, 0x01, 0x01, 0x0d], .sha512),
   ([0x2a, 0x86, 0x48, 0x86, 0xf7, 0x0d, 0x01, 0x01, 0x0e], .sha224),
   ([0x2a, 0x86, 0x48, 0xce, 0x3d, 0x04, 0x01], .sha256),
   ([0x2a, 0x86, 0x48, 0xce, 0x3d, 0x04, 0x03, 0x02], .sha256),
   ([0x2a, 0x86, 0x48, 0xce, 0x3d, 0x04, 0x03, 0x03], .sha384),
   ([0x2a, 0x86, 0x48, 0xce, 0x3d, 0x04, 0x03, 0x04], .sha512)]

/-- The length, if all its bytes are there, and where the body begins. -/
def hdr (der : List UInt8) (o : Nat) : Option Nat × Nat :=
  let l := (der.getD (o + 1) 0).toNat
  if l < 0x80 then (some l, o + 2)
  else
    let n := l % 0x80
    let len := (List.range n).foldl
      (fun l i => l.bind fun l => der[o + 2 + i]?.map fun b => l * 256 + b.toNat) (some 0)
    (len, o + 2 + n)

/-- A length that is NaN leads to null everywhere below. -/
def tlsServerEndPoint (der : List UInt8) : Option (List UInt8) := do
  let outer := hdr der 0
  let tbs := hdr der outer.2
  let sig := hdr der (tbs.2 + (← tbs.1))
  if der[sig.2]? ≠ some 0x06 then none
  else
    let oid := hdr der sig.2
    let body := (der.drop oid.2).take (← oid.1)
    let algo ← (sigOidHash.find? fun e => e.1 = body).map (·.2)
    return crypto.hash algo der

/-- `parseSaslMechanisms(body)`: the names that end with a byte 0, up to an empty one. -/
def parseSaslMechanisms (body : List UInt8) : List JsString :=
  (((body.drop 4).splitOn 0).dropLast.takeWhile (· ≠ [])).map crypto.utf8Text

def noCertificate : String :=
  "minipg: channel_binding=require — this transport does not expose the server certificate, so " ++
  "tls-server-end-point cannot be computed. The built-in node TLS transport does; a custom " ++
  "`socket` must resolve to a stream carrying `getPeerX509Certificate()` or " ++
  "`getPeerCertificate(true)` with a `raw` DER. Use `channel_binding=prefer` to connect unbound."

def noEndPoint : String :=
  "minipg: channel_binding=require — cannot compute tls-server-end-point for this server " ++
  "certificate (unsupported signature algorithm, e.g. Ed25519/RSA-PSS). Use " ++
  "`channel_binding=prefer` to connect unbound."

def notOffered : String :=
  "minipg: channel_binding=require — the server did not offer SCRAM-SHA-256-PLUS. Use " ++
  "`channel_binding=prefer` to connect unbound."

def scramForChannel (password : JsString) (mechanisms : List JsString) (mode : Mode)
    (certDer : Option (List UInt8)) (random : List UInt8) : Except JsError Scram :=
  let plusOffered := Mechanism.scramSha256Plus.name ∈ mechanisms
  let cb := if mode ≠ .disable then certDer.bind (tlsServerEndPoint crypto) else none
  if mode = .require ∧ certDer = none then .error (.error noCertificate)
  else if mode = .require ∧ cb = none then .error (.error noEndPoint)
  else if mode = .require ∧ ¬plusOffered then .error (.error notOffered)
  else if cb.isSome ∧ plusOffered then .ok (scram crypto password cb "n" random)
  else .ok (scram crypto password none (if cb.isSome then "y" else "n") random)

variable {crypto}

theorem scramForChannel_begun {password : JsString} {mechanisms : List JsString} {mode : Mode}
    {certDer : Option (List UInt8)} {random : List UInt8} {s : Scram}
    (h : scramForChannel crypto password mechanisms mode certDer random = .ok s) : s.begun = s := by
  unfold scramForChannel at h
  dsimp only at h
  repeat' split at h
  all_goals cases h
  all_goals rfl

/-- **Binding that is required is there.** -/
theorem scramForChannel_require {password : JsString} {mechanisms : List JsString}
    {certDer : Option (List UInt8)} {random : List UInt8} {s : Scram}
    (h : scramForChannel crypto password mechanisms .require certDer random = .ok s) :
    s.mechanism = .scramSha256Plus := by
  unfold scramForChannel at h
  simp only [true_and, ne_eq, reduceCtorEq, not_false_eq_true, if_true] at h
  split at h
  · cases h
  split at h
  · cases h
  split at h
  · cases h
  · next hcb hplus =>
    have hcb : (certDer.bind (tlsServerEndPoint crypto)).isSome :=
      Option.isSome_iff_ne_none.mpr hcb
    rw [if_pos ⟨hcb, not_not.mp hplus⟩] at h
    cases h
    exact if_pos hcb

end Minipg.Auth
