import Minipg.Auth.Scram
import Minipg.Lib.Precedence

/-!
# Logging in

Both clients read messages of a server that may send anything: `Connection` (`src/connection.ts`) and
`ReplicationConnection` (`src/replication.ts`).  Only what decides about authentication is kept of
their state.  An event is a message or something else that ends or begins an attempt; the actions are
what the client did.
-/

namespace Minipg.Auth

open Js

structure LoginConfig where
  user : JsString
  password : JsString
  channelBinding : Option Mode
  /-- `reconnect.enabled`. -/
  reconnect : Bool

/-- `channelBinding ?? 'prefer'`. -/
def LoginConfig.mode (cfg : LoginConfig) : Mode := cfg.channelBinding.getD .prefer

/-- `cert` is what `peerCertDer` finds on the socket; nothing is written after `end`. -/
structure PeerSocket where
  cert : Option (List UInt8)
  ended : Bool := false
  deriving DecidableEq, Repr

/-- The messages of the client, by what writes them. -/
inductive Reply
  | password (s : JsString)
  | saslInitial (mechanism : Mechanism) (clientFirst : JsString)
  | saslResponse (clientFinal : JsString)
  deriving DecidableEq, Repr

inductive Act
  /-- A new attempt to connect. -/
  | attempt
  | sent (m : Reply)
  /-- `scramState` was set. -/
  | begun (s : Scram)
  /-- `final` returned. -/
  | verified (s : Scram) (serverFinal : JsString)
  | ready
  deriving DecidableEq, Repr

structure Client where
  connecting : Bool := false
  /-- The state is 'closed'. -/
  closed : Bool := false
  socket : Option PeerSocket := none
  scramState : Option Scram := none
  deriving DecidableEq, Repr

/-- `random` are the bytes that a handler draws. -/
inductive Event
  | establish
  | dialed (cert : Option (List UInt8))
  /-- A message of type R. -/
  | request (body random : List UInt8)
  | readyForQuery
  /-- The attempt fails: the time is up, the transport or the server refuses. -/
  | fail
  /-- The socket dies, or the handler of another message throws. -/
  | down
  /-- `end()`. -/
  | terminate
  /-- A loop that reconnects gives up. -/
  | close
  deriving DecidableEq, Repr

/-- `body.readInt32BE(0)`. -/
def requestCode : List UInt8 → Option Int
  | a :: b :: c :: d :: _ =>
    let n : Int := ((a.toNat * 256 + b.toNat) * 256 + c.toNat) * 256 + d.toNat
    some (n.bmod (2 ^ 32))
  | _ => none

/-- The state, what was done, and what was thrown. -/
abbrev Handled := Client × List Act × Option JsError

namespace Client

/-- `sock.write`, which throws where there is no socket. -/
def write (s : Client) (m : Reply) : Handled :=
  match s.socket with
  | none => (s, [], some .typeError)
  | some k => (s, if k.ended then [] else [.sent m], none)

def begin (s : Client) (scram : Scram) : Handled :=
  let written := { s with scramState := some scram }.write
    (.saslInitial scram.mechanism scram.clientFirst)
  (written.1, .begun scram :: written.2.1, written.2.2)

/-- SASLContinue. -/
def respond (crypto : Crypto) (s : Client) (body : List UInt8) : Handled :=
  match s.socket, s.scramState with
  | some _, some scram =>
    match «continue» crypto scram (crypto.utf8Text (body.drop 4)) with
    | .ok (scram', clientFinal) =>
      { s with scramState := some scram' }.write (.saslResponse clientFinal)
    | .error e => (s, [], some e)
  | _, _ => (s, [], some .typeError)

/-- SASLFinal. -/
def verify (crypto : Crypto) (s : Client) (body : List UInt8) : Handled :=
  match s.scramState with
  | some scram =>
    let serverFinal := crypto.utf8Text (body.drop 4)
    match final crypto scram serverFinal with
    | .ok () => (s, [.verified scram serverFinal], none)
    | .error e => (s, [], some e)
  | none => (s, [], some .typeError)

end Client

variable (crypto : Crypto) (cfg : LoginConfig)

def md5Reply (body : List UInt8) : Reply :=
  .password (md5Password crypto cfg.user cfg.password ((body.drop 4).take 4))

/-! ### `Connection` -/

namespace Connection

def failAttempt (s : Client) : Client :=
  if s.connecting then { s with connecting := false, socket := none } else s

def onSocketDown (s : Client) : Client :=
  if s.closed then s
  else if s.connecting then failAttempt s
  else { s with socket := none, closed := ¬cfg.reconnect }

/-- The names up to an empty one, the last of which need not end. -/
def readCstrings (buf : List UInt8) : List JsString :=
  ((buf.splitOn 0).takeWhile (· ≠ [])).map crypto.utf8Text

def auth (s : Client) (body random : List UInt8) : Handled :=
  match requestCode body with
  | none => (s, [], some .rangeError)
  | some 0 => (s, [], none)
  | some 3 => s.write (.password cfg.password)
  | some 5 => s.write (md5Reply crypto cfg body)
  | some 10 =>
    let mechs := readCstrings crypto (body.drop 4)
    if Mechanism.scramSha256.name ∉ mechs then (failAttempt s, [], none)
    else match scramForChannel crypto cfg.password mechs cfg.mode
        (s.socket.bind PeerSocket.cert) random with
      | .ok scram => s.begin scram
      | .error _ => (failAttempt s, [], none)
  | some 11 => s.respond crypto body
  | some 12 =>
    match s.verify crypto body with
    | (s', acts, none) => (s', acts, none)
    | (s', acts, some _) => (failAttempt s', acts, none)
  | some _ => (failAttempt s, [], none)

/-- What a handler throws takes the socket down. -/
def settle : Handled → Client × List Act
  | (s, acts, none) => (s, acts)
  | (s, acts, some _) => (onSocketDown cfg s, acts)

def step (s : Client) : Event → Client × List Act
  | .establish => ({ s with connecting := true, closed := false, scramState := none }, [.attempt])
  | .dialed cert => (if s.connecting then { s with socket := some { cert } } else s, [])
  | .request body random => settle cfg (auth crypto cfg s body random)
  | .readyForQuery =>
    if s.connecting then ({ s with connecting := false, closed := false }, [.ready]) else (s, [])
  | .fail => (failAttempt s, [])
  | .down => (onSocketDown cfg s, [])
  | .terminate =>
    (if s.closed then s
      else { s with connecting := false, closed := true,
                    socket := s.socket.map fun k => { k with ended := true } }, [])
  | .close => ({ s with closed := true }, [])

end Connection

/-! ### `ReplicationConnection` -/

namespace ReplicationConnection

def auth (s : Client) (body random : List UInt8) : Handled :=
  match requestCode body with
  | none => (s, [], some .rangeError)
  | some 0 => (s, [], none)
  | some 3 => s.write (.password cfg.password)
  | some 5 => s.write (md5Reply crypto cfg body)
  | some 10 =>
    match scramForChannel crypto cfg.password (parseSaslMechanisms crypto body) cfg.mode
        (s.socket.bind PeerSocket.cert) random with
    | .ok scram => s.begin scram
    | .error e => (s, [], some e)
  | some 11 => s.respond crypto body
  | some 12 => s.verify crypto body
  | some _ => (s, [], some (.error "unsupported authentication request"))

/-- What a handler throws ends the call of `connect`. -/
def settle : Handled → Client × List Act
  | (s, acts, none) => (s, acts)
  | (s, acts, some _) => ({ s with connecting := false }, acts)

/-- The loop of `connect` reads the messages; `scramState` stays from one call to the next. -/
def step (s : Client) : Event → Client × List Act
  | .establish => ({ s with connecting := true }, [.attempt])
  | .dialed cert => ({ s with socket := some { cert } }, [])
  | .request body random =>
    if s.connecting then settle (auth crypto cfg s body random) else (s, [])
  | .readyForQuery => if s.connecting then ({ s with connecting := false }, [.ready]) else (s, [])
  | .fail | .down => ({ s with connecting := false }, [])
  | .terminate => ({ s with socket := s.socket.map fun k => { k with ended := true } }, [])
  | .close => (s, [])

end ReplicationConnection

/-! ### Runs -/

inductive Driver
  | connection
  | replication
  deriving DecidableEq, Repr

def Driver.step : Driver → Client → Event → Client × List Act
  | .connection => Connection.step crypto cfg
  | .replication => ReplicationConnection.step crypto cfg

/-- The state of a client that has read these events. -/
def Driver.state (d : Driver) (es : List Event) : Client :=
  Precedence.after (d.step crypto cfg) {} es

/-- What it has done. -/
def Driver.trace (d : Driver) (es : List Event) : List Act :=
  Precedence.emitted (d.step crypto cfg) {} es

end Minipg.Auth
