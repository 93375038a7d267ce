import Minipg.Connection.State

/-!
# Serializing a task

`startTask` writes the messages of one task into the outgoing batch.  On the way it reads
and updates the three records about named statements: `prepared` (the server has
described the statement), `staleStatements` (the name must be closed before the next
Parse) and `parseInflight` (a Parse has been written and not been described yet).

A step that can throw returns the state it has reached together with the error, if any:
the assignments made before a throw stay made.
-/

namespace Minipg

/-- The state a piece of code has reached, and the error it threw there. -/
abbrev Attempted := Conn × Option JsError

/-- Run the next piece of code unless the one before threw. -/
def Attempted.andThen (r : Attempted) (f : Conn → Attempted) : Attempted :=
  match r with
  | (c, none) => f c
  | (c, some e) => (c, some e)

@[simp] theorem Attempted.andThen_ok (c : Conn) (f : Conn → Attempted) :
    Attempted.andThen (c, none) f = f c := rfl

@[simp] theorem Attempted.andThen_error (c : Conn) (e : JsError) (f : Conn → Attempted) :
    Attempted.andThen (c, some e) f = (c, some e) := rfl

def paramsError : JsError :=
  jsError "minipg: params must be an array — pass options as the THIRD argument: query(sql, [], opts)"

def tooManyParamsError (n : Nat) : JsError :=
  jsError ("too many bind parameters: " ++ toString n ++ " (max 65535)")

/-! ### Row mappers -/

/-- `getMapper`: only array and object rows have a mapper. -/
def getMapper (cfg : Config) (cols : List CodegenCol) (mode : ResultMode) :
    Except JsError (Option RowMapper) :=
  if mode = .array ∨ mode = .object then
    let m : RowMapper := ⟨cfg.resolveCols cols, mode⟩
    match cfg.mapperError m with
    | some e => .error e
    | none => .ok (some m)
  else .ok none

namespace Conn

def assignMapper (cfg : Config) (c : Conn) (t : TaskId) (cols : List CodegenCol) : Attempted :=
  match getMapper cfg cols (c.tasks t).mode with
  | .ok m => (c.modTask t fun k => { k with mapper := m }, none)
  | .error e => (c, some e)

/-! ### Named statements -/

/-- Append frames of a task to the batch. -/
def write (c : Conn) (t : TaskId) (fs : List Frame) : Conn :=
  { c with outbuf := c.outbuf ++ fs.map (Packet.mk (.start t)) }

def dropPrepared (c : Conn) (n : String) : Conn :=
  { c with prepared := Function.update c.prepared n none }

def setStale (c : Conn) (n : String) (b : Bool) : Conn :=
  { c with staleStatements := Function.update c.staleStatements n b }

def setParseInflight (c : Conn) (n : String) (key : Option String) : Conn :=
  { c with parseInflight := Function.update c.parseInflight n key }

/-- The cached entry this execution reuses: same name, same SQL. -/
def reusable (c : Conn) (k : Task) : Option PreparedEntry :=
  k.name.bind fun n => (c.prepared n).filter fun e => e.sql = k.sql

/-- Same name, different SQL: deallocate, to Parse again. -/
def closeRepointed (c : Conn) (t : TaskId) (n : String) : Conn :=
  if (c.prepared n).isSome then (c.write t [.close n]).dropPrepared n else c

/-- A name invalidated by an error still may exist on the server: deallocate it. -/
def closeStale (c : Conn) (t : TaskId) (n : String) : Conn :=
  if c.staleStatements n then (c.write t [.close n]).setStale n false else c

/-- Same name, different SQL or types still in flight. -/
def closeSuperseded (c : Conn) (t : TaskId) (n : String) : Conn :=
  if (c.parseInflight n).isSome then (c.write t [.close n]).setParseInflight n none else c

/-- The branch `if (reuse)`: no Parse and no Describe, the row mapper comes from the cached
fields, and plain rows ask for binary where that is known to be safe. -/
def reuseStatement (cfg : Config) (c : Conn) (t : TaskId) (e : PreparedEntry) : Attempted :=
  let k := c.tasks t
  let text := e.fields.map fun f => ({ name := f.name, oid := f.dataTypeOid } : CodegenCol)
  let c := c.modTask t fun k => { k with fields := some e.fields }
  if k.typed then
    match k.shapeCols, k.mapper with
    | some cols, none => c.assignMapper cfg t (cfg.mergeUnknownCols cols e.fields)
    | _, _ => (c, none)
  else if k.binary then
    c.assignMapper cfg t (text.map fun col => { col with binary := true })
  else if k.mode = .array ∨ k.mode = .object then
    let cols := cfg.resolveCols (text.map fun col => { col with binary := cfg.reuseBinaryOids col.oid })
    (c.assignMapper cfg t cols).andThen fun c =>
      (c.modTask t fun k =>
        { k with resultFormat := some (cols.map fun col => if col.binary then 1 else 0) }, none)
  else c.assignMapper cfg t text

/-- Parse (unless it is queued ahead in this pipeline already) and Describe. -/
def openStatement (c : Conn) (t : TaskId) : Attempted :=
  let k := c.tasks t
  match k.name with
  | none =>
    if hasNul k.sql then (c, some nulError)
    else (c.write t [.parse "" k.sql (k.paramTypes.getD []), .describe ""], none)
  | some n =>
    let c := c.closeStale t n
    if c.parseInflight n = some (parseKey k.toRequest) then
      ((c.write t [.describe n]).modTask t fun k => { k with cacheName := some n }, none)
    else
      let c := c.closeSuperseded t n
      if hasNul k.sql then (c, some nulError)
      else
        ((c.write t [.parse n k.sql (k.paramTypes.getD []), .describe n]).modTask t
          fun k => { k with cacheName := some n }, none)

/-! ### Parameters -/

/-- `compileParamPlan`: the plan of a list of types, unless nothing in it is binary-able. -/
def compileParamPlan (cfg : Config) (oids : List Oid) : Option (List Oid) :=
  if cfg.hasParamPlan oids then some oids else none

/-- The plan the parameters are encoded by.  On reuse the types the server reported win, and
their plan is compiled into the cached entry the first time. -/
def paramPlan (cfg : Config) (c : Conn) (k : Task) (entry : Option PreparedEntry) :
    Conn × Option (List Oid) :=
  if cfg.binaryParams && k.raw.isNone then
    match entry, entry.bind (·.paramOids) with
    | some e, some oids =>
      match e.plan with
      | some plan => (c, plan)
      | none =>
        let plan := compileParamPlan cfg oids
        let e := { e with plan := some plan }
        ({ c with prepared := Function.update c.prepared (k.name.getD "") (some e) }, plan)
    | _, _ => (c, k.paramTypes.bind (compileParamPlan cfg))
  else (c, none)

/-- The encoder of the parameters: a compiled one where the plan and its length allow it. -/
def bindEncoder (cfg : Config) (k : Task) (plan : Option (List Oid)) : ParamsEncoder :=
  match plan with
  | none => .text
  | some oids =>
    if cfg.jitEncode && k.params.length == oids.length && cfg.jitCompiles oids then .jit oids
    else .plan oids

/-- What the parameters of a Bind are written as.  A compiled encoder has its own limit, and
throws while it is compiled. -/
def bindParams (cfg : Config) (k : Task) (plan : Option (List Oid)) : Except JsError Bytes :=
  match k.raw with
  | some raw => if 65535 < raw.length then .error (tooManyParamsError raw.length) else .ok raw.bytes
  | none =>
    let enc := bindEncoder cfg k plan
    if !enc.isCompiled && decide (65535 < k.params.length) then
      .error (tooManyParamsError k.params.length)
    else k.params.encode enc

/-- Bind, Execute and Sync. -/
def writeBind (cfg : Config) (c : Conn) (t : TaskId) (entry : Option PreparedEntry) : Attempted :=
  let k := c.tasks t
  let r := c.paramPlan cfg k entry
  match bindParams cfg k r.2 with
  | .error e => (r.1, some e)
  | .ok bytes =>
    (r.1.write t [.bind (k.name.getD "") bytes (k.resultFormat.getD [0]), .execute, .sync], none)

/-! ### The whole task -/

/-- A Parse is recorded once the whole task has been serialized. -/
def markParse (c : Conn) (parsed : Option String) (key : String) : Conn :=
  match parsed with
  | none => c
  | some n => c.setParseInflight n (some key)

/-- The body of the `try` in `startTask`. -/
def serialize (cfg : Config) (c : Conn) (t : TaskId) : Attempted :=
  let k := c.tasks t
  if k.copySource || k.copyOut then
    if hasNul k.sql then (c, some nulError) else (c.write t [.query k.sql], none)
  else if !k.params.isArray then (c, some paramsError)
  else
    match c.reusable k with
    | some e => (c.reuseStatement cfg t e).andThen fun c => c.writeBind cfg t (some e)
    | none =>
      let parsed := k.name.filter fun n => c.parseInflight n ≠ some (parseKey k.toRequest)
      let c := match k.name with
        | some n => c.closeRepointed t n
        | none => c
      ((c.openStatement t).andThen fun c => c.writeBind cfg t none).andThen fun c =>
        (c.markParse parsed (parseKey k.toRequest), none)

/-- What the records say about the name of a task that is about to be serialized. -/
def startMoment (c : Conn) (t : TaskId) (hasThrown : Bool) : Moment :=
  let k := c.tasks t
  .start k (k.name.bind c.prepared) (k.name.any c.staleStatements) (k.name.bind c.parseInflight)
    hasThrown

/-- `startTask`: the task joins `inflight` once it has valid bytes; a throw rewinds the batch
to the mark and rejects the task. -/
def startTask (cfg : Config) (c : Conn) (t : TaskId) : Conn :=
  let mark := c.outbuf.length
  let found := c.startMoment t
  match c.serialize cfg t with
  | (c, some e) => ({ c with outbuf := c.outbuf.take mark }.note (found true)).rejectTask t e
  | (c, none) =>
    ({ c with inflight := c.inflight ++ [t], ledger := c.ledger ++ [Fifo.Event.start t] }.note
      (found false)).modTask t fun k => { k with timer := k.timeout.isSome }

end Conn

end Minipg
