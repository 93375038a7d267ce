import Mathlib.Data.List.Basic

/-!
# The two row mappers

A row is assembled from decoded cells twice in the source: `mapper.ts` interprets a tree of
columns, and `decode.ts` generates the text of an object literal that is compiled.  Here are the
tree that both build, the interpreter, the generator with the syntax that it writes, and the
meaning of that syntax.

A JavaScript object is the list of its own properties in the order in which they were first
defined; the order in which integer-like keys are enumerated is a function of this list.
-/

namespace Minipg.Rows

/-- A decoded cell; `none` is null. -/
abbrev Cell (V : Type) := Option V

/-- The function of a `Transform()`. -/
abbrev Xform (V ε : Type) := Cell V → Except ε (Cell V)

/-- What row assembly reads of a column. -/
structure CodegenCol (V ε : Type) where
  name : String
  path : Option (List String) := none
  groupNullable : Option (List Bool) := none
  xform : Option (Xform V ε) := none
  nullable : Bool := false

inductive RowMode
  | array
  | object
  deriving DecidableEq, Repr

inductive RowValue (V : Type)
  | cell (c : Cell V)
  | array (cs : List (Cell V))
  | object (props : List (String × RowValue V))

inductive Thrown (ε : Type)
  | message (text : String)
  | typeError
  | xform (e : ε)

abbrev Props (V : Type) := List (String × RowValue V)

variable {V ε : Type}

/-! ### Objects -/

/-- A key that is there keeps its place. -/
def defineProperty : Props V → String → RowValue V → Props V
  | [], k, v => [(k, v)]
  | (k', v') :: obj, k, v =>
    if k' = k then (k, v) :: obj else (k', v') :: defineProperty obj k v

/-- `obj[k] = v`, and `k: v` in a literal: `__proto__` is no own property. -/
def assign (obj : Props V) (k : String) (v : RowValue V) : Props V :=
  if k = "__proto__" then obj else defineProperty obj k v

def setKey (obj : Props V) (k : String) (v : RowValue V) : Props V :=
  if k = "__proto__" then defineProperty obj k v else assign obj k v

/-! ### The tree of columns -/

/-- The interpreter keeps of `col` its `xform`, and `required`, which is `!nullable`. -/
structure Leaf (V ε : Type) where
  key : String
  i : Nat
  col : CodegenCol V ε

mutual

inductive Node (V ε : Type)
  | mk (leaves : List (Leaf V ε)) (groups : Groups V ε) (nullable : Bool)

inductive Groups (V ε : Type)
  | nil
  | cons (key : String) (node : Node V ε) (rest : Groups V ε)

end

def Node.empty (nullable : Bool) : Node V ε := .mk [] .nil nullable

/-- The group of a key, made if there is none. -/
def Groups.enter (key : String) (nullable : Bool) (f : Node V ε → Node V ε) :
    Groups V ε → Groups V ε
  | .nil => .cons key (f (Node.empty nullable)) .nil
  | .cons k node rest =>
    if k = key then .cons k (f node) rest else .cons k node (rest.enter key nullable f)

def Node.insert (leaf : Leaf V ε) : List (String × Bool) → Node V ε → Node V ε
  | [], .mk leaves groups nullable => .mk (leaves ++ [leaf]) groups nullable
  | (seg, segNullable) :: path, .mk leaves groups nullable =>
    .mk leaves (groups.enter seg segNullable (Node.insert leaf path)) nullable

/-- The path of a column, each segment with its `groupNullable`. -/
def CodegenCol.segments (c : CodegenCol V ε) : List (String × Bool) :=
  (c.path.getD []).zipIdx.map fun (seg, depth) =>
    (seg, ((c.groupNullable.getD [])[depth]?).getD false)

def buildObjTree (cols : List (CodegenCol V ε)) : Node V ε :=
  cols.zipIdx.foldl (fun root (c, i) => root.insert ⟨c.name, i, c⟩ c.segments) (Node.empty false)

/-! ### The interpreter -/

/-- `vals[i]`. -/
def cellAt (vals : List (Cell V)) (i : Nat) : Cell V := vals[i]?.getD none

def callXform (f : Xform V ε) (c : Cell V) : Except (Thrown ε) (Cell V) :=
  match f c with
  | .ok c => .ok c
  | .error e => .error (.xform e)

/-- The transform of a leaf is skipped for null. -/
def Leaf.value (l : Leaf V ε) (vals : List (Cell V)) : Except (Thrown ε) (Cell V) :=
  match l.col.xform, cellAt vals l.i with
  | some f, some v => callXform f (some v)
  | _, c => .ok c

def assembleLeaves (vals : List (Cell V)) :
    List (Leaf V ε) → Props V → Except (Thrown ε) (Props V)
  | [], obj => .ok obj
  | l :: ls, obj =>
    match l.value vals with
    | .ok c => assembleLeaves vals ls (setKey obj l.key (.cell c))
    | .error e => .error e

mutual

def Node.groupAllNull (vals : List (Cell V)) : Node V ε → Bool
  | .mk leaves groups _ => leaves.all (fun l => (cellAt vals l.i).isNone) && groups.allNull vals

def Groups.allNull (vals : List (Cell V)) : Groups V ε → Bool
  | .nil => true
  | .cons _ node rest => node.groupAllNull vals && rest.allNull vals

end

/-- Whether `assembleGroup` returns null. -/
def Node.isMissed (vals : List (Cell V)) : Node V ε → Bool
  | .mk leaves groups nullable =>
    nullable &&
      if leaves.any fun l => !l.col.nullable then
        leaves.any fun l => !l.col.nullable && (cellAt vals l.i).isNone
      else (Node.mk leaves groups nullable).groupAllNull vals

mutual

/-- `assembleObj`, into an object. -/
def Node.assemble (vals : List (Cell V)) : Node V ε → Props V → Except (Thrown ε) (Props V)
  | .mk leaves groups _, obj =>
    match assembleLeaves vals leaves obj with
    | .ok obj => groups.assemble vals obj
    | .error e => .error e

/-- The groups of `assembleObj`, each by `assembleGroup`. -/
def Groups.assemble (vals : List (Cell V)) : Groups V ε → Props V → Except (Thrown ε) (Props V)
  | .nil, obj => .ok obj
  | .cons key node rest, obj =>
    if node.isMissed vals then rest.assemble vals (setKey obj key (.cell none))
    else
      match node.assemble vals [] with
      | .ok props => rest.assemble vals (setKey obj key (.object props))
      | .error e => .error e

end

/-- The row without Collect and Transform. -/
def flatRow (cols : List (CodegenCol V ε)) (vals : List (Cell V)) : Props V :=
  cols.zipIdx.foldl (fun obj (c, i) => setKey obj c.name (.cell (cellAt vals i))) []

/-- `interpretedMapper`, on the decoded cells. -/
def interpretedMapper (cols : List (CodegenCol V ε)) (vals : List (Cell V)) :
    RowMode → Except (Thrown ε) (RowValue V)
  | .object =>
    if cols.any fun c => c.path.isSome || c.xform.isSome then
      ((buildObjTree cols).assemble vals []).map .object
    else .ok (.object (flatRow cols vals))
  | .array => .ok (.array ((List.range cols.length).map (cellAt vals)))

/-! ### What the generator writes -/

/-- The key of a property in a literal: a string, or computed. -/
inductive LitKey
  | string (k : String)
  | computed (k : String)
  deriving DecidableEq, Repr

def litKey (k : String) : LitKey := if k = "__proto__" then .computed k else .string k

/-- `v1 === null || v2 === null`, or `v1 === null && v2 === null`. -/
inductive NullTest
  | anyNull (cols : List Nat)
  | allNull (cols : List Nat)
  deriving DecidableEq, Repr

mutual

inductive JsExpr
  /-- `v1`. -/
  | temp (i : Nat)
  /-- `(v1 === null ? null : X[k](v1))`. -/
  | call (i k : Nat)
  | object (parts : JsParts)
  /-- `(test) ? null : e`. -/
  | unless (test : NullTest) (e : JsExpr)

inductive JsParts
  | nil
  | cons (key : LitKey) (value : JsExpr) (rest : JsParts)

end

def JsParts.append : JsParts → JsParts → JsParts
  | .nil, qs => qs
  | .cons k e ps, qs => .cons k e (ps.append qs)

/-- The value expression of a column; its transform is pushed to `xforms`. -/
def colVal (col : CodegenCol V ε) (i : Nat) (xforms : List (Xform V ε)) :
    JsExpr × List (Xform V ε) :=
  match col.xform with
  | none => (.temp i, xforms)
  | some f => (.call i xforms.length, xforms ++ [f])

def leafParts : List (Leaf V ε) → List (Xform V ε) → JsParts × List (Xform V ε)
  | [], xforms => (.nil, xforms)
  | l :: ls, xforms =>
    let (e, xforms) := colVal l.col l.i xforms
    let (ps, xforms) := leafParts ls xforms
    (.cons (litKey l.key) e ps, xforms)

mutual

/-- Every descendant column index of a group. -/
def Node.allIdx : Node V ε → List Nat
  | .mk leaves groups _ => leaves.map (·.i) ++ groups.allIdx

def Groups.allIdx : Groups V ε → List Nat
  | .nil => []
  | .cons _ node rest => node.allIdx ++ rest.allIdx

end

/-- The expression of a group around its body. -/
def Node.guard : Node V ε → JsExpr → JsExpr
  | .mk leaves groups nullable, b =>
    let req := leaves.filter fun l => !l.col.nullable
    let all := (Node.mk leaves groups nullable).allIdx
    if nullable = false then b
    else if req ≠ [] then .unless (.anyNull (req.map (·.i))) b
    else if all ≠ [] then .unless (.allNull all) b
    else b

mutual

def Node.body : Node V ε → List (Xform V ε) → JsParts × List (Xform V ε)
  | .mk leaves groups _, xforms =>
    let (ps, xforms) := leafParts leaves xforms
    let (gs, xforms) := groups.parts xforms
    (ps.append gs, xforms)

def Groups.parts : Groups V ε → List (Xform V ε) → JsParts × List (Xform V ε)
  | .nil, xforms => (.nil, xforms)
  | .cons key node rest, xforms =>
    let (b, xforms) := node.body xforms
    let (ps, xforms) := rest.parts xforms
    (.cons (litKey key) (node.guard (.object b)) ps, xforms)

end

/-- The elements of an array literal. -/
def arrayParts : List (CodegenCol V ε × Nat) → List (Xform V ε) → List JsExpr × List (Xform V ε)
  | [], xforms => ([], xforms)
  | (c, i) :: cols, xforms =>
    let (e, xforms) := colVal c i xforms
    let (es, xforms) := arrayParts cols xforms
    (e :: es, xforms)

/-! ### What it means -/

def LitKey.put (obj : Props V) : LitKey → RowValue V → Props V
  | .string k, v => assign obj k v
  | .computed k, v => defineProperty obj k v

def NullTest.holds (vals : List (Cell V)) : NullTest → Bool
  | .anyNull cols => cols.any fun i => (cellAt vals i).isNone
  | .allNull cols => cols.all fun i => (cellAt vals i).isNone

/-- `(v1 === null ? null : X[k](v1))`. -/
def callTemp (xforms : List (Xform V ε)) (vals : List (Cell V)) (i k : Nat) :
    Except (Thrown ε) (Cell V) :=
  match cellAt vals i with
  | none => .ok none
  | some v =>
    match xforms[k]? with
    | some f => callXform f (some v)
    | none => .error .typeError

mutual

def JsExpr.eval (xforms : List (Xform V ε)) (vals : List (Cell V)) :
    JsExpr → Except (Thrown ε) (RowValue V)
  | .temp i => .ok (.cell (cellAt vals i))
  | .call i k => (callTemp xforms vals i k).map .cell
  | .object parts => (parts.eval xforms vals []).map .object
  | .unless test e => if test.holds vals then .ok (.cell none) else e.eval xforms vals

def JsParts.eval (xforms : List (Xform V ε)) (vals : List (Cell V)) :
    JsParts → Props V → Except (Thrown ε) (Props V)
  | .nil, obj => .ok obj
  | .cons key e rest, obj =>
    match e.eval xforms vals with
    | .ok v => rest.eval xforms vals (key.put obj v)
    | .error x => .error x

end

/-- The elements of an array literal are cells. -/
def evalCells (xforms : List (Xform V ε)) (vals : List (Cell V)) :
    List JsExpr → Except (Thrown ε) (List (Cell V))
  | [] => .ok []
  | e :: es =>
    match e.eval xforms vals with
    | .ok (.cell c) => (evalCells xforms vals es).map (c :: ·)
    | .ok _ => .error .typeError
    | .error x => .error x

def collectInArray : String :=
  "minipg: Collect() produces a nested object — use object mode (mode:\"array\" cannot nest)"

/-- The compiled mapper, on the decoded cells; `walks` are the functions that the columns'
decoders have put into `X` before. -/
def compiledMapper (walks : List (Xform V ε)) (cols : List (CodegenCol V ε))
    (vals : List (Cell V)) : RowMode → Except (Thrown ε) (RowValue V)
  | .object =>
    let (parts, xforms) := (buildObjTree cols).body walks
    (JsExpr.object parts).eval xforms vals
  | .array =>
    if cols.any fun c => c.path.isSome then .error (.message collectInArray)
    else
      let (es, xforms) := arrayParts cols.zipIdx walks
      (evalCells xforms vals es).map .array

end Minipg.Rows
