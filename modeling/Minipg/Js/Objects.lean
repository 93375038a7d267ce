import Mathlib.Data.List.Basic

/-!
# Assignments to an object

A plain object has own properties and a prototype.  `obj[name] = v` writes an own property, except
that `__proto__` is an accessor of `Object.prototype`: where it is found, the prototype is set.  No
other setter is found, and the object is in no prototype of its own.
-/

namespace Minipg.Js

/-- The objects that serve as prototypes. -/
structure Prototypes (V : Type) where
  /-- `Object.prototype`. -/
  base : V
  /-- What a property of the object, or of a prototype of it, holds. -/
  member : V → String → Option V
  /-- Whether `__proto__` is found to be the accessor. -/
  hasAccessor : V → Bool
  isObject : V → Bool
  isNull : V → Bool

/-- An object; the prototype may be null. -/
structure Obj (V : Type) where
  own : List (String × V) := []
  proto : Option V

namespace Obj

variable {V : Type} (P : Prototypes V)

/-- `{}` -/
def new : Obj V := { proto := some P.base }

/-- An own property. -/
def find (obj : Obj V) (name : String) : Option V :=
  (obj.own.find? fun p => p.1 = name).map Prod.snd

/-- `obj[name]`, or `none` where `name in obj` is false. -/
def get (obj : Obj V) (name : String) : Option V :=
  (obj.find name).or <| obj.proto.bind fun p =>
    if name = "__proto__" ∧ P.hasAccessor p then some p else P.member p name

/-- A key that is there keeps its place. -/
def put (name : String) (v : V) : List (String × V) → List (String × V)
  | [] => [(name, v)]
  | p :: own => if p.1 = name then (name, v) :: own else p :: put name v own

/-- Whether an assignment to `__proto__` calls the accessor. -/
def callsAccessor (obj : Obj V) : Bool :=
  (obj.find "__proto__").isNone && obj.proto.any P.hasAccessor

/-- `obj.__proto__ = v`, with the accessor. -/
def setProto (obj : Obj V) (v : V) : Obj V :=
  if P.isObject v then { obj with proto := some v }
  else if P.isNull v then { obj with proto := none }
  else obj

/-- `obj[name] = v` -/
def set (obj : Obj V) (name : String) (v : V) : Obj V :=
  if name = "__proto__" ∧ obj.callsAccessor P then obj.setProto P v
  else { obj with own := put name v obj.own }

/-- Assignments one after the other. -/
def setAll (obj : Obj V) (ps : List (String × V)) : Obj V :=
  ps.foldl (fun obj p => obj.set P p.1 p.2) obj

variable {P}

theorem find_put_self (name : String) (v : V) (own : List (String × V)) :
    (put name v own).find? (fun p => p.1 = name) = some (name, v) := by
  induction own with
  | nil => simp [put]
  | cons p own ih =>
    rw [put]
    split
    · simp
    next hne => simp [hne, ih]

theorem find_put_of_ne {name name' : String} (hne : name' ≠ name) (v : V)
    (own : List (String × V)) :
    (put name v own).find? (fun p => p.1 = name') = own.find? fun p => p.1 = name' := by
  induction own with
  | nil => simp [put, hne.symm]
  | cons p own ih =>
    rw [put]
    split
    next heq =>
      have hp : p.1 ≠ name' := heq ▸ hne.symm
      simp [hne.symm, hp]
    next => simp only [List.find?_cons, ih]

@[simp] theorem setProto_own (obj : Obj V) (v : V) : (obj.setProto P v).own = obj.own := by
  rw [setProto]
  split_ifs <;> rfl

theorem find_set_self {name : String} (hname : name ≠ "__proto__") (obj : Obj V) (v : V) :
    (obj.set P name v).find name = some v := by
  rw [set, if_neg fun h => hname h.1, find, find_put_self]
  rfl

theorem find_set_of_ne {name name' : String} (hne : name' ≠ name) (obj : Obj V) (v : V) :
    (obj.set P name v).find name' = obj.find name' := by
  rw [set]
  split
  · rw [find, setProto_own, find]
  · rw [find, find_put_of_ne hne, find]

theorem set_proto {name : String} (hname : name ≠ "__proto__") (obj : Obj V) (v : V) :
    (obj.set P name v).proto = obj.proto := by
  rw [set, if_neg fun h => hname h.1]

/-- An own property stays what it is if no assignment is to it. -/
theorem find_setAll_of_notMem {name : String} (ps : List (String × V)) :
    ∀ obj : Obj V, name ∉ ps.map Prod.fst → (obj.setAll P ps).find name = obj.find name := by
  induction ps with
  | nil => exact fun _ _ => rfl
  | cons p ps ih =>
    intro obj hname
    rw [List.map_cons, List.mem_cons, not_or] at hname
    show ((obj.set P p.1 p.2).setAll P ps).find name = _
    rw [ih _ hname.2, find_set_of_ne hname.1]

/-- The last value that is assigned to a property. -/
theorem find_setAll {name : String} {v : V} (hname : name ≠ "__proto__")
    (ps : List (String × V)) (hnodup : (ps.map Prod.fst).Nodup) :
    ∀ obj : Obj V, (name, v) ∈ ps → (obj.setAll P ps).find name = some v := by
  induction ps with
  | nil => exact fun _ h => absurd h List.not_mem_nil
  | cons p ps ih =>
    intro obj hmem
    rw [List.map_cons, List.nodup_cons] at hnodup
    rcases List.mem_cons.mp hmem with rfl | hmem
    · show ((obj.set P name v).setAll P ps).find name = _
      rw [find_setAll_of_notMem ps _ hnodup.1, find_set_self hname]
    · exact ih hnodup.2 _ hmem

theorem setAll_proto (ps : List (String × V)) :
    ∀ obj : Obj V, "__proto__" ∉ ps.map Prod.fst → (obj.setAll P ps).proto = obj.proto := by
  induction ps with
  | nil => exact fun _ _ => rfl
  | cons p ps ih =>
    intro obj hname
    rw [List.map_cons, List.mem_cons, not_or] at hname
    show ((obj.set P p.1 p.2).setAll P ps).proto = _
    rw [ih _ hname.2, set_proto (Ne.symm hname.1)]

/-- A lookup finds the same if the own property is the same, and there, or the prototype is. -/
theorem get_congr {obj obj' : Obj V} {name : String} (hfind : obj.find name = obj'.find name)
    (h : obj.proto = obj'.proto ∨ (obj'.find name).isSome = true) :
    obj.get P name = obj'.get P name := by
  rw [get, get, hfind]
  rcases h with hproto | hsome
  · rw [hproto]
  · obtain ⟨v, hv⟩ := Option.isSome_iff_exists.mp hsome
    rw [hv, Option.some_or, Option.some_or]

theorem get_of_find {obj : Obj V} {name : String} {v : V} (h : obj.find name = some v) :
    obj.get P name = some v := by
  rw [get, h, Option.some_or]

end Obj

end Minipg.Js
