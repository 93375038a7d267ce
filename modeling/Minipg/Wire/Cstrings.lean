import Minipg.Protocol
import Minipg.Decode.Cells

/-!
# Strings that end with a NUL

The parsers of message bodies find the end of a string with `while (b[e] !== 0) e++`, which does not
stop at the end of the body.  `findNul` has fuel for its steps: a run that is `none` for all fuel
does not end.  Records that begin with a string are read in loops over a count; such a loop runs on
exactly when the body is `Cut`.
-/

namespace Minipg.Cstrings

open Js Cells

/-- `none`: it is still running. -/
abbrev Run (α : Type) := ExceptT Js.JsError Option α

def findNul (b : Bytes) : Nat → Nat → Option Nat
  | 0, _ => none
  | fuel + 1, e => if b[e]? = some 0 then some e else findNul b fuel (e + 1)

section Reading

variable (rt : Runtime) (fuel : Nat) (b : Bytes)

/-- Where the string ends. -/
def scan (off : Nat) : Run Nat := (findNul b fuel off).map .ok

/-- The string at `off`, and where the next field starts. -/
def cstr (off : Nat) : Run (JsString × Nat) := do
  let e ← scan fuel b off
  return (rt.utf8Slice b off (e - off), e + 1)

/-- Records with a name, which starts `lead` bytes into the record; the next record starts `skip`
bytes after its NUL. -/
def records {α : Type} (lead skip : Nat) (record : Nat → JsString → Nat → Except Js.JsError α) :
    Nat → Nat → Run (List α × Nat)
  | 0, off => return ([], off)
  | n + 1, off => do
    let (name, next) ← cstr rt fuel b (off + lead)
    let r ← record off name next
    let (rs, e) ← records lead skip record n (next + skip)
    return (r :: rs, e)

end Reading

/-- Fewer than `n` records come before one without a NUL; each has `width` bytes after its NUL that
are there. -/
def Cut (lead skip width : Nat) : Nat → Bytes → Prop
  | 0, _ => False
  | n + 1, rest => 0 ∉ rest.drop lead ∨ ∃ name fields, rest.drop lead = name ++ 0 :: fields ∧
      0 ∉ name ∧ width ≤ fields.length ∧ Cut lead skip width n (fields.drop skip)

/-! ### The end of a string -/

theorem findNul_absent {b : Bytes} : ∀ (fuel off : Nat), 0 ∉ b.drop off →
    findNul b fuel off = none
  | 0, _, _ => rfl
  | fuel + 1, off, h => by
    have hhere : b[off]? ≠ some 0 := fun heq =>
      h (List.mem_of_getElem? (i := 0) (by rw [List.getElem?_drop]; exact heq))
    have hrest : 0 ∉ b.drop (off + 1) := fun hmem => by
      rw [← List.drop_drop] at hmem
      exact h (List.mem_of_mem_drop hmem)
    rw [findNul, if_neg hhere, findNul_absent fuel (off + 1) hrest]

/-- It takes a step for each byte before the NUL, and one more. -/
theorem findNul_append {b fields : Bytes} : ∀ (fuel off : Nat) (name : Bytes),
    b.drop off = name ++ 0 :: fields → 0 ∉ name →
      findNul b fuel off = if name.length < fuel then some (off + name.length) else none
  | 0, _, _, _, _ => rfl
  | fuel + 1, off, [], h, _ => by
    have hhere : b[off]? = some 0 := by
      rw [← Nat.add_zero off, ← List.getElem?_drop, h]
      rfl
    rw [findNul, if_pos hhere, if_pos (by exact Nat.succ_pos fuel)]
    rfl
  | fuel + 1, off, c :: name, h, hno => by
    have hhere : b[off]? = some c := by
      rw [← Nat.add_zero off, ← List.getElem?_drop, h]
      rfl
    have hc : c ≠ 0 := fun heq => hno (heq ▸ List.mem_cons_self)
    have hnext : b.drop (off + 1) = name ++ 0 :: fields := by
      rw [← List.drop_drop, h]
      rfl
    have hrun := findNul_append fuel (off + 1) name hnext fun hmem =>
      hno (List.mem_cons_of_mem c hmem)
    rw [findNul, hhere, if_neg (fun heq => hc (Option.some.inj heq)), hrun, List.length_cons]
    by_cases hlt : name.length < fuel
    · rw [if_pos hlt, if_pos (by omega), Nat.add_right_comm, Nat.add_assoc]
    · rw [if_neg hlt, if_neg (by omega)]

/-- A string that is there ends before the buffer does. -/
theorem length_of_drop {b name fields : Bytes} {off : Nat} (h : b.drop off = name ++ 0 :: fields) :
    off + name.length + 1 + fields.length = b.length ∧
    b.drop (off + name.length + 1) = fields := by
  have hlen := congrArg List.length h
  rw [List.length_drop, List.length_append, List.length_cons] at hlen
  refine ⟨by omega, ?_⟩
  rw [Nat.add_assoc, ← List.drop_drop, h]
  simp

/-! ### Runs -/

theorem bind_eq_none {α β : Type} {m : Run α} {f : α → Run β} :
    (m >>= f) = none ↔ m = none ∨ ∃ a, m = some (.ok a) ∧ f a = none := by
  match m with
  | none => exact ⟨fun _ => .inl rfl, fun _ => rfl⟩
  | some (.error e) => exact ⟨nofun, fun h => h.elim nofun fun ⟨a, ha, _⟩ => nomatch ha⟩
  | some (.ok a) =>
    refine ⟨fun h => .inr ⟨a, rfl, h⟩, fun h => ?_⟩
    rcases h with h | ⟨_, ha, hf⟩
    · cases h
    · cases ha
      exact hf

/-- What throws or returns does not run on. -/
theorem lift_bind_eq_none {α β : Type} {m : Except Js.JsError α} {f : α → Run β} :
    ((liftM m : Run α) >>= f) = none ↔ ∃ a, m = .ok a ∧ f a = none := by
  cases m with
  | error e => exact ⟨nofun, fun ⟨a, ha, _⟩ => nomatch ha⟩
  | ok a =>
    refine ⟨fun h => ⟨a, rfl, h⟩, fun ⟨_, ha, hf⟩ => ?_⟩
    cases ha
    exact hf

section Strings

variable {rt : Runtime} {b : Bytes}

theorem scan_absent (fuel : Nat) {off : Nat} (h : 0 ∉ b.drop off) : scan fuel b off = none := by
  unfold scan
  rw [findNul_absent fuel off h]
  rfl

/-- A scan that ends has found the NUL after the name. -/
theorem scan_append (fuel : Nat) {off : Nat} {name fields : Bytes}
    (h : b.drop off = name ++ 0 :: fields) (hno : 0 ∉ name) :
    scan fuel b off = none ∨ scan fuel b off = some (.ok (off + name.length)) := by
  unfold scan
  rw [findNul_append fuel off name h hno]
  by_cases hlt : name.length < fuel
  · rw [if_pos hlt]
    exact .inr rfl
  · rw [if_neg hlt]
    exact .inl rfl

/-- With fuel for the whole buffer the end is found, if it is there. -/
theorem scan_present {fuel off : Nat} {name fields : Bytes} (hfuel : b.length < fuel)
    (h : b.drop off = name ++ 0 :: fields) (hno : 0 ∉ name) :
    scan fuel b off = some (.ok (off + name.length)) := by
  have hlen := (length_of_drop h).1
  unfold scan
  rw [findNul_append fuel off name h hno, if_pos (by omega)]
  rfl

theorem cstr_bind_absent {α : Type} (fuel : Nat) {off : Nat} (h : 0 ∉ b.drop off)
    (f : JsString × Nat → Run α) : (cstr rt fuel b off >>= f) = none :=
  bind_eq_none.mpr (.inl (bind_eq_none.mpr (.inl (scan_absent fuel h))))

/-- What comes after a string runs on, so the whole does. -/
theorem cstr_bind_none {α : Type} {fuel off : Nat} {name fields : Bytes}
    {f : JsString × Nat → Run α} (h : b.drop off = name ++ 0 :: fields) (hno : 0 ∉ name)
    (hf : f (rt.utf8Slice b off name.length, off + name.length + 1) = none) :
    (cstr rt fuel b off >>= f) = none := by
  rcases scan_append fuel h hno with hscan | hscan
  · exact bind_eq_none.mpr (.inl (bind_eq_none.mpr (.inl hscan)))
  · refine bind_eq_none.mpr (.inr ⟨(rt.utf8Slice b off name.length, off + name.length + 1), ?_, hf⟩)
    unfold cstr
    rw [hscan]
    show some (Except.ok (rt.utf8Slice b off (off + name.length - off), _)) = _
    rw [Nat.add_sub_cancel_left]

/-- With fuel for the whole buffer a string that is there is read. -/
theorem cstr_bind {α : Type} {fuel off : Nat} {name fields : Bytes} (hfuel : b.length < fuel)
    (h : b.drop off = name ++ 0 :: fields) (hno : 0 ∉ name) (f : JsString × Nat → Run α) :
    (cstr rt fuel b off >>= f) = f (rt.utf8Slice b off name.length, off + name.length + 1) := by
  unfold cstr
  rw [scan_present hfuel h hno]
  show f (rt.utf8Slice b off (off + name.length - off), _) = _
  rw [Nat.add_sub_cancel_left]

end Strings

/-! ### Records -/

section Records

variable {rt : Runtime} {b : Bytes} {α : Type} {lead skip width : Nat}
  {record : Nat → JsString → Nat → Except Js.JsError α}

/-- Before a missing NUL the loop runs on, with any fuel. -/
theorem records_cut (fuel : Nat)
    (hreads : ∀ off name next, (∃ r, record off name next = .ok r) ↔ next + width ≤ b.length) :
    ∀ n off, Cut lead skip width n (b.drop off) →
      records rt fuel b lead skip record n off = none
  | 0, _, h => h.elim
  | n + 1, off, h => by
    rw [Cut, List.drop_drop] at h
    rcases h with habsent | ⟨name, fields, hdrop, hno, hwidth, hcut⟩
    · exact cstr_bind_absent fuel habsent _
    · obtain ⟨hlen, hafter⟩ := length_of_drop hdrop
      obtain ⟨r, hr⟩ := (hreads off (rt.utf8Slice b (off + lead) name.length)
        (off + lead + name.length + 1)).mpr (by omega)
      rw [← hafter, List.drop_drop] at hcut
      apply cstr_bind_none hdrop hno
      dsimp only
      refine lift_bind_eq_none.mpr ⟨r, hr, bind_eq_none.mpr (.inl ?_)⟩
      exact records_cut fuel hreads n _ hcut

/-- Otherwise it ends, with fuel for the whole buffer. -/
theorem records_ends {fuel : Nat} (hfuel : b.length < fuel)
    (hreads : ∀ off name next, (∃ r, record off name next = .ok r) ↔ next + width ≤ b.length) :
    ∀ n off, ¬Cut lead skip width n (b.drop off) →
      records rt fuel b lead skip record n off ≠ none
  | 0, _, _ => nofun
  | n + 1, off, h => by
    rw [Cut, List.drop_drop, not_or, not_not] at h
    obtain ⟨hmem, hnext⟩ := h
    obtain ⟨name, fields, hdrop, hno⟩ := List.eq_append_cons_of_mem hmem
    obtain ⟨hlen, hafter⟩ := length_of_drop hdrop
    rw [records, cstr_bind hfuel hdrop hno]
    intro hnone
    obtain ⟨r, hr, hnone⟩ := lift_bind_eq_none.mp hnone
    have hwidth := (hreads _ _ _).mp ⟨r, hr⟩
    refine hnext ⟨name, fields, hdrop, hno, by omega, ?_⟩
    rw [← hafter, List.drop_drop]
    rcases bind_eq_none.mp hnone with hnone | ⟨_, -, hnone⟩
    · by_contra hcut
      exact records_ends hfuel hreads n _ hcut hnone
    · cases hnone

end Records

end Minipg.Cstrings
