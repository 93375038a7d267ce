import Mathlib.Data.List.Basic

/-!
# Regions of buffers

A memory has buffers, and cells in each of them.  `taken` are the regions that were handed out, and
a new one is put where it is free of them, so that what is read from a region that is held never
changes (`read_put`).
-/

universe u

/-- A view of a buffer. -/
structure Region where
  buffer : Nat
  byteOffset : Nat
  length : Nat
  deriving DecidableEq, Repr

namespace Region

def stop (r : Region) : Nat := r.byteOffset + r.length

/-- `subarray(start, stop)` -/
def sub (r : Region) (start stop : Nat) : Region :=
  ⟨r.buffer, r.byteOffset + start, stop - start⟩

/-- The cell `offset` of the buffer is one of the region. -/
def Has (r : Region) (buffer offset : Nat) : Prop :=
  r.buffer = buffer ∧ r.byteOffset ≤ offset ∧ offset < r.stop

instance (r : Region) (buffer offset : Nat) : Decidable (r.Has buffer offset) :=
  inferInstanceAs (Decidable (_ ∧ _))

/-- They have no cell in common. -/
def isApart (r r' : Region) : Bool :=
  r.buffer ≠ r'.buffer || r.stop ≤ r'.byteOffset || r'.stop ≤ r.byteOffset

theorem isApart.not_has {r r' : Region} (h : r.isApart r' = true) {buffer offset : Nat}
    (hr : r.Has buffer offset) : ¬ r'.Has buffer offset := by
  rintro ⟨hb', hlo', hhi'⟩
  obtain ⟨hb, hlo, hhi⟩ := hr
  simp only [isApart, Bool.or_eq_true, decide_eq_true_eq] at h
  rcases h with (h | h) | h
  · exact h (hb.trans hb'.symm)
  · omega
  · omega

theorem Has.of_sub {r : Region} {start stop buffer offset : Nat} (hstop : stop ≤ r.length)
    (h : (r.sub start stop).Has buffer offset) : r.Has buffer offset := by
  obtain ⟨hb, hlo, hhi⟩ := h
  have hlo' : r.byteOffset + start ≤ offset := hlo
  have hhi' : offset < r.byteOffset + start + (stop - start) := hhi
  exact ⟨hb, by omega, show offset < r.byteOffset + r.length by omega⟩

end Region

structure Memory (α : Type u) where
  cells : Nat → Nat → α
  taken : List Region

namespace Memory

variable {α : Type u} {m : Memory α}

def read (m : Memory α) (r : Region) : List α :=
  (List.range r.length).map fun i => m.cells r.buffer (r.byteOffset + i)

def isFree (m : Memory α) (r : Region) : Bool := m.taken.all fun t => t.isApart r

/-- Each of its cells was handed out. -/
def Holds (m : Memory α) (r : Region) : Prop :=
  ∀ buffer offset, r.Has buffer offset → ∃ t ∈ m.taken, t.Has buffer offset

/-- Write `xs`, and take the region. -/
def put (m : Memory α) (buffer byteOffset : Nat) (xs : List α) : Memory α where
  cells b o :=
    if b = buffer ∧ byteOffset ≤ o then (xs[o - byteOffset]?).getD (m.cells b o) else m.cells b o
  taken := ⟨buffer, byteOffset, xs.length⟩ :: m.taken

@[simp] theorem length_read (r : Region) : (m.read r).length = r.length := by
  rw [read, List.length_map, List.length_range]

theorem read_empty {r : Region} (h : r.length = 0) : m.read r = [] := by
  rw [← List.length_eq_zero_iff, length_read, h]

theorem getElem?_read {r : Region} {i : Nat} (h : i < r.length) :
    (m.read r)[i]? = some (m.cells r.buffer (r.byteOffset + i)) := by
  rw [read, List.getElem?_map, List.getElem?_range h]
  rfl

/-- Two regions next to each other are read as one. -/
theorem read_append (buffer byteOffset n k : Nat) :
    m.read ⟨buffer, byteOffset, n + k⟩ =
      m.read ⟨buffer, byteOffset, n⟩ ++ m.read ⟨buffer, byteOffset + n, k⟩ := by
  rw [read, List.range_add, List.map_append, List.map_map]
  congr 1
  refine List.map_congr_left fun i _ => ?_
  simp only [Function.comp_apply, Nat.add_assoc]

theorem read_sub (r : Region) {start stop : Nat} (hle : start ≤ stop) (hstop : stop ≤ r.length) :
    m.read (r.sub start stop) = ((m.read r).take stop).drop start := by
  obtain ⟨n, rfl⟩ := Nat.exists_eq_add_of_le hle
  obtain ⟨k, hk⟩ := Nat.exists_eq_add_of_le hstop
  have hr : r = ⟨r.buffer, r.byteOffset, start + n + k⟩ := by rw [← hk]
  have hall : m.read r = m.read ⟨r.buffer, r.byteOffset, start⟩ ++
      m.read ⟨r.buffer, r.byteOffset + start, n⟩ ++
      m.read ⟨r.buffer, r.byteOffset + (start + n), k⟩ := by
    conv_lhs => rw [hr]
    rw [read_append, read_append]
  have hlen : (m.read ⟨r.buffer, r.byteOffset, start⟩ ++
      m.read ⟨r.buffer, r.byteOffset + start, n⟩).length = start + n := by
    rw [List.length_append, length_read, length_read]
  have hstart : (m.read ⟨r.buffer, r.byteOffset, start⟩).length = start := length_read _
  rw [hall, List.take_left' hlen, List.drop_left' hstart, Region.sub, Nat.add_sub_cancel_left]

theorem holds_of_mem {r : Region} (h : r ∈ m.taken) : m.Holds r := fun _ _ hr => ⟨r, h, hr⟩

theorem Holds.sub {r : Region} (h : m.Holds r) {start stop : Nat} (hstop : stop ≤ r.length) :
    m.Holds (r.sub start stop) :=
  fun buffer offset hr => h buffer offset (hr.of_sub hstop)

theorem holds_empty {r : Region} (h : r.length = 0) : m.Holds r := by
  rintro buffer offset ⟨-, hlo, hhi⟩
  rw [Region.stop, h] at hhi
  omega

/-- Two regions next to each other are held as one. -/
theorem Holds.append {buffer byteOffset n k : Nat} (h : m.Holds ⟨buffer, byteOffset, n⟩)
    (h' : m.Holds ⟨buffer, byteOffset + n, k⟩) : m.Holds ⟨buffer, byteOffset, n + k⟩ := by
  rintro b o ⟨hb, hlo, hhi⟩
  have hhi : o < byteOffset + (n + k) := hhi
  rcases Nat.lt_or_ge o (byteOffset + n) with hlt | hge
  · exact h b o ⟨hb, hlo, hlt⟩
  · exact h' b o ⟨hb, hge, show o < byteOffset + n + k by omega⟩

section Put

variable {buffer byteOffset : Nat} {xs : List α}

theorem Holds.put {r : Region} (h : m.Holds r) : (m.put buffer byteOffset xs).Holds r := by
  intro b o hr
  obtain ⟨t, ht, hto⟩ := h b o hr
  exact ⟨t, List.mem_cons_of_mem _ ht, hto⟩

theorem holds_put : (m.put buffer byteOffset xs).Holds ⟨buffer, byteOffset, xs.length⟩ :=
  holds_of_mem List.mem_cons_self

theorem read_put_self :
    (m.put buffer byteOffset xs).read ⟨buffer, byteOffset, xs.length⟩ = xs := by
  apply List.ext_getElem?
  intro i
  rcases Nat.lt_or_ge i xs.length with hlt | hge
  · rw [getElem?_read hlt, Memory.put]
    have hcell : buffer = buffer ∧ byteOffset ≤ byteOffset + i := ⟨rfl, Nat.le_add_right _ _⟩
    dsimp only
    rw [if_pos hcell, Nat.add_sub_cancel_left, List.getElem?_eq_getElem hlt, Option.getD_some]
  · rw [List.getElem?_eq_none hge, List.getElem?_eq_none (by rw [length_read]; exact hge)]

/-- **What is held stays as it is.** -/
theorem read_put {r : Region} (hr : m.Holds r)
    (hfree : m.isFree ⟨buffer, byteOffset, xs.length⟩ = true) :
    (m.put buffer byteOffset xs).read r = m.read r := by
  apply List.map_congr_left
  intro i hi
  have hhas : r.Has r.buffer (r.byteOffset + i) :=
    ⟨rfl, Nat.le_add_right _ _, Nat.add_lt_add_left (List.mem_range.mp hi) _⟩
  obtain ⟨t, ht, hto⟩ := hr _ _ hhas
  have hnot := (List.all_eq_true.mp hfree t ht : t.isApart _ = true)
  have hout := Region.isApart.not_has hnot hto
  rw [Memory.put]
  dsimp only
  split
  next hin =>
    rw [List.getElem?_eq_none, Option.getD_none]
    by_contra hlt
    refine hout ⟨hin.1.symm, hin.2, ?_⟩
    show r.byteOffset + i < byteOffset + xs.length
    omega
  next => rfl

end Put

end Memory
