import Mathlib.Algebra.GroupWithZero.Nat
import Minipg.Bulk.Statement

/-!
# What the text of a statement says

The text of a bulk statement determines the call: table, columns, types up to their case, keys and
`returning` (`insert_inj`, `update_inj`).  Each part of it is told from the next by a character
that it does not have.
-/

namespace Minipg.Bulk

open Js Reading Call

/-! ### Numbers -/

def isDigit (c : UInt16) : Prop := 48 ≤ c.toNat ∧ c.toNat ≤ 57

instance : DecidablePred isDigit := fun _ => inferInstanceAs (Decidable (_ ∧ _))

theorem decimal_eq (n : Nat) :
    decimal n = (Nat.toDigits 10 n).map fun c => UInt16.ofNat c.toNat := by
  simp [decimal, ascii]

theorem toDigits_digit {n : Nat} {c : Char} (h : c ∈ Nat.toDigits 10 n) :
    48 ≤ c.toNat ∧ c.toNat ≤ 57 := by
  have hc : c.isDigit = true := Nat.isDigit_of_mem_toDigits (by decide) (by decide) h
  simp only [Char.isDigit, Bool.and_eq_true, decide_eq_true_eq] at hc
  exact ⟨hc.1, hc.2⟩

theorem decimal_digits (n : Nat) : ∀ c ∈ decimal n, isDigit c := by
  intro c hc
  rw [decimal_eq] at hc
  obtain ⟨d, hd, rfl⟩ := List.mem_map.mp hc
  obtain ⟨hlo, hhi⟩ := toDigits_digit hd
  have hval : (UInt16.ofNat d.toNat).toNat = d.toNat := by
    rw [UInt16.toNat_ofNat']
    omega
  show 48 ≤ (UInt16.ofNat d.toNat).toNat ∧ (UInt16.ofNat d.toNat).toNat ≤ 57
  omega

theorem decimal_inj {m n : Nat} (h : decimal m = decimal n) : m = n := by
  have hback : ∀ n, (decimal n).map (fun u => Char.ofNat u.toNat) = Nat.toDigits 10 n := by
    intro n
    rw [decimal_eq, List.map_map]
    conv_rhs => rw [← List.map_id (Nat.toDigits 10 n)]
    apply List.map_congr_left
    intro c hc
    obtain ⟨hlo, hhi⟩ := toDigits_digit hc
    have hval : (UInt16.ofNat c.toNat).toNat = c.toNat := by
      rw [UInt16.toNat_ofNat']
      omega
    show Char.ofNat (UInt16.ofNat c.toNat).toNat = c
    rw [hval, Char.ofNat_toNat]
  have hdigits : Nat.toDigits 10 m = Nat.toDigits 10 n := by
    rw [← hback m, ← hback n, h]
  rw [← Nat.ofDigitChars_ten_toDigits (n := m), hdigits, Nat.ofDigitChars_ten_toDigits]

theorem reads_decimal : Reads (fun _ => True) (Avoids isDigit) decimal := by
  have h := reads_until fun c => ¬isDigit c
  refine Reads.comp (k := decimal) (h.follow fun x hx => ?_) (fun m n _ _ => decimal_inj)
    fun n _ c hc => not_not_intro (decimal_digits n c hc)
  cases x with
  | nil => exact .inl rfl
  | cons c z => exact .inr ⟨c, hx c z rfl, z, rfl⟩

/-! ### Identifiers -/

def escaped (s : JsString) : JsString := s.flatMap fun c => if c = 0x22 then [0x22, 0x22] else [c]

theorem escaped_cons (c : UInt16) (s : JsString) :
    escaped (c :: s) = (if c = 0x22 then [0x22, 0x22] else [c]) ++ escaped s := rfl

/-- Behind a closing quote there is no other. -/
theorem escaped_inj : ∀ {s t x y : JsString}, Avoids (· = 0x22) x → Avoids (· = 0x22) y →
    escaped s ++ 0x22 :: x = escaped t ++ 0x22 :: y → s = t ∧ x = y := by
  intro s
  induction s with
  | nil =>
    intro t x y hx hy h
    cases t with
    | nil => exact ⟨rfl, (List.cons.inj h).2⟩
    | cons d t =>
      rw [escaped_cons] at h
      by_cases hd : d = 0x22
      · rw [if_pos hd] at h
        exact absurd rfl (hx 0x22 _ (List.cons.inj h).2)
      · rw [if_neg hd] at h
        exact absurd (List.cons.inj h).1.symm hd
  | cons c s ih =>
    intro t x y hx hy h
    rw [escaped_cons] at h
    cases t with
    | nil =>
      by_cases hc : c = 0x22
      · rw [if_pos hc] at h
        exact absurd rfl (hy 0x22 _ (List.cons.inj h).2.symm)
      · rw [if_neg hc] at h
        exact absurd (List.cons.inj h).1 hc
    | cons d t =>
      rw [escaped_cons] at h
      by_cases hc : c = 0x22
      · by_cases hd : d = 0x22
        · rw [if_pos hc, if_pos hd] at h
          obtain ⟨rfl, hxy⟩ := ih hx hy (List.cons.inj (List.cons.inj h).2).2
          exact ⟨by rw [hc, hd], hxy⟩
        · rw [if_pos hc, if_neg hd] at h
          exact absurd (List.cons.inj h).1.symm hd
      · by_cases hd : d = 0x22
        · rw [if_neg hc, if_pos hd] at h
          exact absurd (List.cons.inj h).1 hc
        · rw [if_neg hc, if_neg hd] at h
          obtain ⟨hcd, htl⟩ := List.cons.inj h
          obtain ⟨rfl, hxy⟩ := ih hx hy htl
          exact ⟨by rw [hcd], hxy⟩

theorem reads_qIdent : Reads (fun _ => True) (Avoids (· = 0x22)) qIdent := by
  intro s t x y _ _ hx hy h
  have hq : ∀ s x : JsString, qIdent s ++ x = 0x22 :: (escaped s ++ 0x22 :: x) := by
    intro s x
    show ascii "\"" ++ escaped s ++ ascii "\"" ++ x = _
    rw [List.append_assoc, List.append_assoc]
    rfl
  rw [hq, hq] at h
  exact escaped_inj hx hy (List.cons.inj h).2

theorem qualified_inj {table table' x y : JsString} (hx : Starts 0x20 x) (hy : Starts 0x20 y)
    (h : qualified table ++ x = qualified table' ++ y) : table = table' ∧ x = y := by
  have hread : Reads (fun l : List JsString => l ≠ [] ∧ ∀ s ∈ l, True) (Starts 0x20)
      (join (ascii ".") qIdent) := by
    refine reads_qIdent.join (fun x => Starts.avoids ⟨x, rfl⟩ (by decide)) ?_
    rintro x ⟨z, rfl⟩
    exact ⟨Starts.avoids ⟨z, rfl⟩ (by decide), fun ⟨w, hw⟩ => nomatch hw⟩
  obtain ⟨hparts, hxy⟩ := hread (table.splitOn 0x2e) (table'.splitOn 0x2e) x y
    ⟨by simp, by simp⟩ ⟨by simp, by simp⟩ hx hy h
  refine ⟨?_, hxy⟩
  have htable : List.intercalate [0x2e] (table.splitOn 0x2e) = table :=
    List.intercalate_splitOn 0x2e
  rw [← htable, hparts, List.intercalate_splitOn]

theorem reads_names : Reads (fun l : List JsString => l ≠ [] ∧ ∀ s ∈ l, True) (Starts 0x29)
    (join (ascii ",") qIdent) := by
  refine reads_qIdent.join (fun x => Starts.avoids ⟨x, rfl⟩ (by decide)) ?_
  rintro x ⟨z, rfl⟩
  exact ⟨Starts.avoids ⟨z, rfl⟩ (by decide), fun ⟨w, hw⟩ => nomatch hw⟩

/-! ### Types -/

/-- A cast with a type in lower case. -/
def castTo (column : Nat × JsString) : JsString :=
  ascii "$" ++ (decimal column.1 ++ (ascii "::" ++ (column.2 ++ brackets)))

theorem cast_eq (column : Nat × JsString) : Call.cast column = castTo (column.1, lower column.2) := by
  simp [Call.cast, castTo]

theorem reads_castTo :
    Reads (fun column : Nat × JsString => True ∧ ∀ c ∈ column.2, ¬c = 0x5b) Always castTo := by
  have htype : Reads (fun t : JsString => ∀ c ∈ t, ¬c = 0x5b) Always fun t =>
      ascii "::" ++ (t ++ brackets) := by
    refine Reads.after (Reads.before (reads_until (· = 0x5b)) brackets fun x _ => ?_) _
    exact .inr ⟨0x5b, rfl, _, rfl⟩
  refine Reads.after (reads_decimal.pair htype fun t x _ _ => ?_) (ascii "$")
  exact Starts.avoids (c := 0x3a) ⟨_, rfl⟩ (by decide)

/-- The names of the types have no brackets. -/
theorem lower_noBracket {t : JsString} (h : (paramTypeOid (t ++ brackets)).isSome) :
    ∀ c ∈ lower t, ¬c = 0x5b := by
  have hdrop : (t ++ brackets).drop ((t ++ brackets).length - 2) = brackets := by
    simp [brackets, ascii]
  have htake : (t ++ brackets).take ((t ++ brackets).length - 2) = t := by
    simp [brackets, ascii]
  have htable : ∀ e ∈ typeOids, (ascii e.1).all (· ≠ 0x5b) := by decide
  unfold paramTypeOid at h
  simp only [hdrop, htake, if_true] at h
  cases hf : typeOids.find? fun e => ascii e.1 = lower t with
  | none => simp [hf] at h
  | some e =>
    have he : ascii e.1 = lower t := by simpa using List.find?_some hf
    rw [← he]
    simpa using htable e (List.mem_of_find?_eq_some hf)

theorem casts_inj {c c' : Call} {x y : JsString} (hx : Starts 0x29 x) (hy : Starts 0x29 y)
    (h : c.casts ++ x = c'.casts ++ y) : c.types.map lower = c'.types.map lower ∧ x = y := by
  have hread : Reads (fun l : List (Nat × JsString) =>
      l ≠ [] ∧ ∀ t ∈ l, True ∧ ∀ u ∈ t.2, ¬u = 0x5b) (Starts 0x29) (join (ascii ",") castTo) := by
    refine reads_castTo.join (fun _ => trivial) ?_
    rintro x ⟨z, rfl⟩
    exact ⟨trivial, fun ⟨w, hw⟩ => nomatch hw⟩
  let low (c : Call) := (numbered c.types).map fun t => (t.1, lower t.2)
  have hcasts : ∀ c : Call, c.casts = join (ascii ",") castTo (low c) := by
    intro c
    show join (ascii ",") Call.cast (numbered c.types) = _
    rw [funext cast_eq, join_map]
  have hD : ∀ c : Call, low c ≠ [] ∧ ∀ t ∈ low c, True ∧ ∀ u ∈ t.2, ¬u = 0x5b := by
    intro c
    refine ⟨by simp [low, numbered, Call.types, c.ne], fun t ht => ⟨trivial, ?_⟩⟩
    obtain ⟨n, hn, rfl⟩ := List.mem_map.mp ht
    obtain ⟨i, hi, rfl⟩ := List.mem_map.mp hn
    obtain ⟨p, hp, he⟩ := List.mem_map.mp (List.fst_mem_of_mem_zipIdx hi)
    have hknown := c.known p hp
    rw [he] at hknown
    exact lower_noBracket hknown
  rw [hcasts, hcasts] at h
  obtain ⟨hlow, hxy⟩ := hread (low c) (low c') x y (hD c) (hD c') hx hy h
  refine ⟨?_, hxy⟩
  have hsnd : ∀ c : Call, (low c).map Prod.snd = c.types.map lower := by
    intro c
    conv_rhs => rw [← List.zipIdx_map_fst 0 c.types]
    simp only [low, numbered, List.map_map, Function.comp_def]
  rw [← hsnd, ← hsnd, hlow]

/-! ### Columns and their positions -/

theorem reads_pos : Reads (fun _ => True) (Avoids isDigit) pos := reads_decimal.after (ascii "_c")

theorem reads_item : Reads (fun _ : JsString × Nat => True ∧ True) (Avoids isDigit)
    fun p => qIdent p.1 ++ (ascii " = _u." ++ pos p.2) :=
  reads_qIdent.pair (reads_pos.after _) fun n x _ _ => Starts.avoids ⟨_, rfl⟩ (by decide)

theorem setItem_eq (p : JsString × Nat) :
    setItem p = qIdent p.1 ++ (ascii " = _u." ++ pos p.2) := List.append_assoc ..

theorem keyItem_eq (p : JsString × Nat) :
    keyItem p = ascii "_t." ++ (qIdent p.1 ++ (ascii " = _u." ++ pos p.2)) := by
  simp [keyItem]

theorem reads_setItems : Reads (fun l : List (JsString × Nat) => l ≠ [] ∧ ∀ p ∈ l, True ∧ True)
    (Starts 0x20) (join (ascii ", ") setItem) := by
  have hitem : Reads (fun _ => True ∧ True) (Avoids isDigit) setItem := by
    rw [funext setItem_eq]
    exact reads_item
  refine hitem.join (fun x => Starts.avoids ⟨_, rfl⟩ (by decide)) ?_
  rintro x ⟨z, rfl⟩
  exact ⟨Starts.avoids ⟨z, rfl⟩ (by decide), fun ⟨w, hw⟩ => nomatch hw⟩

/-- What may follow the keys. -/
def IsReturning (x : JsString) : Prop := ∃ r, x = returningClause r

theorem IsReturning.avoids {x : JsString} (h : IsReturning x) : Avoids isDigit x := by
  obtain ⟨r, rfl⟩ := h
  unfold returningClause
  split
  · exact fun c z h => nomatch h
  · exact Starts.avoids (c := 0x20) ⟨_, rfl⟩ (by decide)

theorem IsReturning.not_and {x : JsString} (h : IsReturning x) : ¬ascii " and " <+: x := by
  obtain ⟨r, rfl⟩ := h
  unfold returningClause
  rintro ⟨w, hw⟩
  split at hw
  · exact nomatch hw
  · exact nomatch (List.cons.inj hw).2

theorem reads_keyItems : Reads (fun l : List (JsString × Nat) => l ≠ [] ∧ ∀ p ∈ l, True ∧ True)
    IsReturning (join (ascii " and ") keyItem) := by
  have hitem : Reads (fun _ => True ∧ True) (Avoids isDigit) keyItem := by
    rw [funext keyItem_eq]
    exact reads_item.after _
  refine hitem.join (fun x => Starts.avoids ⟨_, rfl⟩ (by decide)) ?_
  exact fun x hx => ⟨hx.avoids, hx.not_and⟩

/-! ### Statements -/

variable {c c' : Call}

theorem insert_inj (hc : c.keys = none) (hc' : c'.keys = none) (h : c.sql = c'.sql) :
    c.table = c'.table ∧ c.names = c'.names ∧ c.types.map lower = c'.types.map lower := by
  unfold Call.sql at h
  simp only [hc, hc', List.append_assoc] at h
  obtain ⟨htable, h⟩ := qualified_inj (by exact ⟨_, rfl⟩) (by exact ⟨_, rfl⟩) (List.append_cancel_left h)
  have hne : ∀ c : Call, c.names ≠ [] ∧ ∀ s ∈ c.names, True := fun c => by simp [names, c.ne]
  obtain ⟨hnames, h⟩ := reads_names c.names c'.names _ _ (hne c) (hne c') (by exact ⟨_, rfl⟩) (by exact ⟨_, rfl⟩)
    (List.append_cancel_left h)
  obtain ⟨htypes, -⟩ := casts_inj (by exact ⟨_, rfl⟩) (by exact ⟨_, rfl⟩) (List.append_cancel_left h)
  exact ⟨htable, hnames, htypes⟩

theorem length_names (c : Call) : c.names.length = (c.types.map lower).length := by
  simp [names, types]

/-- A column is where it is said to be. -/
theorem at_of_located {l : List JsString} {n : JsString} {i : Nat} (h : (n, i) ∈ c.located l)
    (hi : i < c.names.length) : c.names[i] = n := by
  obtain ⟨m, hm, he⟩ := List.mem_map.mp h
  cases he
  exact List.getElem_idxOf hi

theorem located_names (c : Call) {l : List JsString} {i : Nat} (hi : i < c.names.length)
    (h : c.names[i] ∈ l) : (c.names[i], i) ∈ c.located l :=
  List.mem_map.mpr ⟨c.names[i], h, congrArg (Prod.mk _) (c.nodup.idxOf_getElem i hi)⟩

theorem update_inj {ks ks' : List JsString} (hc : c.keys = some ks) (hc' : c'.keys = some ks')
    (h : c.sql = c'.sql) : c.table = c'.table ∧ c.names = c'.names ∧
      c.types.map lower = c'.types.map lower ∧ ks = ks' := by
  unfold Call.sql at h
  simp only [hc, hc', List.append_assoc] at h
  obtain ⟨htable, h⟩ := qualified_inj (by exact ⟨_, rfl⟩) (by exact ⟨_, rfl⟩) (List.append_cancel_left h)
  have hne : ∀ (c : Call) (l : List JsString), l ≠ [] →
      c.located l ≠ [] ∧ ∀ p ∈ c.located l, True ∧ True := fun c l hl => by simp [located, hl]
  obtain ⟨hset, h⟩ := reads_setItems _ _ _ _ (hne c _ (c.set_ne ks hc))
    (hne c' _ (c'.set_ne ks' hc')) (by exact ⟨_, rfl⟩) (by exact ⟨_, rfl⟩) (List.append_cancel_left h)
  obtain ⟨htypes, h⟩ := casts_inj (by exact ⟨_, rfl⟩) (by exact ⟨_, rfl⟩) (List.append_cancel_left h)
  have hlen : c.names.length = c'.names.length := by
    rw [length_names, length_names, htypes]
  rw [hlen] at h
  obtain ⟨hkeys, -⟩ := reads_keyItems _ _ _ _ (hne c _ (c.keys_ne ks hc))
    (hne c' _ (c'.keys_ne ks' hc')) ⟨c.returning, rfl⟩ ⟨c'.returning, rfl⟩
    (List.append_cancel_left (List.append_cancel_left (List.append_cancel_left h)))
  refine ⟨htable, List.ext_getElem hlen fun i hi hi' => ?_, htypes, ?_⟩
  · -- a column is set or it is a key
    by_cases hk : c.names[i] ∈ ks
    · have hat := located_names c hi hk
      rw [hkeys] at hat
      exact (at_of_located hat hi').symm
    · have hmem : c.names[i] ∈ c.names.filter (· ∉ ks) :=
        List.mem_filter.mpr ⟨List.getElem_mem hi, by simpa using hk⟩
      have hat := located_names c hi hmem
      have hset : c.located (c.names.filter (· ∉ ks)) = c'.located (c'.names.filter (· ∉ ks')) :=
        hset
      rw [hset] at hat
      exact (at_of_located hat hi').symm
  · have hfst : ∀ (c : Call) (l : List JsString), (c.located l).map Prod.fst = l :=
      fun c l => by simp [located, Function.comp_def]
    rw [← hfst c ks, hkeys, hfst]

end Minipg.Bulk
