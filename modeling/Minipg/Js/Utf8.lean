import Minipg.Js
import Minipg.Lib.Taking

/-!
# Text of the wire

A string comes back from its UTF-8 bytes unless a surrogate stands alone in it
(`utf8Decode_utf8`); what is decoded never holds such a surrogate, and no U+0000 where there is
no byte 0.
-/

namespace Minipg.Js

open Taking

def isSurrogate (u : UInt16) : Bool := isHigh u || isLow u

/-- `isWellFormed`: every surrogate is one of a pair. -/
def isWellFormed : JsString → Bool
  | [] => true
  | [u] => !isSurrogate u
  | u :: v :: rest =>
    if isHigh u && isLow v then isWellFormed rest else !isSurrogate u && isWellFormed (v :: rest)

/-! ### Decoding -/

/-- Six more bits. -/
def tailByte (c : Nat) : Take UInt8 Nat := do
  let b ← item
  if 0x80 ≤ b.toNat ∧ b.toNat < 0xc0 then return c * 64 + (b.toNat - 0x80) else failure

/-- A code point of the basic plane that needs this many bytes. -/
def plane (least c : Nat) : Take UInt8 JsString :=
  if least ≤ c ∧ c < 0x10000 ∧ isSurrogate (UInt16.ofNat c) = false then return [UInt16.ofNat c]
  else failure

def surrogatePair (c : Nat) : Take UInt8 JsString :=
  if 0x10000 ≤ c ∧ c < 0x110000 then
    return [UInt16.ofNat (0xd800 + (c - 0x10000) / 1024),
      UInt16.ofNat (0xdc00 + (c - 0x10000) % 1024)]
  else failure

def codePoint : Take UInt8 JsString := do
  let b ← item
  let c := b.toNat
  if c < 0x80 then plane 0 c
  else if c < 0xc0 then failure
  else if c < 0xe0 then
    let c ← tailByte (c - 0xc0)
    plane 0x80 c
  else if c < 0xf0 then
    let c ← tailByte (c - 0xe0)
    let c ← tailByte c
    plane 0x800 c
  else if c < 0xf8 then
    let c ← tailByte (c - 0xf0)
    let c ← tailByte c
    let c ← tailByte c
    surrogatePair c
  else failure

/-- Code point after code point; `fuel` only has to be the number of bytes. -/
def decodeFrom : Nat → List UInt8 → Option JsString
  | _, [] => some []
  | 0, _ => none
  | fuel + 1, bs => do
    let (s, rest) ← codePoint bs
    let t ← decodeFrom fuel rest
    return s ++ t

def utf8Decode (bs : List UInt8) : Option JsString := decodeFrom bs.length bs

/-! ### A string comes back -/

theorem toNat_byteOf {n : Nat} (h : n < 256) : (byteOf n).toNat = n := by
  show n % 256 = n
  omega

theorem tailByte_takes {c n : Nat} (h : n < 64) :
    Takes (tailByte c) [byteOf (0x80 + n)] (c * 64 + n) := by
  refine (Takes.item _).last ?_
  have hb : (byteOf (0x80 + n)).toNat = 0x80 + n := toNat_byteOf (by omega)
  rw [hb, if_pos (by omega), Nat.add_sub_cancel_left]
  exact .pure _

theorem plane_takes {least : Nat} {u : UInt16} (h : least ≤ u.toNat) (hs : isSurrogate u = false) :
    Takes (plane least u.toNat) [] [u] := by
  have hu : u.toNat < 0x10000 := u.toNat_lt
  unfold plane
  rw [UInt16.ofNat_toNat, if_pos ⟨h, hu, hs⟩]
  exact .pure _

/-- The first byte. -/
theorem codePoint_takes {n : Nat} {bs : List UInt8} {s : JsString} (h : n < 256)
    (hs : Takes (if n < 0x80 then plane 0 n
      else if n < 0xc0 then failure
      else if n < 0xe0 then tailByte (n - 0xc0) >>= plane 0x80
      else if n < 0xf0 then tailByte (n - 0xe0) >>= fun c => tailByte c >>= plane 0x800
      else if n < 0xf8 then
        tailByte (n - 0xf0) >>= fun c => tailByte c >>= fun c => tailByte c >>= surrogatePair
      else failure) bs s) : Takes codePoint (byteOf n :: bs) s := by
  have hb := toNat_byteOf h
  refine (Takes.item (byteOf n)).bind ?_
  rw [hb]
  exact hs

theorem codePoint_unit {u : UInt16} (hs : isSurrogate u = false) :
    Takes codePoint (utf8Unit u.toNat) [u] := by
  have hu : u.toNat < 65536 := u.toNat_lt
  generalize hc : u.toNat = c at hu
  unfold utf8Unit
  split
  · next h =>
    refine codePoint_takes (by omega) ?_
    rw [if_pos h, ← hc]
    exact plane_takes (Nat.zero_le _) hs
  · split
    · next h₁ h =>
      refine codePoint_takes (by omega) ?_
      rw [if_neg (by omega), if_neg (by omega), if_pos (by omega), Nat.add_sub_cancel_left]
      refine (tailByte_takes (by omega)).last ?_
      rw [show c / 64 * 64 + c % 64 = u.toNat by omega]
      exact plane_takes (by omega) hs
    · next h₁ h =>
      refine codePoint_takes (by omega) ?_
      rw [if_neg (by omega), if_neg (by omega), if_neg (by omega), if_pos (by omega),
        Nat.add_sub_cancel_left]
      refine (tailByte_takes (by omega)).bind ((tailByte_takes (by omega)).last ?_)
      rw [show (c / 4096 * 64 + c / 64 % 64) * 64 + c % 64 = u.toNat by omega]
      exact plane_takes (by omega) hs

theorem codePoint_pair {u v : UInt16} (hu : isHigh u) (hv : isLow v) :
    Takes codePoint (utf8Pair u v) [u, v] := by
  unfold isHigh at hu
  unfold isLow at hv
  rw [decide_eq_true_eq] at hu hv
  unfold utf8Pair
  dsimp only
  generalize hc : 0x10000 + (u.toNat - 0xd800) * 1024 + (v.toNat - 0xdc00) = c
  have hlo : 0x10000 ≤ c := by omega
  have hhi : c < 0x110000 := by omega
  refine codePoint_takes (by omega) ?_
  rw [if_neg (by omega), if_neg (by omega), if_neg (by omega), if_neg (by omega),
    if_pos (by omega), Nat.add_sub_cancel_left]
  refine (tailByte_takes (by omega)).bind ((tailByte_takes (by omega)).bind
    ((tailByte_takes (by omega)).last ?_))
  rw [show ((c / 262144 * 64 + c / 4096 % 64) * 64 + c / 64 % 64) * 64 + c % 64 = c by omega]
  unfold surrogatePair
  have hhigh : UInt16.ofNat (0xd800 + (c - 0x10000) / 1024) = u := by
    rw [show 0xd800 + (c - 0x10000) / 1024 = u.toNat by omega, UInt16.ofNat_toNat]
  have hlow : UInt16.ofNat (0xdc00 + (c - 0x10000) % 1024) = v := by
    rw [show 0xdc00 + (c - 0x10000) % 1024 = v.toNat by omega, UInt16.ofNat_toNat]
  rw [if_pos ⟨hlo, hhi⟩, hhigh, hlow]
  exact .pure _

theorem decodeFrom_takes {fuel : Nat} {b : UInt8} {bs rest : List UInt8} {s t : JsString}
    (h : Takes codePoint (b :: bs) s) (ht : decodeFrom fuel rest = some t) :
    decodeFrom (fuel + 1) (b :: bs ++ rest) = some (s ++ t) := by
  show (codePoint (b :: bs ++ rest) >>= fun p => decodeFrom fuel p.2 >>= fun t => _) = _
  rw [h rest]
  show (decodeFrom fuel rest >>= fun t => _) = _
  rw [ht]
  rfl

/-- A code point and what follows it. -/
theorem decodeFrom_cons {fuel : Nat} {xs rest : List UInt8} {s t : JsString}
    (h : Takes codePoint xs s) (hx : xs ≠ []) (hf : (xs ++ rest).length ≤ fuel)
    (ht : ∀ fuel, rest.length ≤ fuel → decodeFrom fuel rest = some t) :
    decodeFrom fuel (xs ++ rest) = some (s ++ t) := by
  obtain ⟨b, bs, rfl⟩ := List.exists_cons_of_ne_nil hx
  rw [List.length_append, List.length_cons] at hf
  cases fuel with
  | zero => omega
  | succ fuel => exact decodeFrom_takes h (ht fuel (by omega))

theorem utf8Unit_ne_nil (c : Nat) : utf8Unit c ≠ [] := by
  unfold utf8Unit
  split
  · exact List.cons_ne_nil _ _
  · split
    · exact List.cons_ne_nil _ _
    · exact List.cons_ne_nil _ _

theorem decodeFrom_utf8 : ∀ s : JsString, isWellFormed s → ∀ fuel, (utf8 s).length ≤ fuel →
    decodeFrom fuel (utf8 s) = some s
  | [], _, fuel, _ => by cases fuel <;> rfl
  | [u], h, fuel, hf => by
    have hu : isSurrogate u = false := (Bool.not_eq_true' _).mp h
    have hutf : utf8 [u] = utf8Unit u.toNat ++ [] := by
      show (if isSurrogate u then _ else _) = _
      rw [if_neg (Bool.eq_false_iff.mp hu), List.append_nil]
    rw [hutf] at hf ⊢
    exact decodeFrom_cons (codePoint_unit hu) (utf8Unit_ne_nil _) hf fun fuel _ => by
      cases fuel <;> rfl
  | u :: v :: rest, h, fuel, hf => by
    unfold isWellFormed at h
    unfold utf8 at hf ⊢
    by_cases hp : isHigh u && isLow v
    · rw [if_pos hp] at h hf ⊢
      obtain ⟨hu, hv⟩ := Bool.and_eq_true_iff.mp hp
      exact decodeFrom_cons (codePoint_pair hu hv) (List.cons_ne_nil _ _) hf
        (decodeFrom_utf8 rest h)
    · rw [if_neg hp] at h hf ⊢
      obtain ⟨hu, hrest⟩ := Bool.and_eq_true_iff.mp h
      have hs : isSurrogate u = false := (Bool.not_eq_true' _).mp hu
      have hutf : (if isHigh u || isLow u then utf8Unit 0xfffd else utf8Unit u.toNat) =
          utf8Unit u.toNat := if_neg (Bool.eq_false_iff.mp hs)
      rw [hutf] at hf ⊢
      exact decodeFrom_cons (codePoint_unit hs) (utf8Unit_ne_nil _) hf
        (decodeFrom_utf8 (v :: rest) hrest)

/-- **A well-formed string comes back.** -/
theorem utf8Decode_utf8 {s : JsString} (h : isWellFormed s) : utf8Decode (utf8 s) = some s :=
  decodeFrom_utf8 s h _ (Nat.le_refl _)

/-! ### What is decoded -/

/-- What stands for a code point. -/
inductive IsCodePoint : JsString → Prop
  | unit {u : UInt16} : isSurrogate u = false → IsCodePoint [u]
  | pair {u v : UInt16} : isHigh u → isLow v → IsCodePoint [u, v]

theorem isWellFormed_append {s t : JsString} (hs : IsCodePoint s) (ht : isWellFormed t) :
    isWellFormed (s ++ t) := by
  cases hs with
  | @unit u hu =>
    cases t with
    | nil => exact (Bool.not_eq_true' _).mpr hu
    | cons v rest =>
      have hh : isHigh u = false := (Bool.or_eq_false_iff.mp hu).1
      show (if isHigh u && isLow v then _ else !isSurrogate u && isWellFormed (v :: rest)) = true
      rw [hh, hu]
      exact ht
  | @pair u v hu hv =>
    show (if isHigh u && isLow v then isWellFormed t else _) = true
    rw [hu, hv]
    exact ht

variable {S : UInt8 → Prop}

theorem plane_gives {least c : Nat} (h : ¬S 0 → least ≤ c → 0 < c) :
    Gives S (plane least c) fun s => IsCodePoint s ∧ (¬S 0 → 0 ∉ s) := by
  refine .ite (fun hc => .pure ⟨.unit hc.2.2, fun hS h0 => ?_⟩) fun _ => .failure
  have hu : (UInt16.ofNat c).toNat = c := UInt16.toNat_ofNat_of_lt' hc.2.1
  have hpos := h hS hc.1
  rw [← List.mem_singleton.mp h0] at hu
  have h0 : (0 : UInt16).toNat = 0 := rfl
  omega

theorem tailByte_gives (c : Nat) : Gives S (tailByte c) fun _ => True :=
  Gives.item.bind fun _ _ => .ite (fun _ => .pure trivial) fun _ => .failure

theorem surrogatePair_gives (c : Nat) :
    Gives S (surrogatePair c) fun s => IsCodePoint s ∧ (¬S 0 → 0 ∉ s) := by
  refine .ite (fun h => .pure ?_) fun _ => .failure
  have hsize : ∀ n < 0x10000, (UInt16.ofNat n).toNat = n := fun n hn =>
    UInt16.toNat_ofNat_of_lt' hn
  have hu := hsize (0xd800 + (c - 0x10000) / 1024) (by omega)
  have hv := hsize (0xdc00 + (c - 0x10000) % 1024) (by omega)
  have h0 : (0 : UInt16).toNat = 0 := rfl
  refine ⟨.pair ?_ ?_, fun _ hm => ?_⟩
  · unfold isHigh
    rw [hu, decide_eq_true_eq]
    omega
  · unfold isLow
    rw [hv, decide_eq_true_eq]
    omega
  · rcases List.mem_cons.mp hm with hm | hm
    · rw [← hm] at hu
      omega
    · rw [← List.mem_singleton.mp hm] at hv
      omega

theorem codePoint_gives :
    Gives S codePoint fun s => IsCodePoint s ∧ (¬S 0 → 0 ∉ s) := by
  refine Gives.item.bind fun b hb => ?_
  refine .ite (fun _ => plane_gives fun hS _ => ?_) fun _ => .ite (fun _ => .failure) fun _ =>
    .ite (fun _ => ?_) fun _ => .ite (fun _ => ?_) fun _ => .ite (fun _ => ?_) fun _ => .failure
  · by_contra hn
    have hz : b = 0 := UInt8.toNat_inj.mp (Nat.le_zero.mp (Nat.not_lt.mp hn))
    exact hS (hz ▸ hb)
  · refine (tailByte_gives _).bind fun c _ => plane_gives fun _ hc => ?_
    omega
  · refine (tailByte_gives _).bind fun c _ => (tailByte_gives c).bind fun c _ =>
      plane_gives fun _ hc => ?_
    omega
  · exact (tailByte_gives _).bind fun c _ => (tailByte_gives c).bind fun c _ =>
      (tailByte_gives c).bind fun c _ => surrogatePair_gives c

theorem decodeFrom_gives : ∀ {fuel : Nat} {bs : List UInt8} {s : JsString},
    decodeFrom fuel bs = some s → isWellFormed s ∧ (0 ∉ bs → 0 ∉ s)
  | fuel, [], s, h => by
    have hs : s = [] := by
      cases fuel <;> exact (Option.some.inj h).symm
    rw [hs]
    exact ⟨rfl, fun _ => List.not_mem_nil⟩
  | 0, _ :: _, _, h => nomatch h
  | fuel + 1, b :: bs, s, h => by
    obtain ⟨⟨x, rest⟩, hx, h⟩ := Option.bind_eq_some_iff.mp h
    obtain ⟨t, ht, h⟩ := Option.bind_eq_some_iff.mp h
    obtain rfl : x ++ t = s := Option.some.inj h
    obtain ⟨hwf, hnul⟩ := decodeFrom_gives ht
    have hbytes : ∀ c ∈ b :: bs, c ∈ b :: bs := fun _ hc => hc
    obtain ⟨⟨hcode, hx0⟩, hrest⟩ := codePoint_gives _ _ _ hbytes hx
    refine ⟨isWellFormed_append hcode hwf, fun h0 hm => ?_⟩
    rcases List.mem_append.mp hm with hm | hm
    · exact hx0 h0 hm
    · exact hnul (fun hr => h0 (hrest 0 hr)) hm

/-- **What is decoded.** -/
theorem utf8Decode_gives {bs : List UInt8} {s : JsString} (h : utf8Decode bs = some s) :
    isWellFormed s ∧ (0 ∉ bs → 0 ∉ s) := decodeFrom_gives h

/-! ### Bytes that are not 0 -/

theorem byteOf_ne_zero {n : Nat} (h : 0 < n) (hn : n < 256) : (0 : UInt8) ≠ byteOf n := by
  intro he
  have hz := toNat_byteOf hn
  rw [← he] at hz
  have h0 : (0 : UInt8).toNat = 0 := rfl
  omega

theorem utf8Unit_noNul {c : Nat} (h : 0 < c) (hc : c < 65536) : 0 ∉ utf8Unit c := by
  unfold utf8Unit
  split
  · simpa using byteOf_ne_zero h (by omega)
  · split
    · simp only [List.mem_cons, List.not_mem_nil, or_false, not_or]
      exact ⟨byteOf_ne_zero (by omega) (by omega), byteOf_ne_zero (by omega) (by omega)⟩
    · simp only [List.mem_cons, List.not_mem_nil, or_false, not_or]
      exact ⟨byteOf_ne_zero (by omega) (by omega), byteOf_ne_zero (by omega) (by omega),
        byteOf_ne_zero (by omega) (by omega)⟩

theorem utf8Pair_noNul {u v : UInt16} (hu : isHigh u) (hv : isLow v) : 0 ∉ utf8Pair u v := by
  unfold isHigh at hu
  unfold isLow at hv
  rw [decide_eq_true_eq] at hu hv
  unfold utf8Pair
  simp only [List.mem_cons, List.not_mem_nil, or_false, not_or]
  exact ⟨byteOf_ne_zero (by omega) (by omega), byteOf_ne_zero (by omega) (by omega),
    byteOf_ne_zero (by omega) (by omega), byteOf_ne_zero (by omega) (by omega)⟩

theorem utf8Lone_noNul {u : UInt16} (h : 0 ≠ u) :
    0 ∉ (if isHigh u || isLow u then utf8Unit 0xfffd else utf8Unit u.toNat) := by
  have hpos : 0 < u.toNat := Nat.pos_of_ne_zero fun hz => h (UInt16.toNat_inj.mp hz).symm
  split
  · exact utf8Unit_noNul (by decide) (by decide)
  · exact utf8Unit_noNul hpos u.toNat_lt

/-- Only U+0000 has a byte 0. -/
theorem utf8_noNul : ∀ {s : JsString}, 0 ∉ s → 0 ∉ utf8 s
  | [], _ => List.not_mem_nil
  | [u], h => utf8Lone_noNul (List.ne_of_not_mem_cons h)
  | u :: v :: rest, h => by
    have hu : 0 ≠ u := List.ne_of_not_mem_cons h
    have htail : 0 ∉ v :: rest := List.not_mem_of_not_mem_cons h
    unfold utf8
    split
    · next hp =>
      obtain ⟨hh, hl⟩ := Bool.and_eq_true_iff.mp hp
      exact List.not_mem_append (utf8Pair_noNul hh hl)
        (utf8_noNul fun hm => htail (List.mem_cons_of_mem v hm))
    · exact List.not_mem_append (utf8Lone_noNul hu) (utf8_noNul htail)

/-! ### One text after the other -/

/-- What follows does not complete a pair. -/
theorem utf8_append : ∀ (s : JsString) {t : JsString}, (∀ u ∈ t.head?, isLow u = false) →
    utf8 (s ++ t) = utf8 s ++ utf8 t
  | [], _, _ => rfl
  | [u], [], _ => (List.append_nil _).symm
  | [u], v :: rest, h => by
    have hv : isLow v = false := h v rfl
    show (if isHigh u && isLow v then _ else _) = _
    rw [hv, Bool.and_false]
    rfl
  | u :: v :: rest, t, h => by
    show (if isHigh u && isLow v then utf8Pair u v ++ utf8 (rest ++ t)
      else _ ++ utf8 (v :: rest ++ t)) = (if isHigh u && isLow v then _ else _) ++ utf8 t
    rw [utf8_append rest h, utf8_append (v :: rest) h]
    split
    · rw [List.append_assoc]
    · rw [List.append_assoc]

/-- What a test finds of every unit of a text. -/
theorem forall_of_all {p : UInt16 → Prop} [DecidablePred p] {s : JsString}
    (h : s.all (fun u => decide (p u)) = true) : ∀ u ∈ s, p u := by
  intro u hu
  exact of_decide_eq_true (List.all_eq_true.mp h u hu)

/-- A code unit of ASCII. -/
def IsAscii (u : UInt16) : Prop := u.toNat < 128

instance (u : UInt16) : Decidable (IsAscii u) := inferInstanceAs (Decidable (_ < _))

theorem IsAscii.not_surrogate {u : UInt16} (h : IsAscii u) :
    isHigh u = false ∧ isLow u = false := by
  unfold IsAscii at h
  constructor
  · exact decide_eq_false fun hu => by omega
  · exact decide_eq_false fun hu => by omega

theorem utf8_cons_ascii {u : UInt16} (h : IsAscii u) (t : JsString) :
    utf8 (u :: t) = byteOf u.toNat :: utf8 t := by
  obtain ⟨hhigh, hlow⟩ := h.not_surrogate
  have hone : (if isHigh u || isLow u then utf8Unit 0xfffd else utf8Unit u.toNat) =
      [byteOf u.toNat] := by
    rw [hhigh, hlow]
    exact if_pos h
  cases t with
  | nil => exact hone
  | cons v rest =>
    show (if isHigh u && isLow v then _ else _ ++ utf8 (v :: rest)) = _
    rw [hone, hhigh]
    rfl

theorem utf8_ascii : ∀ {s : JsString}, (∀ u ∈ s, IsAscii u) → utf8 s = latin1 s
  | [], _ => rfl
  | u :: s, h => by
    rw [utf8_cons_ascii (h u List.mem_cons_self),
      utf8_ascii fun v hv => h v (List.mem_cons_of_mem u hv)]
    rfl

/-! ### Bytes that are not ASCII -/

theorem utf8Unit_high {c : Nat} (h : 128 ≤ c) (hc : c < 65536) :
    ∀ b ∈ utf8Unit c, 128 ≤ b.toNat := by
  unfold utf8Unit
  rw [if_neg (by omega)]
  split
  · intro b hb
    simp only [List.mem_cons, List.not_mem_nil, or_false] at hb
    rcases hb with rfl | rfl
    · rw [toNat_byteOf (by omega)]
      omega
    · rw [toNat_byteOf (by omega)]
      omega
  · intro b hb
    simp only [List.mem_cons, List.not_mem_nil, or_false] at hb
    rcases hb with rfl | rfl | rfl
    · rw [toNat_byteOf (by omega)]
      omega
    · rw [toNat_byteOf (by omega)]
      omega
    · rw [toNat_byteOf (by omega)]
      omega

theorem utf8Pair_high {u v : UInt16} (hu : isHigh u) (hv : isLow v) :
    ∀ b ∈ utf8Pair u v, 128 ≤ b.toNat := by
  have hu' : 0xd800 ≤ u.toNat ∧ u.toNat ≤ 0xdbff := of_decide_eq_true hu
  have hv' : 0xdc00 ≤ v.toNat ∧ v.toNat ≤ 0xdfff := of_decide_eq_true hv
  intro b hb
  unfold utf8Pair at hb
  simp only [List.mem_cons, List.not_mem_nil, or_false] at hb
  rcases hb with rfl | rfl | rfl | rfl <;>
    · rw [toNat_byteOf (by omega)]
      omega

/-- A code unit on its own. -/
def unitBytes (u : UInt16) : List UInt8 :=
  if isHigh u || isLow u then utf8Unit 0xfffd else utf8Unit u.toNat

theorem unitBytes_high {u : UInt16} (h : ¬IsAscii u) : ∀ b ∈ unitBytes u, 128 ≤ b.toNat := by
  have hge : 128 ≤ u.toNat := Nat.not_lt.mp h
  have hlt := u.toNat_lt
  unfold unitBytes
  split
  · exact utf8Unit_high (by omega) (by omega)
  · exact utf8Unit_high hge (by omega)

theorem utf8_cons {u : UInt16} {s : JsString}
    (h : isHigh u = false ∨ ∀ v ∈ s.head?, isLow v = false) :
    utf8 (u :: s) = unitBytes u ++ utf8 s := by
  cases s with
  | nil => exact (List.append_nil _).symm
  | cons v s =>
    have hno : (isHigh u && isLow v) = false := by
      rcases h with h | h
      · rw [h, Bool.false_and]
      · rw [h v rfl, Bool.and_false]
    show (if isHigh u && isLow v then _ else unitBytes u ++ utf8 (v :: s)) = _
    rw [hno]
    rfl

/-- The first byte of a character that is not ASCII. -/
theorem utf8_head_high {u : UInt16} (h : ¬IsAscii u) (s : JsString) :
    ∃ c bs, utf8 (u :: s) = c :: bs ∧ 128 ≤ c.toNat := by
  have hone : ∀ t : List UInt8, ∃ c bs, unitBytes u ++ t = c :: bs ∧ 128 ≤ c.toNat := by
    intro t
    have hne : unitBytes u ≠ [] := by
      unfold unitBytes
      split
      · exact utf8Unit_ne_nil _
      · exact utf8Unit_ne_nil _
    obtain ⟨c, bs, hcons⟩ := List.exists_cons_of_ne_nil hne
    refine ⟨c, bs ++ t, by rw [hcons]; rfl, unitBytes_high h c ?_⟩
    rw [hcons]
    exact List.mem_cons_self
  cases s with
  | nil =>
    obtain ⟨c, bs, hcons, hhigh⟩ := hone []
    rw [List.append_nil] at hcons
    exact ⟨c, bs, hcons, hhigh⟩
  | cons v s =>
    by_cases hpair : (isHigh u && isLow v) = true
    · have hbytes : utf8 (u :: v :: s) = utf8Pair u v ++ utf8 s := if_pos hpair
      obtain ⟨hu, hv⟩ := Bool.and_eq_true_iff.mp hpair
      rw [hbytes]
      exact ⟨_, _, rfl, utf8Pair_high hu hv _ List.mem_cons_self⟩
    · have hbytes : utf8 (u :: v :: s) = unitBytes u ++ utf8 (v :: s) := if_neg hpair
      rw [hbytes]
      exact hone _

/-- A well-formed string goes on behind its first character. -/
theorem wellFormed_cons {u : UInt16} {s : JsString} (h : isWellFormed (u :: s)) :
    isSurrogate u = false ∧ isWellFormed s ∧ utf8 (u :: s) = utf8Unit u.toNat ++ utf8 s ∨
      ∃ v t, s = v :: t ∧ isHigh u ∧ isLow v ∧ isWellFormed t ∧
        utf8 (u :: s) = utf8Pair u v ++ utf8 t := by
  cases s with
  | nil =>
    have hu : isSurrogate u = false := (Bool.not_eq_true' _).mp h
    refine .inl ⟨hu, rfl, ?_⟩
    show (if isSurrogate u then _ else _) = _
    rw [hu]
    exact (List.append_nil _).symm
  | cons v t =>
    have h : (if isHigh u && isLow v then isWellFormed t
      else !isSurrogate u && isWellFormed (v :: t)) = true := h
    by_cases hpair : (isHigh u && isLow v) = true
    · rw [if_pos hpair] at h
      obtain ⟨hu, hv⟩ := Bool.and_eq_true_iff.mp hpair
      exact .inr ⟨v, t, rfl, hu, hv, h, if_pos hpair⟩
    · rw [if_neg hpair] at h
      obtain ⟨hu, ht⟩ := Bool.and_eq_true_iff.mp h
      have hu : isSurrogate u = false := (Bool.not_eq_true' _).mp hu
      refine .inl ⟨hu, ht, ?_⟩
      have hbytes : utf8 (u :: v :: t) =
          (if isSurrogate u then utf8Unit 0xfffd else utf8Unit u.toNat) ++ utf8 (v :: t) :=
        if_neg hpair
      rw [hbytes, hu]
      rfl

theorem wellFormed_ascii {u : UInt16} (hu : IsAscii u) {s : JsString} :
    isWellFormed (u :: s) = isWellFormed s := by
  obtain ⟨hhigh, hlow⟩ := hu.not_surrogate
  cases s with
  | nil =>
    show (!isSurrogate u) = true
    unfold isSurrogate
    rw [hhigh, hlow]
    rfl
  | cons v t =>
    show (if isHigh u && isLow v then _ else !isSurrogate u && isWellFormed (v :: t)) = _
    unfold isSurrogate
    rw [hhigh, hlow]
    rfl

theorem wellFormed_of_ascii {s : JsString} (hs : ∀ u ∈ s, IsAscii u) : isWellFormed s := by
  induction s with
  | nil => rfl
  | cons u s ih =>
    rw [wellFormed_ascii (hs u List.mem_cons_self)]
    exact ih fun v hv => hs v (List.mem_cons_of_mem u hv)

theorem wellFormed_append_ascii {s : JsString} (hs : isWellFormed s) {u : UInt16} (hu : IsAscii u) :
    isWellFormed (s ++ [u]) := by
  have hlast : isWellFormed [u] = true := wellFormed_ascii hu
  generalize hn : s.length = n
  induction n using Nat.strongRecOn generalizing s with
  | ind n ih =>
    subst hn
    cases s with
    | nil => exact hlast
    | cons v s =>
      rcases wellFormed_cons hs with ⟨hv, ht, -⟩ | ⟨v', t, rfl, hv, hv', ht, -⟩
      · have hrest := ih s.length (Nat.lt_succ_self _) ht rfl
        exact @isWellFormed_append [v] _ (.unit hv) hrest
      · have hrest := ih t.length (by simp only [List.length_cons]; omega) ht rfl
        exact @isWellFormed_append [v, v'] _ (.pair hv hv') hrest

end Minipg.Js
