import Mathlib.Data.List.Induction
import Minipg.Wire.Spans

/-!
# Messages as views

`Parser.push` cuts the same messages out of a buffer as the parser on bytes does (`pushLoop_all`),
and the body of each with the five bytes before it is the message as it was sent (`IsCut`).
-/

namespace Minipg.Spans

/-! ### The bytes of a message -/

def frameBytes (m : RawMessage) : Bytes :=
  UInt8.ofNat m.type.toNat :: int32BE (m.body.length + 4) ++ m.body

theorem int32BE_readUInt {x : Bytes} (h : x.length = 4) : int32BE (readUInt x) = x := by
  match x, h with
  | [a, b, c, d], _ =>
    have ha := a.toNat_lt
    have hb := b.toNat_lt
    have hc := c.toNat_lt
    have hd := d.toNat_lt
    simp only [int32BE, readUInt, List.foldl_cons, List.foldl_nil, List.cons.injEq, and_true,
      ← UInt8.toNat_inj, UInt8.toNat_ofNat']
    refine ⟨?_, ?_, ?_, ?_⟩ <;> omega

theorem readUInt_lt (x : Bytes) : readUInt x < 256 ^ x.length := by
  induction x using List.reverseRecOn with
  | nil => decide
  | append_singleton x b ih =>
    have hb := b.toNat_lt
    rw [readUInt, List.foldl_append, List.foldl_cons, List.foldl_nil, List.length_append,
      List.length_singleton, Nat.pow_succ]
    rw [readUInt] at ih
    omega

/-- A length that the parser accepts is not negative. -/
theorem toNat_readInt32BE {bs : Bytes} {off : Nat} (h : 4 ≤ readInt32BE bs off) :
    (readInt32BE bs off).toNat = readUInt ((bs.drop off).take 4) := by
  have hlt := readUInt_lt ((bs.drop off).take 4)
  have hfour : ((bs.drop off).take 4).length ≤ 4 := List.length_take_le ..
  have hpow := Nat.pow_le_pow_right (by decide : 0 < 256) hfour
  rw [readInt32BE] at h ⊢
  split at h
  next hsmall => rw [if_pos hsmall, Int.toNat_natCast]
  next => omega

theorem toNat_ofNat {n : Nat} (h : n < 256) : (Char.ofNat n).toNat = n := by
  have hvalid : n.isValidChar := .inl (by omega)
  rw [Char.ofNat, dif_pos hvalid]
  rfl

/-- What a message is cut out of are its bytes. -/
theorem nextMessage_bytes {bs rest : Bytes} {m : RawMessage}
    (h : Parser.nextMessage bs = some (m, rest)) :
    frameBytes m = bs.take ((readInt32BE bs 1).toNat + 1) := by
  obtain ⟨h5, h4, ht, rfl, rfl⟩ := Parser.nextMessage_eq_some h
  have htotal := toNat_readInt32BE h4
  have hleast : 4 ≤ (readInt32BE bs 1).toNat := by omega
  generalize (readInt32BE bs 1).toNat = len at ht htotal hleast ⊢
  match bs, h5 with
  | b :: bs, h5 =>
    have hfour : (bs.take 4).length = 4 := by
      rw [List.length_take, Nat.min_eq_left]
      exact Nat.le_of_succ_le_succ h5
    have hbody : subarray (b :: bs) 5 (len + 1) = (bs.take len).drop 4 := rfl
    have hlen : (subarray (b :: bs) 5 (len + 1)).length + 4 = len := by
      rw [hbody, List.length_drop, List.length_take]
      rw [List.length_cons] at ht
      omega
    have hhead : int32BE len = (bs.take len).take 4 := by
      have hlen : len = readUInt (bs.take 4) := htotal
      rw [List.take_take, Nat.min_eq_left hleast, hlen]
      exact int32BE_readUInt hfour
    have htag : UInt8.ofNat (Char.ofNat b.toNat).toNat = b := by
      rw [toNat_ofNat b.toNat_lt, UInt8.ofNat_toNat]
    rw [frameBytes, hlen, hbody, hhead]
    show UInt8.ofNat (Char.ofNat b.toNat).toNat :: (_ ++ _) = b :: bs.take len
    rw [htag, List.take_append_drop]

/-! ### What `push` cuts out -/

/-- A message whose frame is held, and reads as the bytes it was cut out of. -/
structure IsCut (mem : Memory UInt8) (m : Message) : Prop where
  header : 5 ≤ m.body.byteOffset
  held : mem.Holds m.frame
  bytes : mem.read m.frame = frameBytes (m.raw mem)

namespace IsCut

variable {mem : Memory UInt8} {m : Message}

theorem body (h : IsCut mem m) : mem.Holds m.body := by
  rintro buffer offset ⟨hb, hlo, hhi⟩
  refine h.held buffer offset ⟨hb, ?_, ?_⟩
  · show m.body.byteOffset - 5 ≤ offset
    omega
  · have hhi : offset < m.body.byteOffset + m.body.length := hhi
    show offset < m.body.byteOffset - 5 + (m.body.length + 5)
    omega

/-- Writing elsewhere leaves it. -/
theorem put (h : IsCut mem m) {buffer byteOffset : Nat} {xs : Bytes}
    (hfree : mem.isFree ⟨buffer, byteOffset, xs.length⟩ = true) :
    IsCut (mem.put buffer byteOffset xs) m ∧
      m.raw (mem.put buffer byteOffset xs) = m.raw mem := by
  have hraw : m.raw (mem.put buffer byteOffset xs) = m.raw mem := by
    rw [Message.raw, Message.raw, Memory.read_put h.body hfree]
  refine ⟨⟨h.header, h.held.put, ?_⟩, hraw⟩
  rw [Memory.read_put h.held hfree, h.bytes, hraw]

end IsCut

section Push

variable {mem : Memory UInt8} {buf : Region}

theorem read_sub_eq {start stop : Nat} (hle : start ≤ stop) (hstop : stop ≤ buf.length) :
    mem.read (buf.sub start stop) = subarray (mem.read buf) start stop :=
  mem.read_sub buf hle hstop

/-- The message that one round of the loop cuts out. -/
theorem isCut_round (hbuf : mem.Holds buf) {off : Nat} (h5 : 5 ≤ buf.length - off)
    (h4 : ¬ readInt32BE (mem.read buf) (off + 1) < 4)
    (ht : ¬ buf.length - off < (readInt32BE (mem.read buf) (off + 1)).toNat + 1) :
    IsCut mem ⟨Char.ofNat ((mem.read buf).getD off 0).toNat,
      buf.sub (off + 5) (off + ((readInt32BE (mem.read buf) (off + 1)).toNat + 1))⟩ := by
  have hlen : (mem.read buf).length = buf.length := mem.length_read buf
  have hdrop : ((mem.read buf).drop off).length = buf.length - off := by
    rw [List.length_drop, hlen]
  have hread := Parser.readInt32BE_drop (mem.read buf) off 1
  have hnext : Parser.nextMessage ((mem.read buf).drop off) = _ :=
    Parser.nextMessage_of_le (by omega) (by omega) (by omega)
  have hbytes := nextMessage_bytes hnext
  have hhead : ((mem.read buf).drop off).getD 0 0 = (mem.read buf).getD off 0 := by
    simp [List.getD_eq_getElem?_getD, List.getElem?_drop]
  rw [hread, hhead] at hbytes
  have hleast : 4 ≤ (readInt32BE (mem.read buf) (off + 1)).toNat := by omega
  generalize (readInt32BE (mem.read buf) (off + 1)).toNat = len at ht hbytes hleast ⊢
  have hbody : subarray ((mem.read buf).drop off) 5 (len + 1) =
      subarray (mem.read buf) (off + 5) (off + (len + 1)) := by
    rw [subarray, subarray, List.take_drop, List.drop_drop]
  have hframe : ∀ c, Message.frame ⟨c, buf.sub (off + 5) (off + (len + 1))⟩ =
      buf.sub off (off + (len + 1)) := by
    intro c
    rw [Message.frame, Region.sub, Region.sub, Region.mk.injEq]
    refine ⟨rfl, ?_, ?_⟩ <;> dsimp only <;> omega
  refine ⟨?_, ?_, ?_⟩
  · show 5 ≤ buf.byteOffset + (off + 5)
    omega
  · rw [hframe]
    exact hbuf.sub (by omega)
  · rw [hframe, read_sub_eq (by omega) (by omega), Message.raw,
      read_sub_eq (by omega) (by omega), ← hbody, hbytes, subarray, List.take_drop]

/-- **The loop on views** cuts what the loop on bytes cuts. -/
theorem pushLoop_cut (hbuf : mem.Holds buf) (fuel : Nat) : ∀ {off out o ms}, off ≤ buf.length →
    (∀ m ∈ out, IsCut mem m) → pushLoop mem buf fuel off out = .ok (o, ms) →
    (∀ m ∈ ms, IsCut mem m) ∧
      Parser.pushLoop (mem.read buf) fuel off (out.map (Message.raw mem)) =
        .ok (o, ms.map (Message.raw mem)) := by
  have hlen : (mem.read buf).length = buf.length := mem.length_read buf
  induction fuel with
  | zero =>
    intro off out o ms hoff hout h
    obtain ⟨rfl, rfl⟩ := Prod.mk.inj (Except.ok.inj h)
    exact ⟨hout, rfl⟩
  | succ fuel ih =>
    intro off out o ms hoff hout h
    rw [pushLoop] at h
    rw [Parser.pushLoop, hlen]
    dsimp only at h ⊢
    by_cases h5 : 5 ≤ buf.length - off
    · rw [if_pos h5] at h ⊢
      by_cases h4 : readInt32BE (mem.read buf) (off + 1) < 4
      · rw [if_pos h4] at h
        cases h
      · rw [if_neg h4] at h ⊢
        by_cases ht : buf.length - off < (readInt32BE (mem.read buf) (off + 1)).toNat + 1
        · rw [if_pos ht] at h ⊢
          obtain ⟨rfl, rfl⟩ := Prod.mk.inj (Except.ok.inj h)
          exact ⟨hout, rfl⟩
        · rw [if_neg ht] at h ⊢
          have hcut := isCut_round hbuf h5 h4 ht
          have hrest := ih (by omega) (by
            intro m hm
            rcases List.mem_append.mp hm with hm | hm
            · exact hout m hm
            · rw [List.mem_singleton.mp hm]
              exact hcut) h
          rw [List.map_append, List.map_singleton, Message.raw,
            read_sub_eq (by omega) (by omega)] at hrest
          exact hrest
    · rw [if_neg h5] at h ⊢
      obtain ⟨rfl, rfl⟩ := Prod.mk.inj (Except.ok.inj h)
      exact ⟨hout, rfl⟩

/-- All messages of a buffer, and where the rest of it begins. -/
theorem pushLoop_all (hbuf : mem.Holds buf) {o : Nat} {ms : List Message}
    (h : pushLoop mem buf buf.length 0 [] = .ok (o, ms)) :
    (∀ m ∈ ms, IsCut mem m) ∧ o ≤ buf.length ∧
      Parser.messages.drain (mem.read buf) =
        (ms.map (Message.raw mem), (mem.read buf).drop o) := by
  have hlen : (mem.read buf).length = buf.length := mem.length_read buf
  obtain ⟨hcut, hloop⟩ := pushLoop_cut hbuf buf.length (Nat.zero_le _)
    (fun _ hm => absurd hm List.not_mem_nil) h
  have hall := Parser.pushLoop_eq (mem.read buf) buf.length 0 [] (Nat.zero_le _) (by omega)
  rw [List.map_nil] at hloop
  rw [hloop, List.drop_zero, List.nil_append] at hall
  split at hall
  next => cases hall
  next =>
    obtain ⟨ho, hms⟩ := Prod.mk.inj (Except.ok.inj hall)
    have hdrop := List.suffix_iff_eq_drop.mp (Parser.drain_suffix (mem.read buf))
    refine ⟨hcut, by omega, Prod.ext hms.symm ?_⟩
    rw [hdrop, ← ho]

end Push

end Minipg.Spans
