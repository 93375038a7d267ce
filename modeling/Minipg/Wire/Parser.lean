import Minipg.Lib.Reader
import Minipg.Protocol

/-!
# Cutting chunks into messages

`Parser.push` of `src/protocol.ts` keeps the bytes that do not make a whole message yet.  One
round of its loop reads a message off the front of the buffer, so the parser is the `drain`
of a reader (`push_eq`) and emits the same messages for any division of a stream into chunks
(`push_chunks`).
-/

namespace Minipg

/-- The big-endian number of some bytes. -/
def readUInt (bs : Bytes) : Nat := bs.foldl (fun n b => n * 256 + b.toNat) 0

/-- `readInt32BE`. -/
def readInt32BE (buf : Bytes) (off : Nat) : Int :=
  let n := readUInt ((buf.drop off).take 4)
  if n < 2 ^ 31 then n else n - 2 ^ 32

structure RawMessage where
  type : Char
  body : Bytes
  deriving DecidableEq, Repr

/-- `buf.subarray(from, to)`. -/
def subarray (buf : Bytes) (start stop : Nat) : Bytes := (buf.take stop).drop start

def lengthError (len : Int) : JsError :=
  jsError ("invalid backend message length: " ++ toString len)

structure Parser where
  buf : Bytes := []
  deriving DecidableEq, Repr

namespace Parser

/-- The `while` loop of `push`: what it leaves in `off`, and `out`.  Every round moves `off`
forward, so `fuel` only has to be the length of the buffer. -/
def pushLoop (buf : Bytes) : Nat → Nat → List RawMessage → Except JsError (Nat × List RawMessage)
  | 0, off, out => .ok (off, out)
  | fuel + 1, off, out =>
    if 5 ≤ buf.length - off then
      let len := readInt32BE buf (off + 1)
      if len < 4 then .error (lengthError len)
      else
        let total := len.toNat + 1
        if buf.length - off < total then .ok (off, out)
        else
          pushLoop buf fuel (off + total) (out ++
            [⟨Char.ofNat (buf.getD off 0).toNat, subarray buf (off + 5) (off + total)⟩])
    else .ok (off, out)

/-- `push`.  A throw keeps the whole buffer and loses the messages before it. -/
def push (p : Parser) (chunk : Bytes) : Parser × Except JsError (List RawMessage) :=
  let buf := if p.buf.length ≠ 0 then p.buf ++ chunk else chunk
  match pushLoop buf buf.length 0 [] with
  | .error e => (⟨buf⟩, .error e)
  | .ok (off, out) => (⟨if off = buf.length then [] else buf.drop off⟩, .ok out)

/-- `push` chunk after chunk, up to the first throw; the messages of all calls. -/
def pushAll (p : Parser) : List Bytes → Parser × Except JsError (List RawMessage)
  | [] => (p, .ok [])
  | chunk :: chunks =>
    match p.push chunk with
    | (p, .error e) => (p, .error e)
    | (p, .ok out) =>
      match p.pushAll chunks with
      | (p, .error e) => (p, .error e)
      | (p, .ok more) => (p, .ok (out ++ more))

/-! ### One message -/

/-- The header at the front is complete, and its length is one the parser refuses. -/
def IsBad (bs : Bytes) : Prop := 5 ≤ bs.length ∧ readInt32BE bs 1 < 4

instance (bs : Bytes) : Decidable (IsBad bs) := inferInstanceAs (Decidable (_ ∧ _))

/-- One round of the loop at the front of what is left. -/
def nextMessage (bs : Bytes) : Option (RawMessage × Bytes) :=
  if 5 ≤ bs.length then
    if readInt32BE bs 1 < 4 then none
    else if bs.length < (readInt32BE bs 1).toNat + 1 then none
    else some (⟨Char.ofNat (bs.getD 0 0).toNat, subarray bs 5 ((readInt32BE bs 1).toNat + 1)⟩,
      bs.drop ((readInt32BE bs 1).toNat + 1))
  else none

theorem readInt32BE_append {bs : Bytes} {off : Nat} (h : off + 4 ≤ bs.length) (more : Bytes) :
    readInt32BE (bs ++ more) off = readInt32BE bs off := by
  unfold readInt32BE
  have hd : ((bs ++ more).drop off).take 4 = (bs.drop off).take 4 := by
    rw [List.drop_append_of_le_length (by omega), List.take_append_of_le_length]
    rw [List.length_drop]
    omega
  rw [hd]

theorem readInt32BE_drop (bs : Bytes) (off n : Nat) :
    readInt32BE (bs.drop off) n = readInt32BE bs (off + n) := by
  unfold readInt32BE
  rw [List.drop_drop]

/-- What `nextMessage` finds. -/
theorem nextMessage_eq_some {bs rest : Bytes} {m : RawMessage} (h : nextMessage bs = some (m, rest)) :
    5 ≤ bs.length ∧ 4 ≤ readInt32BE bs 1 ∧ (readInt32BE bs 1).toNat + 1 ≤ bs.length ∧
      m = ⟨Char.ofNat (bs.getD 0 0).toNat, subarray bs 5 ((readInt32BE bs 1).toNat + 1)⟩ ∧
      rest = bs.drop ((readInt32BE bs 1).toNat + 1) := by
  unfold nextMessage at h
  split at h
  · rename_i h5
    split at h
    · cases h
    · rename_i h4
      split at h
      · cases h
      · rename_i ht
        rw [Option.some.injEq, Prod.mk.injEq] at h
        exact ⟨h5, by omega, by omega, h.1.symm, h.2.symm⟩
  · cases h

theorem nextMessage_of_le {bs : Bytes} (h5 : 5 ≤ bs.length) (h4 : 4 ≤ readInt32BE bs 1)
    (ht : (readInt32BE bs 1).toNat + 1 ≤ bs.length) : nextMessage bs =
      some (⟨Char.ofNat (bs.getD 0 0).toNat, subarray bs 5 ((readInt32BE bs 1).toNat + 1)⟩,
        bs.drop ((readInt32BE bs 1).toNat + 1)) := by
  unfold nextMessage
  rw [if_pos h5, if_neg (by omega), if_neg (by omega)]

theorem subarray_append {bs : Bytes} {start stop : Nat} (h : stop ≤ bs.length) (more : Bytes) :
    subarray (bs ++ more) start stop = subarray bs start stop := by
  unfold subarray
  rw [List.take_append_of_le_length h]

/-- A message is read the same way whatever follows it. -/
theorem nextMessage_append {bs rest : Bytes} {m : RawMessage}
    (h : nextMessage bs = some (m, rest)) (more : Bytes) :
    nextMessage (bs ++ more) = some (m, rest ++ more) := by
  obtain ⟨h5, h4, ht, rfl, rfl⟩ := nextMessage_eq_some h
  have hr : readInt32BE (bs ++ more) 1 = readInt32BE bs 1 := readInt32BE_append (by omega) more
  have hlen : (bs ++ more).length = bs.length + more.length := List.length_append
  have h0 : (bs ++ more).getD 0 0 = bs.getD 0 0 := by
    simp [List.getD_eq_getElem?_getD, List.getElem?_append_left (by omega : 0 < bs.length)]
  rw [nextMessage_of_le (by omega) (by omega) (by omega), hr, h0, subarray_append ht,
    List.drop_append_of_le_length ht]

/-- The parser as a reader. -/
def messages : Reader RawMessage UInt8 where
  next := nextMessage
  shorter h := by
    obtain ⟨h5, h4, ht, -, rfl⟩ := nextMessage_eq_some h
    rw [List.length_drop]
    omega
  stable h more := nextMessage_append h more

theorem IsBad.append {bs : Bytes} (h : IsBad bs) (more : Bytes) : IsBad (bs ++ more) := by
  obtain ⟨h5, h4⟩ := h
  have hr : readInt32BE (bs ++ more) 1 = readInt32BE bs 1 := readInt32BE_append (by omega) more
  refine ⟨?_, ?_⟩
  · rw [List.length_append]
    omega
  · rw [hr]
    exact h4

theorem IsBad.next {bs : Bytes} (h : IsBad bs) : nextMessage bs = none := by
  unfold nextMessage
  rw [if_pos h.1, if_pos h.2]

/-! ### The loop -/

/-- **The loop reads what the reader reads**, and throws at a bad header. -/
theorem pushLoop_eq (buf : Bytes) (fuel : Nat) : ∀ off out, off ≤ buf.length →
    buf.length - off ≤ fuel →
    pushLoop buf fuel off out =
      if IsBad (messages.drain (buf.drop off)).2 then
        .error (lengthError (readInt32BE (messages.drain (buf.drop off)).2 1))
      else .ok (buf.length - (messages.drain (buf.drop off)).2.length,
        out ++ (messages.drain (buf.drop off)).1) := by
  induction fuel with
  | zero =>
    intro off out hoff hfuel
    have hd : buf.drop off = [] := by
      rw [List.drop_eq_nil_iff]
      omega
    have hnone : messages.next [] = none := rfl
    have hbad : ¬ IsBad [] := by decide
    rw [hd, Reader.drain_none hnone, if_neg hbad]
    have he : off = buf.length := by omega
    simp [pushLoop, he]
  | succ fuel ih =>
    intro off out hoff hfuel
    have hlen : (buf.drop off).length = buf.length - off := List.length_drop
    have hread : readInt32BE (buf.drop off) 1 = readInt32BE buf (off + 1) :=
      readInt32BE_drop buf off 1
    have hstop : ∀ (hn : nextMessage (buf.drop off) = none) (hb : ¬ IsBad (buf.drop off)),
        (if IsBad (messages.drain (buf.drop off)).2 then
          Except.error (lengthError (readInt32BE (messages.drain (buf.drop off)).2 1))
        else .ok (buf.length - (messages.drain (buf.drop off)).2.length,
          out ++ (messages.drain (buf.drop off)).1)) = Except.ok (off, out) := by
      intro hn hb
      have hn' : messages.next (buf.drop off) = none := hn
      rw [Reader.drain_none hn', if_neg hb, hlen, List.append_nil]
      have he : buf.length - (buf.length - off) = off := by omega
      rw [he]
    unfold pushLoop
    dsimp only
    by_cases h5 : 5 ≤ buf.length - off
    · rw [if_pos h5]
      by_cases h4 : readInt32BE buf (off + 1) < 4
      · have hb : IsBad (buf.drop off) := ⟨by omega, by omega⟩
        have hn : messages.next (buf.drop off) = none := hb.next
        rw [if_pos h4, Reader.drain_none hn, if_pos hb, hread]
      · rw [if_neg h4]
        by_cases ht : buf.length - off < (readInt32BE buf (off + 1)).toNat + 1
        · rw [if_pos ht, hstop]
          · unfold nextMessage
            rw [hread, hlen, if_pos h5, if_neg h4, if_pos ht]
          · rintro ⟨-, hb⟩
            omega
        · have hn : messages.next (buf.drop off) = some
              (⟨Char.ofNat ((buf.drop off).getD 0 0).toNat,
                subarray (buf.drop off) 5 ((readInt32BE (buf.drop off) 1).toNat + 1)⟩,
                (buf.drop off).drop ((readInt32BE (buf.drop off) 1).toNat + 1)) :=
            nextMessage_of_le (by omega) (by omega) (by omega)
          have hsub : subarray (buf.drop off) 5 ((readInt32BE (buf.drop off) 1).toNat + 1) =
              subarray buf (off + 5) (off + ((readInt32BE buf (off + 1)).toNat + 1)) := by
            unfold subarray
            rw [hread, List.take_drop, List.drop_drop]
          have h0 : (buf.drop off).getD 0 0 = buf.getD off 0 := by
            simp [List.getD_eq_getElem?_getD, List.getElem?_drop]
          rw [if_neg ht, ih _ _ (by omega) (by omega), Reader.drain_some hn, hsub, h0, hread,
            List.drop_drop]
          simp
    · rw [if_neg h5, hstop]
      · unfold nextMessage
        rw [hlen, if_neg h5]
      · rintro ⟨hb, -⟩
        omega

/-- What is left is the end of the buffer. -/
theorem drain_suffix (bs : Bytes) : (messages.drain bs).2 <:+ bs := by
  induction bs using messages.drain_induction with
  | hnone bs h => rw [Reader.drain_none h]
  | hsome bs m rest h ih =>
    rw [Reader.drain_some h]
    obtain ⟨-, -, -, -, rfl⟩ := nextMessage_eq_some h
    exact ih.trans (List.drop_suffix _ _)

/-- **What `push` does**: it reads all whole messages and keeps the rest, or throws and keeps
everything. -/
theorem push_eq (p : Parser) (chunk : Bytes) :
    p.push chunk =
      if IsBad (messages.drain (p.buf ++ chunk)).2 then
        (⟨p.buf ++ chunk⟩, .error (lengthError (readInt32BE (messages.drain (p.buf ++ chunk)).2 1)))
      else (⟨(messages.drain (p.buf ++ chunk)).2⟩, .ok (messages.drain (p.buf ++ chunk)).1) := by
  have hbuf : (if p.buf.length ≠ 0 then p.buf ++ chunk else chunk) = p.buf ++ chunk := by
    split
    · rfl
    · rename_i h
      have he : p.buf = [] := by simpa using h
      rw [he]
      rfl
  have hdrop := List.suffix_iff_eq_drop.mp (drain_suffix (p.buf ++ chunk))
  unfold push
  dsimp only
  rw [hbuf, pushLoop_eq _ _ _ _ (Nat.zero_le _) (by omega), List.drop_zero]
  by_cases hb : IsBad (messages.drain (p.buf ++ chunk)).2
  · rw [if_pos hb, if_pos hb]
  · rw [if_neg hb, if_neg hb]
    dsimp only
    rw [← hdrop, List.nil_append]
    split
    · rename_i he
      have hlen := (drain_suffix (p.buf ++ chunk)).length_le
      have hnil : (messages.drain (p.buf ++ chunk)).2 = [] := by
        rw [hdrop, he, List.drop_length]
      rw [hnil]
    · rfl

/-- **Chunk after chunk**, while no throw comes: one `drain` of everything. -/
theorem pushAll_eq (chunks : List Bytes) : ∀ p : Parser, messages.next p.buf = none →
    ¬ IsBad (messages.drain (p.buf ++ chunks.flatten)).2 →
    p.pushAll chunks = (⟨(messages.drain (p.buf ++ chunks.flatten)).2⟩,
      .ok (messages.drain (p.buf ++ chunks.flatten)).1) := by
  induction chunks with
  | nil =>
    intro p hp _
    rw [List.flatten_nil, List.append_nil, Reader.drain_none hp]
    rfl
  | cons chunk chunks ih =>
    intro p hp hb
    rw [List.flatten_cons, ← List.append_assoc, Reader.drain_append (p.buf ++ chunk)] at hb ⊢
    have hbad : ¬ IsBad (messages.drain (p.buf ++ chunk)).2 := by
      intro hbad
      refine hb ?_
      have hmore := hbad.append chunks.flatten
      have hnone : messages.next ((messages.drain (p.buf ++ chunk)).2 ++ chunks.flatten) = none :=
        hmore.next
      rw [Reader.drain_none hnone]
      exact hmore
    unfold pushAll
    rw [push_eq, if_neg hbad]
    dsimp only
    rw [ih ⟨(messages.drain (p.buf ++ chunk)).2⟩ (Reader.next_drain _) hb]

end Parser

/-! ### Streams of messages -/

/-- The four bytes of a big-endian number. -/
def int32BE (n : Nat) : Bytes :=
  [UInt8.ofNat (n / 2 ^ 24), UInt8.ofNat (n / 2 ^ 16), UInt8.ofNat (n / 2 ^ 8), UInt8.ofNat n]

/-- A message as it is on the wire. -/
structure WireMessage where
  type : UInt8
  body : Bytes
  fits : body.length + 4 < 2 ^ 31

namespace WireMessage

def encode (m : WireMessage) : Bytes := m.type :: int32BE (m.body.length + 4) ++ m.body

/-- What the parser emits for it. -/
def raw (m : WireMessage) : RawMessage := ⟨Char.ofNat m.type.toNat, m.body⟩

/-- A message whose end has not arrived. -/
def IsPartial (tail : Bytes) : Prop := ∃ m : WireMessage, ∃ more, m.encode = tail ++ more ∧ more ≠ []

theorem readUInt_int32BE {n : Nat} (h : n < 2 ^ 32) : readUInt (int32BE n) = n := by
  simp [readUInt, int32BE]
  omega

theorem encode_length (m : WireMessage) : m.encode.length = m.body.length + 5 := by
  simp [encode, int32BE]

/-- The length in the header of a message. -/
theorem encode_read (m : WireMessage) (more : Bytes) :
    readInt32BE (m.encode ++ more) 1 = m.body.length + 4 := by
  have hfits := m.fits
  have hr : ((m.encode ++ more).drop 1).take 4 = int32BE (m.body.length + 4) := by
    simp [encode, int32BE]
  unfold readInt32BE
  rw [hr, readUInt_int32BE (by omega)]
  dsimp only
  rw [if_pos (by omega)]
  omega

theorem next_encode (m : WireMessage) (more : Bytes) :
    Parser.messages.next (m.encode ++ more) = some (m.raw, more) := by
  have hlen := m.encode_length
  have hread := m.encode_read more
  have happ : (m.encode ++ more).length = m.encode.length + more.length := List.length_append
  have htotal : (readInt32BE (m.encode ++ more) 1).toNat + 1 = m.encode.length := by omega
  have hn : Parser.nextMessage (m.encode ++ more) = _ :=
    Parser.nextMessage_of_le (by omega) (by omega) (by omega)
  show Parser.nextMessage (m.encode ++ more) = _
  rw [hn, htotal, List.drop_left]
  have hbody : subarray (m.encode ++ more) 5 m.encode.length = m.body := by
    unfold subarray
    rw [List.take_left]
    simp [encode, int32BE]
  rw [hbody]
  rfl

/-- A partial message is nothing to the parser yet. -/
theorem IsPartial.next {tail : Bytes} (h : IsPartial tail) :
    Parser.messages.next tail = none ∧ ¬ Parser.IsBad tail := by
  obtain ⟨m, more, he, hne⟩ := h
  have hlen := m.encode_length
  have happ : m.encode.length = tail.length + more.length := by
    rw [he, List.length_append]
  have hpos : 0 < more.length := List.length_pos_iff.mpr hne
  have hread := m.encode_read []
  rw [List.append_nil, he] at hread
  by_cases h5 : 5 ≤ tail.length
  · rw [Parser.readInt32BE_append (by omega) more] at hread
    refine ⟨?_, fun hb => ?_⟩
    · show Parser.nextMessage tail = none
      unfold Parser.nextMessage
      rw [if_pos h5, if_neg (by omega), if_pos (by omega)]
    · have hb' := hb.2
      omega
  · refine ⟨?_, fun hb => h5 hb.1⟩
    show Parser.nextMessage tail = none
    unfold Parser.nextMessage
    rw [if_neg h5]

end WireMessage

/-- **The parser is chunk-invariant**: from a stream of whole messages and a partial one it emits
the messages, and keeps the partial one, however the stream is cut. -/
theorem push_chunks (ms : List WireMessage) {tail : Bytes} (ht : WireMessage.IsPartial tail)
    {chunks : List Bytes} (hc : chunks.flatten = ms.flatMap WireMessage.encode ++ tail) :
    ({} : Parser).pushAll chunks = (⟨tail⟩, .ok (ms.map WireMessage.raw)) := by
  obtain ⟨hn, hb⟩ := ht.next
  have hd : Parser.messages.drain (([] : Bytes) ++ chunks.flatten) =
      (ms.map WireMessage.raw, tail) := by
    rw [List.nil_append, hc]
    exact Reader.drain_items (fun m _ more => m.next_encode more) hn
  have hall := Parser.pushAll_eq chunks {} rfl
  rw [hd] at hall
  exact hall hb

/-- A ReadyForQuery, and the first three bytes of a CommandComplete. -/
def readyThenPart : List Bytes := [[0x5A, 0], [], [0, 0], [5, 0x49, 0x43], [0, 0]]

theorem push_readyThenPart :
    ({} : Parser).pushAll readyThenPart = (⟨[0x43, 0, 0]⟩, .ok [⟨'Z', [0x49]⟩]) :=
  push_chunks [⟨0x5A, [0x49], by decide⟩] ⟨⟨0x43, [], by decide⟩, [0, 4], by decide, by decide⟩
    (by decide)

end Minipg
