import Minipg.Encode.Reserved

/-!
# Runs of the write buffer

`Encode.Writer` appends to a list and writes over parts of it.  A run of `Protocol.Writer` returns
the same, whatever the capacity was and whatever the new buffers held before, as long as its
operations come in the order of the callers (`run_refines`): what is written over is there, a
message is ended before the next one starts, and it is sent when it has ended.
-/

namespace Minipg.Protocol

open Js Growing Appending
open Encode (Thrown bigEndian int32BE uint32BE bigInt64BE numberInt32BE numberUInt16BE written)

/-! ### The list -/

/-- The bytes, and where the length of a message that has no end yet will be. -/
structure Stage where
  writer : Encode.Writer
  hole : Option Nat

namespace Op

def write : Op → Encode.Write Reply
  | .reset => do Encode.Writer.rewind 0; return .done
  | .byte n => do Encode.Writer.byte n.trunc; return .done
  | .int16 n => do Encode.Writer.number16 n; return .done
  | .int32 n => do Encode.Writer.number32 n; return .done
  | .cstr s => do Encode.Writer.cstr s; return .done
  | .bytes b => do Encode.Writer.bytes b; return .done
  | .str s => do Encode.Writer.str s; return .done
  | .asc s => do Encode.Writer.asc s; return .done
  | .patch16 pos n => do Encode.Writer.patch pos (numberUInt16BE n); return .done
  | .patch32 pos n => do Encode.Writer.patch pos (numberInt32BE n); return .done
  | .lpBytes b => do Encode.Writer.lpBytes b; return .done
  | .lpStr s => do Encode.Writer.lpStr s; return .done
  | .lpAsc s => do Encode.Writer.lpAsc s; return .done
  | .lpAsciiInt v => do Encode.Writer.lpAsciiInt v.trunc; return .done
  | .lpI64 v => do Encode.Writer.lpI64 v.trunc; return .done
  | .lpI64Big v => do Encode.Writer.lpI64Big v; return .done
  | .lpF8 v => do Encode.Writer.lpF8 v; return .done
  | .start type => do Encode.Writer.start type; return .done
  | .end => do Encode.Writer.end; return .done
  | .slice => return .bytes (← get).buf
  | .mark => return .position (← Encode.Writer.mark)
  | .rewind off => do Encode.Writer.rewind off; return .done

/-- The hole after an operation that left `w`. -/
def hole (w : Encode.Writer) (hole : Option Nat) : Op → Option Nat
  | .start _ => some w.msgStart
  | .end | .reset => none
  | .rewind off => hole.filter fun p => p + 4 ≤ off
  | _ => hole

end Op

namespace Stage

def step (s : Stage) (op : Op) : Except Thrown Reply × Stage :=
  match op.write s.writer with
  | .ok (reply, w) => (.ok reply, ⟨w, op.hole w s.hole⟩)
  | .error e => (.error e, s)

def run : List Op → Stage → List (Except Thrown Reply) × Stage
  | [], s => ([], s)
  | op :: ops, s =>
    let (reply, s') := s.step op
    let (replies, s'') := run ops s'
    (reply :: replies, s'')

/-- The order of the callers: they write over what they reserved, end a message before the next one
or before they take the bytes, and go back to where an operation has ended. -/
def Allows (s : Stage) : Op → Prop
  | .patch16 pos _ => pos + 2 ≤ s.writer.buf.length
  | .patch32 pos _ => pos + 4 ≤ s.writer.buf.length
  | .lpAsciiInt v | .lpI64 v => v.safeInteger?.isSome
  | .start _ | .slice => s.hole = none
  | .end => s.hole.isSome
  | .rewind off => off ≤ s.writer.buf.length ∧ ∀ p ∈ s.hole, off ≤ p ∨ p + 4 ≤ off
  | _ => True

def InOrder : List Op → Stage → Prop
  | [], _ => True
  | op :: ops, s => s.Allows op ∧ InOrder ops (s.step op).2

end Stage

/-! ### Writing over -/

theorem overwrite_eq {buf bs : List UInt8} {pos : Nat} (h : pos + bs.length ≤ buf.length) :
    Encode.overwrite buf pos bs = store buf pos bs := by
  apply List.ext_getElem?
  intro i
  have hfront : (buf.take pos).length = pos := by
    rw [List.length_take]
    omega
  unfold Encode.overwrite
  rw [List.append_assoc]
  by_cases hi : i < pos
  · rw [getElem?_store_before hi, List.getElem?_append_left (by omega), List.getElem?_take_of_lt hi]
  · rw [List.getElem?_append_right (by omega), hfront]
    by_cases hin : i < pos + bs.length
    · rw [getElem?_store_in (by omega) hin (by omega), List.getElem?_append_left (by omega)]
    · rw [getElem?_store_behind (by omega), List.getElem?_append_right (by omega),
        List.getElem?_drop]
      congr 1
      omega

/-- The hole of a stage. -/
def Stage.gap (s : Stage) (i : Nat) : Prop := ∃ p ∈ s.hole, p ≤ i ∧ i < p + 4

/-- The buffer holds the bytes, but for the length of a message that is open. -/
structure Matches (c : Writer) (s : Stage) : Prop where
  holds : Holds c s.writer s.gap
  started : ∀ p ∈ s.hole, p = s.writer.msgStart ∧ p + 4 ≤ s.writer.buf.length

def Simulates (m : Allocator) (fuel : Nat) (op : Op) (c : Writer) (s : Stage) : Prop :=
  ∃ c', act m fuel op c = some ((s.step op).1, c') ∧ Matches c' (s.step op).2

section Steps

variable {m : Allocator} {fuel : Nat} {op : Op} {c : Writer} {s : Stage}

theorem Simulates.returned {reply : Reply} {w : Encode.Writer} {c' : Writer}
    (hwrite : op.write s.writer = .ok (reply, w)) (hact : act m fuel op c = some (.ok reply, c'))
    (h : Matches c' ⟨w, op.hole w s.hole⟩) : Simulates m fuel op c s := by
  refine ⟨c', ?_, ?_⟩
  · rw [hact]
    unfold Stage.step
    rw [hwrite]
  · unfold Stage.step
    rw [hwrite]
    exact h

theorem Simulates.threw {e : Thrown} {c' : Writer} (hwrite : op.write s.writer = .error e)
    (hact : act m fuel op c = some (.error e, c')) (h : Matches c' s) : Simulates m fuel op c s := by
  refine ⟨c', ?_, ?_⟩
  · rw [hact]
    unfold Stage.step
    rw [hwrite]
  · unfold Stage.step
    rw [hwrite]
    exact h

/-- An operation that appends the same bytes to both. -/
theorem Matches.append (h : Matches c s) {x : Act Unit} {y : Encode.Write Unit}
    {bytes : Except Thrown (List UInt8)} (hx : Appends x bytes) (hy : Yields y (written bytes))
    (hact : act m fuel op = do x; return .done) (hwrite : op.write = do y; return .done)
    (hhole : ∀ w hole, op.hole w hole = hole) : Simulates m fuel op c s := by
  obtain ⟨c', hrun, hholds⟩ := hx h.holds
  have hlist := hy s.writer
  cases bytes with
  | error e =>
    have hnil : s.writer.app [] = s.writer := Appendable.app_nil s.writer
    refine Simulates.threw ?_ (hact ▸ bind_error hrun) ⟨?_, h.started⟩
    · rw [hwrite]
      show (y s.writer >>= fun p => _) = _
      rw [hlist]
      rfl
    · rw [← hnil]
      exact hholds
  | ok bs =>
    refine Simulates.returned (w := s.writer.app bs) ?_ (hact ▸ bind_ok hrun) ⟨?_, ?_⟩
    · rw [hwrite]
      show (y s.writer >>= fun p => _) = _
      rw [hlist]
      rfl
    · rw [hhole]
      exact hholds
    · intro p hp
      rw [hhole] at hp
      obtain ⟨hstart, hle⟩ := h.started p hp
      refine ⟨hstart, ?_⟩
      show p + 4 ≤ (s.writer.buf ++ bs).length
      rw [List.length_append]
      omega

/-- A number that is written over two or four bytes. -/
theorem Matches.patch (h : Matches c s) {pos size : Nat} {bytes : Except Thrown (List UInt8)}
    (hlen : ∀ bs, bytes = .ok bs → bs.length = size) (hpos : pos + size ≤ s.writer.buf.length)
    (hact : act m fuel op = do writeNumber bytes pos; return .done)
    (hwrite : op.write = do Encode.Writer.patch pos bytes; return .done)
    (hhole : ∀ w hole, op.hole w hole = hole) : Simulates m fuel op c s := by
  have hroom := h.holds.agrees.room
  cases bytes with
  | error e => exact .threw (by rw [hwrite]; rfl) (by rw [hact]; exact bind_error rfl) h
  | ok bs =>
    have hsize := hlen bs rfl
    subst hsize
    have hrun : act m fuel op c = some (.ok .done, c.put pos bs) := by
      rw [hact]
      exact bind_ok (writeNumber_ok (by omega))
    refine .returned (w := { s.writer with buf := store s.writer.buf pos bs }) ?_ hrun
      ⟨⟨?_, h.holds.msgStart, ?_⟩, ?_⟩
    · rw [hwrite, ← overwrite_eq hpos]
      rfl
    · show c.off = (store s.writer.buf pos bs).length
      rw [length_store]
      exact h.holds.off
    · rw [hhole]
      exact h.holds.agrees.patch pos bs
    · intro p hp
      rw [hhole] at hp
      show _ ∧ p + 4 ≤ (store s.writer.buf pos bs).length
      rw [length_store]
      exact h.started p hp

/-! ### Messages -/

theorem gap_none (hnone : s.hole = none) (i : Nat) : ¬s.gap i := by
  rintro ⟨p, hp, -⟩
  rw [hnone] at hp
  cases hp

theorem start_simulates (h : Matches c s) (type : Char) (hallow : s.hole = none) :
    Simulates m fuel (.start type) c s := by
  have hcode : element (.ofInt type.toNat) = [byteOf ((type.toNat : Int) % 256).toNat] := by
    have hvalid : type.toNat < 4294967296 := type.val.toNat_lt
    unfold element
    rw [Double.trunc_ofInt ⟨by omega, by omega⟩]
  obtain ⟨c₁, hbyte, h₁⟩ := byte_appends m (.ofInt type.toNat) h.holds
  rw [hcode] at h₁
  let w₁ := s.writer.app [byteOf ((type.toNat : Int) % 256).toNat]
  have h₂ : Holds { c₁ with msgStart := c₁.off } { w₁ with msgStart := w₁.buf.length } s.gap :=
    ⟨h₁.off, h₁.off, h₁.agrees⟩
  obtain ⟨hfit, hroom⟩ := h₂.fit m 4
  have hoff := hfit.off
  have hstart : start m type c =
      some (.ok (), (Writer.fit m 4 { c₁ with msgStart := c₁.off }).advance 4) := by
    unfold start
    rw [bind_ok hbyte]
    rfl
  refine .returned (w := ⟨w₁.buf ++ [0, 0, 0, 0], w₁.buf.length⟩) rfl (bind_ok hstart)
    ⟨⟨?_, hfit.msgStart, ?_⟩, ?_⟩
  · show _ + 4 = (w₁.buf ++ [0, 0, 0, 0]).length
    rw [hoff, List.length_append]
    rfl
  · refine (hfit.agrees.skip [0, 0, 0, 0] ?_).mono ?_
    · show w₁.buf.length + 4 ≤ _
      rw [hoff] at hroom
      exact hroom
    · intro i hi hgap
      have hi : i < w₁.buf.length + 4 := by
        rw [List.length_append] at hi
        exact hi
      have hlow : w₁.buf.length ≤ i := hgap.resolve_left (gap_none hallow i)
      exact ⟨w₁.buf.length, rfl, hlow, hi⟩
  · intro p hp
    have hp : p = w₁.buf.length := (Option.some.inj hp).symm
    refine ⟨hp, ?_⟩
    rw [hp, List.length_append]
    exact Nat.le_refl _

theorem end_simulates (h : Matches c s) (hallow : s.hole.isSome) : Simulates m fuel .end c s := by
  obtain ⟨p, hp⟩ := Option.isSome_iff_exists.mp hallow
  obtain ⟨hstart, hlen⟩ := h.started p hp
  have hroom := h.holds.agrees.room
  have hact : «end» c = writeNumber
      (int32BE ((s.writer.buf.length : Int) - s.writer.msgStart)) s.writer.msgStart c := by
    unfold «end»
    rw [get_bind, h.holds.off, h.holds.msgStart]
  have hlist : Encode.Writer.end s.writer = Encode.Writer.patch s.writer.msgStart
      (int32BE ((s.writer.buf.length : Int) - s.writer.msgStart)) s.writer := by
    unfold Encode.Writer.end Encode.Writer.patch32
    rfl
  cases hb : int32BE ((s.writer.buf.length : Int) - s.writer.msgStart) with
  | error e =>
    rw [hb] at hact hlist
    refine .threw ?_ (bind_error hact) h
    show (Encode.Writer.end s.writer >>= fun p => _) = _
    rw [hlist]
    rfl
  | ok b4 =>
    have h4 : b4.length = 4 := Encode.checked_length hb
    rw [hb] at hact hlist
    have hrun : act m fuel .end c = some (.ok .done, c.put s.writer.msgStart b4) :=
      bind_ok (hact.trans (writeNumber_ok (by omega)))
    refine .returned (w := { s.writer with buf := store s.writer.buf s.writer.msgStart b4 }) ?_ hrun
      ⟨⟨?_, h.holds.msgStart, ?_⟩, nofun⟩
    · rw [← overwrite_eq (by omega)]
      show (Encode.Writer.end s.writer >>= fun p => _) = _
      rw [hlist]
      rfl
    · show c.off = (store s.writer.buf s.writer.msgStart b4).length
      rw [length_store]
      exact h.holds.off
    · refine (h.holds.agrees.fill s.writer.msgStart b4 ?_).mono fun _ _ => False.elim
      rintro i ⟨q, hq, hlow, hhigh⟩
      obtain ⟨rfl, -⟩ := h.started q hq
      exact ⟨hlow, by omega⟩

/-! ### Positions -/

theorem slice_simulates (h : Matches c s) (hallow : s.hole = none) :
    Simulates m fuel .slice c s := by
  have htake := h.holds.agrees.take fun i _ => gap_none hallow i
  rw [← h.holds.off] at htake
  have hwrite : Op.write .slice s.writer = .ok (.bytes s.writer.buf, s.writer) := rfl
  refine .returned hwrite ?_ h
  show some (Except.ok (Reply.bytes (c.buf.take c.off)), c) = _
  rw [htake]

theorem mark_simulates (h : Matches c s) : Simulates m fuel .mark c s := by
  have hwrite : Op.write .mark s.writer = .ok (.position s.writer.buf.length, s.writer) := rfl
  refine .returned hwrite ?_ h
  rw [← h.holds.off]
  rfl

theorem rewind_simulates (h : Matches c s) {off : Nat} (hallow : s.Allows (.rewind off)) :
    Simulates m fuel (.rewind off) c s := by
  obtain ⟨hle, hhole⟩ := hallow
  refine .returned (w := { s.writer with buf := s.writer.buf.take off }) rfl rfl
    ⟨⟨?_, h.holds.msgStart, ?_⟩, ?_⟩
  · show off = (s.writer.buf.take off).length
    rw [List.length_take, Nat.min_eq_left hle]
  · refine (h.holds.agrees.cut off).mono ?_
    rintro i hi ⟨p, hp, hlow, hhigh⟩
    rw [List.length_take] at hi
    refine ⟨p, Option.filter_eq_some_iff.mpr ⟨hp, decide_eq_true ?_⟩, hlow, hhigh⟩
    have hside := hhole p hp
    omega
  · intro p hp
    obtain ⟨hp, hkept⟩ := Option.filter_eq_some_iff.mp hp
    have hkept := of_decide_eq_true hkept
    refine ⟨(h.started p hp).1, ?_⟩
    show p + 4 ≤ (s.writer.buf.take off).length
    rw [List.length_take, Nat.min_eq_left hle]
    exact hkept

theorem reset_simulates (h : Matches c s) : Simulates m fuel .reset c s := by
  refine .returned (w := { s.writer with buf := s.writer.buf.take 0 }) rfl rfl
    ⟨⟨?_, h.holds.msgStart, ?_⟩, nofun⟩
  · show 0 = (s.writer.buf.take 0).length
    rw [List.take_zero]
    rfl
  · refine (h.holds.agrees.cut 0).mono fun i hi _ => ?_
    rw [List.take_zero] at hi
    exact absurd hi (Nat.not_lt_zero i)

/-! ### Lengths and values -/

theorem checkedNumber_length {lo hi : Int} {size : Nat} {x : Double} {bs : List UInt8}
    (h : Encode.checkedNumber lo hi size x = .ok bs) : bs.length = size := by
  unfold Encode.checkedNumber at h
  split at h
  · cases h
  · cases h
    exact Encode.bigEndian_length size _

/-- Bytes behind a length, which may not fit. -/
theorem sized_yields (k : Int) (bs : List UInt8) :
    Yields (do Encode.Writer.int32 k; Encode.Writer.append bs)
      (written ((int32BE k).map (· ++ bs))) := by
  have hall := (Encode.appendOr_yields (int32BE k)).bind fun _ => Encode.append_yields bs
  unfold Encode.Writer.int32
  cases hb : int32BE k with
  | error e =>
    rw [hb] at hall
    exact hall
  | ok b4 =>
    rw [hb] at hall
    exact hall

theorem eight_yields (bytes : Except Thrown (List UInt8)) :
    Yields (do Encode.Writer.int32 8; Encode.Writer.appendOr bytes)
      (written (bytes.map ([0, 0, 0, 8] ++ ·))) := by
  have hall := (Encode.appendOr_yields (int32BE 8)).bind fun _ => Encode.appendOr_yields bytes
  rw [int32BE_eight] at hall
  cases bytes with
  | error e => exact hall
  | ok bs => exact hall

theorem lpI64_yields {n : Int} (h : Double.Safe n) :
    Yields (Encode.Writer.lpI64 n) (written (.ok (Encode.framed (some (bigEndian 8 n))))) := by
  unfold Double.Safe at h
  refine Encode.lpI64_framed ?_
  unfold Encode.i64Min Encode.i64Max
  omega

theorem lpAsciiInt_yields {n : Int} (h : Double.Safe n) : Yields (Encode.Writer.lpAsciiInt n)
    (written (.ok (Encode.framed (some (latin1 (bigintString n)))))) := by
  unfold Double.Safe at h
  have hcount : Encode.Writer.digitCount n.natAbs ≤ 16 :=
    digitCount_le (show n.natAbs < 10 ^ 16 by omega)
  rw [Encode.latin1_bigintString]
  have hlen : ((if n < 0 then [byteOf 45] else []) ++
      Encode.Writer.digits (Encode.Writer.digitCount n.natAbs) n.natAbs).length =
      Encode.Writer.digitCount n.natAbs + if n < 0 then 1 else 0 := by
    rw [List.length_append, Encode.digits_length, Nat.add_comm]
    split
    · rfl
    · rfl
  have hsign : (if n < 0 then 1 else 0) ≤ 1 := by
    split
    · exact Nat.le_refl 1
    · exact Nat.zero_le 1
  exact Encode.sized_framed (Encode.append_yields _) hlen (by omega)

/-! ### Runs -/

/-- **One operation**: it returns the same, and the buffer holds the bytes again. -/
theorem step_simulates (hfuel : 16 ≤ fuel) (h : Matches c s) (hallow : s.Allows op) :
    Simulates m fuel op c s := by
  have hnumber16 : ∀ {n : Double}, ∀ bs, numberUInt16BE n = .ok bs → bs.length = 2 :=
    fun _ => checkedNumber_length
  have hnumber32 : ∀ {n : Double}, ∀ bs, numberInt32BE n = .ok bs → bs.length = 4 :=
    fun _ => checkedNumber_length
  cases op with
  | reset => exact reset_simulates h
  | byte n =>
    exact h.append (byte_appends m n) (Encode.append_yields _) rfl rfl fun _ _ => rfl
  | int16 n =>
    exact h.append (number_appends m hnumber16) (Encode.appendOr_yields _) rfl rfl fun _ _ => rfl
  | int32 n =>
    exact h.append (number_appends m hnumber32) (Encode.appendOr_yields _) rfl rfl fun _ _ => rfl
  | cstr x =>
    exact h.append (cstr_appends m x) (Encode.append_yields _) rfl rfl fun _ _ => rfl
  | bytes b =>
    exact h.append (bytes_appends m b) (Encode.append_yields _) rfl rfl fun _ _ => rfl
  | str x =>
    exact h.append (str_appends m x) (Encode.append_yields _) rfl rfl fun _ _ => rfl
  | asc x =>
    exact h.append (asc_appends m x) (Encode.append_yields _) rfl rfl fun _ _ => rfl
  | patch16 pos n => exact h.patch hnumber16 hallow rfl rfl fun _ _ => rfl
  | patch32 pos n => exact h.patch hnumber32 hallow rfl rfl fun _ _ => rfl
  | lpBytes b =>
    exact h.append (lpBytes_appends m b) (sized_yields _ b) rfl rfl fun _ _ => rfl
  | lpStr x =>
    exact h.append (lpStr_appends m x) (sized_yields _ _) rfl rfl fun _ _ => rfl
  | lpAsc x =>
    exact h.append (lpAsc_appends m x) (sized_yields _ _) rfl rfl fun _ _ => rfl
  | lpAsciiInt v =>
    obtain ⟨n, hv⟩ := Option.isSome_iff_exists.mp hallow
    have hcounts := Double.counts_of_safeInteger hv
    have hlist := lpAsciiInt_yields hcounts.safe
    rw [← Double.trunc_of_integer hcounts.integer?] at hlist hcounts
    exact h.append (lpAsciiInt_appends m hcounts hfuel) hlist rfl rfl fun _ _ => rfl
  | lpI64 v =>
    obtain ⟨n, hv⟩ := Option.isSome_iff_exists.mp hallow
    have hcounts := Double.counts_of_safeInteger hv
    have hlist := lpI64_yields hcounts.safe
    rw [← Double.trunc_of_integer hcounts.integer?] at hlist hcounts
    exact h.append (lpI64_appends m hcounts) hlist rfl rfl fun _ _ => rfl
  | lpI64Big v =>
    exact h.append (lpEight_appends m fun _ => Encode.checked_length) (eight_yields _) rfl rfl
      fun _ _ => rfl
  | lpF8 v =>
    have hlen : ∀ bs, Except.ok (bigEndian 8 v.toNat) = Except.ok (ε := Thrown) bs →
        bs.length = 8 := by
      intro bs hbs
      cases hbs
      exact Encode.bigEndian_length 8 _
    exact h.append (lpEight_appends m hlen) (eight_yields _) rfl rfl fun _ _ => rfl
  | start type => exact start_simulates h type hallow
  | «end» => exact end_simulates h hallow
  | slice => exact slice_simulates h hallow
  | mark => exact mark_simulates h
  | rewind off => exact rewind_simulates h hallow

theorem run_simulates (hfuel : 16 ≤ fuel) : ∀ {ops : List Op} {c : Writer} {s : Stage},
    Matches c s → s.InOrder ops → ∃ c', run m fuel ops c = some ((s.run ops).1, c') ∧
      Matches c' (s.run ops).2 := by
  intro ops
  induction ops with
  | nil => exact fun h _ => ⟨_, rfl, h⟩
  | cons op ops ih =>
    intro c s h hops
    obtain ⟨c₁, hstep, h₁⟩ := step_simulates hfuel h hops.1
    obtain ⟨c₂, hrun, h₂⟩ := ih h₁ hops.2
    refine ⟨c₂, ?_, h₂⟩
    rw [run, hstep]
    show (run m fuel ops c₁ >>= fun p => _) = _
    rw [hrun]
    rfl

end Steps

theorem new_matches (m : Allocator) {size : Nat} (h : 0 < size) :
    Matches (Writer.new m size h) ⟨{}, none⟩ :=
  ⟨⟨rfl, rfl, ⟨Nat.zero_le _, fun i hi _ => absurd hi (Nat.not_lt_zero i)⟩⟩, nofun⟩

/-- **A list of bytes**: a run of the write buffer returns what the list returns, and so sends the
bytes of the list.  A safe integer is written as its int64 or as its decimal text. -/
theorem run_refines (m : Allocator) {size fuel : Nat} (hsize : 0 < size) (hfuel : 16 ≤ fuel)
    (ops : List Op) (hops : Stage.InOrder ops ⟨{}, none⟩) :
    (run m fuel ops (Writer.new m size hsize)).map Prod.fst =
      some (Stage.run ops ⟨{}, none⟩).1 ∧
    ∀ (v : Double) (n : Int), v.safeInteger? = some n → ∀ w : Encode.Writer,
      Op.write (.lpI64 v) w = .ok (.done, w.app (Encode.framed (some (bigEndian 8 n)))) ∧
      Op.write (.lpAsciiInt v) w =
        .ok (.done, w.app (Encode.framed (some (latin1 (bigintString n))))) := by
  constructor
  · obtain ⟨c, hrun, -⟩ := run_simulates hfuel (new_matches m hsize) hops
    rw [hrun]
    rfl
  · intro v n hv w
    have hcounts := Double.counts_of_safeInteger hv
    have htrunc := Double.trunc_of_integer hcounts.integer?
    constructor
    · show (Encode.Writer.lpI64 v.trunc w >>= fun p => _) = _
      rw [htrunc, lpI64_yields hcounts.safe w]
      rfl
    · show (Encode.Writer.lpAsciiInt v.trunc w >>= fun p => _) = _
      rw [htrunc, lpAsciiInt_yields hcounts.safe w]
      rfl

/-- A message is sent from a buffer of one byte. -/
theorem run_refines_grown :
    let sevens : Allocator := ⟨fun n => List.replicate n 7, fun _ => List.length_replicate⟩
    (run sevens 16 [.start 'S', .str (ascii "ab"), .end, .slice]
      (Writer.new sevens 1 Nat.one_pos)).map Prod.fst =
      some [.ok .done, .ok .done, .ok .done, .ok (.bytes [83, 0, 0, 0, 6, 97, 98])] :=
  (run_refines _ Nat.one_pos (Nat.le_refl 16) [.start 'S', .str (ascii "ab"), .end, .slice]
    ⟨rfl, trivial, rfl, rfl, trivial⟩).1.trans (by decide +kernel)

end Minipg.Protocol
