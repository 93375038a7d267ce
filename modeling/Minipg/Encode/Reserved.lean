import Minipg.Encode.Arrays
import Minipg.Encode.Capacity

/-!
# Room for what is written

`Encode.Writer` is a list of bytes; the buffer of `Protocol.Writer` holds such a list (`Holds`).
What an operation reserves is always enough for what it writes, so that wherever the buffer grows
the bytes are appended as they are, or an error is thrown (`Appends`).
-/

namespace Minipg.Protocol

open Js Growing Appending
open Encode (Thrown bigEndian int32BE uint32BE bigInt64BE numberInt32BE numberUInt16BE written)

/-! ### Strings -/

theorem length_utf8Unit (c : Nat) : (utf8Unit c).length ≤ 3 := by
  unfold utf8Unit
  split
  · exact Nat.le_of_ble_eq_true rfl
  · split
    · exact Nat.le_of_ble_eq_true rfl
    · exact Nat.le_refl 3

theorem length_utf8 (s : JsString) : (utf8 s).length ≤ s.length * 3 := by
  induction s using utf8.induct with
  | case1 => exact Nat.le_refl 0
  | case2 u h =>
    rw [utf8, if_pos h]
    exact length_utf8Unit _
  | case3 u h =>
    rw [utf8, if_neg h]
    exact length_utf8Unit _
  | case4 u v rest h ih =>
    rw [utf8, if_pos h, List.length_append, List.length_cons, List.length_cons]
    show 4 + _ ≤ _
    omega
  | case5 u v rest h ih =>
    rw [utf8, if_neg h, List.length_append, List.length_cons]
    have hunit : (if (isHigh u || isLow u) = true then utf8Unit 0xfffd else
        utf8Unit u.toNat).length ≤ 3 := by
      split
      · exact length_utf8Unit _
      · exact length_utf8Unit _
    omega

theorem utf8Fitting_eq (s : JsString) : ∀ {room : Nat}, (utf8 s).length ≤ room →
    utf8Fitting room s = utf8 s := by
  induction s using utf8.induct with
  | case1 =>
    intro room h
    rfl
  | case2 u hu =>
    intro room h
    rw [utf8, if_pos hu] at h ⊢
    rw [utf8Fitting, if_pos hu]
    exact if_pos h
  | case3 u hu =>
    intro room h
    rw [utf8, if_neg hu] at h ⊢
    rw [utf8Fitting, if_neg hu]
    exact if_pos h
  | case4 u v rest hp ih =>
    intro room h
    rw [utf8, if_pos hp] at h ⊢
    rw [List.length_append] at h
    have hlen : (utf8Pair u v).length = 4 := rfl
    rw [utf8Fitting, if_pos hp, if_pos (by omega), ih (by omega)]
  | case5 u v rest hp ih =>
    intro room h
    rw [utf8, if_neg hp] at h ⊢
    rw [List.length_append] at h
    rw [utf8Fitting, if_neg hp]
    dsimp only
    rw [if_pos (by omega), ih (by omega)]

/-! ### Numbers -/

/-- A double that is an integer is written as that integer. -/
theorem checkedNumber_of_integer {x : Double} {n lo hi : Int} {size : Nat}
    (h : x.integer? = some n) :
    Encode.checkedNumber lo hi size x = Encode.checked lo hi size n := by
  unfold Encode.checkedNumber Encode.checked
  rw [Double.trunc_of_integer h]
  cases ho : x.outside lo hi with
  | false => rw [if_neg Bool.false_ne_true, if_pos (Double.between_of_integer h ho)]
  | true =>
    obtain ⟨hexp, hscaled⟩ := Double.integer?_eq_some.mp h
    unfold Double.outside at ho
    rw [if_neg hexp, hscaled] at ho
    have hout : n < lo ∨ hi < n := by
      rcases of_decide_eq_true ho with hlow | hhigh
      · exact .inl (Int.lt_of_mul_lt_mul_right hlow (Int.le_of_lt Double.unit_pos))
      · exact .inr (Int.lt_of_mul_lt_mul_right hhigh (Int.le_of_lt Double.unit_pos))
    rw [if_pos rfl, if_neg (by omega)]

/-! ### The buffer -/

/-- The buffer holds the list, but for the gap. -/
structure Holds (c : Writer) (w : Encode.Writer) (gap : Nat → Prop) : Prop where
  off : c.off = w.buf.length
  msgStart : c.msgStart = w.msgStart
  agrees : Agrees c.buf w.buf gap

namespace Writer

variable (c : Writer)

theorem put_nil (p : Nat) : c.put p [] = c := Writer.ext store_nil rfl rfl

theorem put_append (p : Nat) (xs ys : List UInt8) :
    (c.put p xs).put (p + xs.length) ys = c.put p (xs ++ ys) :=
  Writer.ext (store_append ys) rfl rfl

/-- The second stretch is written first. -/
theorem put_append' (p : Nat) (xs ys : List UInt8) :
    (c.put (p + xs.length) ys).put p xs = c.put p (xs ++ ys) := by
  rw [← put_append]
  exact Writer.ext (store_comm (Nat.le_refl _)) rfl rfl

theorem fit_off (m : Allocator) (n : Nat) : (c.fit m n).off = c.off := by
  unfold fit
  dsimp only
  split
  · rfl
  · rfl

end Writer

namespace Holds

variable {c : Writer} {w : Encode.Writer} {gap : Nat → Prop}

/-- Nothing is lost where the buffer grows, and there is room afterwards. -/
theorem fit (h : Holds c w gap) (m : Allocator) (n : Nat) : Holds (c.fit m n) w gap ∧
    (c.fit m n).off + n ≤ (c.fit m n).buf.length := by
  rw [Writer.fit_off]
  unfold Writer.fit
  dsimp only
  by_cases hroom : c.off + n ≤ c.buf.length
  · rw [if_pos hroom]
    exact ⟨h, hroom⟩
  · rw [if_neg hroom]
    have hcap := (le_doubled (c.off + n) (c.buf.length * 2) (by have hpos := c.pos; omega)).1
    have hmoved : ∀ fresh : List UInt8, c.off ≤ fresh.length →
        Agrees (store fresh 0 (c.buf.take c.off)) w.buf gap := by
      rw [h.off]
      exact fun fresh => h.agrees.move
    refine ⟨⟨h.off, h.msgStart, hmoved _ ?_⟩, ?_⟩
    · rw [m.length_alloc]
      omega
    · rw [length_store, m.length_alloc]
      exact hcap

/-- Behind the end nothing is held. -/
theorem scratch (h : Holds c w gap) {p : Nat} (hp : c.off ≤ p) (bs : List UInt8) :
    Holds (c.put p bs) w gap := by
  refine ⟨h.off, h.msgStart, ?_, fun i hi hgap => ?_⟩
  · show _ ≤ (store c.buf p bs).length
    rw [length_store]
    exact h.agrees.room
  · have hend := h.off
    exact (getElem?_store_before (by omega)).trans (h.agrees.same i hi hgap)

theorem push (h : Holds c w gap) {bs : List UInt8} (hroom : c.off + bs.length ≤ c.buf.length) :
    Holds ((c.put c.off bs).advance bs.length) (w.app bs) gap := by
  refine ⟨?_, h.msgStart, ?_⟩
  · show c.off + bs.length = (w.buf ++ bs).length
    rw [List.length_append, h.off]
  · show Agrees (store c.buf c.off bs) (w.buf ++ bs) gap
    rw [h.off] at hroom ⊢
    exact h.agrees.append hroom

end Holds

/-! ### Operations that append -/

section Appends

variable {α β : Type} {x : Act Unit} {bytes : Except Thrown (List UInt8)} (m : Allocator)

theorem bind_ok {x : Act α} {f : α → Act β} {c c' : Writer} {a : α}
    (h : x c = some (.ok a, c')) : (x >>= f) c = f a c' := by
  show (x c >>= fun p => ExceptT.bindCont f p.1 p.2) = _
  rw [h]
  rfl

theorem bind_error {x : Act α} {f : α → Act β} {c c' : Writer} {e : Thrown}
    (h : x c = some (.error e, c')) : (x >>= f) c = some (.error e, c') := by
  show (x c >>= fun p => ExceptT.bindCont f p.1 p.2) = _
  rw [h]
  rfl

theorem get_bind (f : Writer → Act α) (c : Writer) : ((get : Act Writer) >>= f) c = f c c := rfl

theorem advance_ok (n : Nat) (c : Writer) : advance n c = some (.ok (), c.advance n) := rfl

theorem write_ok (p : Nat) (bs : List UInt8) (c : Writer) :
    write p bs c = some (.ok (), c.put p bs) := rfl

@[simp] theorem put_off (c : Writer) (p : Nat) (bs : List UInt8) : (c.put p bs).off = c.off := rfl

@[simp] theorem length_put (c : Writer) (p : Nat) (bs : List UInt8) :
    (c.put p bs).buf.length = c.buf.length := length_store ..

/-- The bytes are appended, or an error is thrown and nothing has changed. -/
def Appends (x : Act Unit) (bytes : Except Thrown (List UInt8)) : Prop :=
  ∀ {c : Writer} {w : Encode.Writer} {gap : Nat → Prop}, Holds c w gap → ∃ c' : Writer,
    x c = some (bytes.map fun _ => (), c') ∧ Holds c' (w.app (bytes.toOption.getD [])) gap

/-- What an operation does in the room that it reserved. -/
inductive Within (n : Nat) (c : Writer) : Except Thrown (List UInt8) →
    Option (Except Thrown Unit × Writer) → Prop
  | pushed {b : List UInt8} (hlen : b.length ≤ n) :
    Within n c (.ok b) (some (.ok (), (c.put c.off b).advance b.length))
  | thrown {e : Thrown} {p : Nat} {b : List UInt8} (hp : c.off ≤ p) :
    Within n c (.error e) (some (.error e, c.put p b))

theorem Within.appends {n : Nat} (h : ∀ c : Writer, c.off + n ≤ c.buf.length →
    Within n c bytes (x c)) : Appends (do ensure m n; x) bytes := by
  intro c w gap hc
  obtain ⟨hfit, hroom⟩ := hc.fit m n
  show ∃ c', x (c.fit m n) = _ ∧ _
  generalize hr : x (c.fit m n) = r
  have hwithin := h _ hroom
  rw [hr] at hwithin
  cases hwithin with
  | pushed hlen => exact ⟨_, rfl, hfit.push (by omega)⟩
  | thrown hp =>
    refine ⟨_, rfl, ?_⟩
    have hnil : w.app [] = w := Appendable.app_nil w
    show Holds _ (w.app []) gap
    rw [hnil]
    exact hfit.scratch hp _

theorem writeNumber_ok {bs : List UInt8} {p : Nat} {c : Writer}
    (h : p + bs.length ≤ c.buf.length) :
    writeNumber (.ok bs) p c = some (.ok (), c.put p bs) := by
  show (if p + bs.length ≤ c.buf.length then write p bs else throw (.js .rangeError) : Act Unit) c = _
  rw [if_pos h]
  rfl

theorem writeUtf8_ok {s : JsString} {p : Nat} {c : Writer}
    (h : p + (utf8 s).length ≤ c.buf.length) :
    writeUtf8 s p c = some (.ok (utf8 s).length, c.put p (utf8 s)) := by
  show some (Except.ok (utf8Fitting (c.buf.length - p) s).length,
    c.put p (utf8Fitting (c.buf.length - p) s)) = _
  rw [utf8Fitting_eq s (by omega)]

theorem writeLatin1_ok {s : JsString} {p : Nat} {c : Writer}
    (h : p + (latin1 s).length ≤ c.buf.length) :
    writeLatin1 s p c = some (.ok (latin1 s).length, c.put p (latin1 s)) := by
  show some (Except.ok ((latin1 s).take (c.buf.length - p)).length,
    c.put p ((latin1 s).take (c.buf.length - p))) = _
  rw [List.take_of_length_le (by omega)]

theorem byte_appends (n : Double) : Appends (byte m n) (.ok (element n)) :=
  Within.appends m fun _ _ => .pushed (Nat.le_refl 1)

theorem number_appends {size : Nat} (hlen : ∀ bs, bytes = .ok bs → bs.length = size) :
    Appends (number m size bytes) bytes := by
  refine Within.appends m fun c hroom => ?_
  cases hb : bytes with
  | error e =>
    have hthrown := Within.thrown (n := size) (c := c) (e := e) (p := c.off) (b := []) (Nat.le_refl _)
    rw [c.put_nil] at hthrown
    exact hthrown
  | ok bs =>
    have hsize := hlen bs hb
    subst hsize
    rw [get_bind, bind_ok (writeNumber_ok hroom), advance_ok]
    exact .pushed (Nat.le_refl _)

theorem bytes_appends (b : List UInt8) : Appends (Protocol.bytes m b) (.ok b) :=
  Within.appends m fun _ _ => .pushed (Nat.le_refl _)

theorem str_appends (s : JsString) : Appends (str m s) (.ok (utf8 s)) := by
  refine Within.appends m fun c hroom => ?_
  have hlen := length_utf8 s
  rw [get_bind, bind_ok (writeUtf8_ok (by omega)), advance_ok]
  exact .pushed hlen

theorem length_latin1 (s : JsString) : (latin1 s).length = s.length := List.length_map ..

theorem asc_appends (s : JsString) : Appends (asc m s) (.ok (latin1 s)) := by
  refine Within.appends m fun c hroom => ?_
  have hlen := length_latin1 s
  rw [get_bind, bind_ok (writeLatin1_ok (by omega)), advance_ok]
  exact .pushed (Nat.le_of_eq hlen)

theorem cstr_appends (s : JsString) : Appends (cstr m s) (.ok (utf8 s ++ [0])) := by
  refine Within.appends m fun c hroom => ?_
  have hlast : ((c.put c.off (utf8 s)).advance (utf8 s).length).put (c.off + (utf8 s).length) [0] =
      (c.put c.off (utf8 s ++ [0])).advance (utf8 s).length :=
    Writer.ext (store_append [0]) rfl rfl
  rw [get_bind, bind_ok (writeUtf8_ok (by omega)), bind_ok (advance_ok _ _), get_bind,
    bind_ok (write_ok _ _ _), advance_ok]
  show Within _ c _ (some (.ok (), (((c.put c.off (utf8 s)).advance (utf8 s).length).put
    (c.off + (utf8 s).length) [0]).advance 1))
  rw [hlast]
  have hpushed := Within.pushed (n := (utf8 s).length + 1) (c := c) (b := utf8 s ++ [0])
    (by rw [List.length_append]; exact Nat.le_refl _)
  rw [List.length_append] at hpushed
  exact hpushed

theorem lpBytes_appends (b : List UInt8) :
    Appends (lpBytes m b) ((int32BE b.length).map (· ++ b)) := by
  intro c w gap hc
  have hlength : Appends (number m 4 (int32BE b.length)) (int32BE b.length) :=
    number_appends m fun _ h => Encode.checked_length h
  obtain ⟨c₁, hx, h₁⟩ := hlength hc
  unfold lpBytes
  cases hb : int32BE b.length with
  | error e =>
    rw [hb] at hx h₁
    exact ⟨c₁, bind_error hx, h₁⟩
  | ok b4 =>
    rw [hb] at hx h₁
    obtain ⟨c₂, hy, h₂⟩ := bytes_appends m b h₁
    refine ⟨c₂, (bind_ok hx).trans hy, ?_⟩
    have happ : (w.app b4).app b = w.app (b4 ++ b) := Appendable.app_app w b4 b
    show Holds c₂ (w.app (b4 ++ b)) gap
    rw [← happ]
    exact h₂

/-- A length is written when the bytes behind it are there. -/
theorem prefixed_appends {n : Nat} {body : Nat → Act Nat} {bs : List UInt8} (hlen : bs.length ≤ n)
    (hbody : ∀ (c : Writer) (p : Nat), p + bs.length ≤ c.buf.length →
      body p c = some (.ok bs.length, c.put p bs)) :
    Appends (do
      ensure m (4 + n)
      let k ← body ((← get).off + 4)
      writeNumber (int32BE k) (← get).off
      advance (4 + k)) ((int32BE bs.length).map (· ++ bs)) := by
  refine Within.appends m fun c hroom => ?_
  rw [get_bind, bind_ok (hbody c _ (by omega)), get_bind]
  cases hb : int32BE bs.length with
  | error e => exact .thrown (Nat.le_add_right ..)
  | ok b4 =>
    have h4 : b4.length = 4 := Encode.checked_length hb
    have hall := c.put_append' c.off b4 bs
    rw [h4] at hall
    rw [bind_ok (writeNumber_ok (by rw [put_off, length_put]; omega)), put_off, hall, advance_ok]
    have hpushed := Within.pushed (n := 4 + n) (c := c) (b := b4 ++ bs)
      (by rw [List.length_append]; omega)
    rw [List.length_append, h4] at hpushed
    exact hpushed

theorem lpStr_appends (s : JsString) :
    Appends (lpStr m s) ((int32BE (utf8 s).length).map (· ++ utf8 s)) :=
  prefixed_appends m (length_utf8 s) fun _ _ => writeUtf8_ok

theorem lpAsc_appends (s : JsString) :
    Appends (lpAsc m s) ((int32BE (latin1 s).length).map (· ++ latin1 s)) :=
  prefixed_appends m (Nat.le_of_eq (length_latin1 s)) fun _ _ => writeLatin1_ok

/-! ### Eight bytes -/

theorem int32BE_eight : int32BE 8 = .ok [0, 0, 0, 8] := rfl

theorem lpEight_appends (hlen : ∀ bs, bytes = .ok bs → bs.length = 8) :
    Appends (lpEight m bytes) (bytes.map ([0, 0, 0, 8] ++ ·)) := by
  refine Within.appends m fun c hroom => ?_
  have height : c.off + [(0 : UInt8), 0, 0, 8].length ≤ c.buf.length := by
    show c.off + 4 ≤ _
    omega
  rw [get_bind, int32BE_eight, bind_ok (writeNumber_ok height), get_bind, put_off]
  cases hb : bytes with
  | error e => exact .thrown (Nat.le_refl _)
  | ok bs =>
    have h8 := hlen bs hb
    have hall : (c.put c.off [0, 0, 0, 8]).put (c.off + 4) bs = c.put c.off ([0, 0, 0, 8] ++ bs) :=
      c.put_append c.off [0, 0, 0, 8] bs
    rw [bind_ok (writeNumber_ok (by rw [length_put]; omega)), hall, advance_ok]
    have hpushed := Within.pushed (n := 12) (c := c) (b := [0, 0, 0, 8] ++ bs)
      (by rw [List.length_append, h8]; exact Nat.le_refl _)
    rw [List.length_append, h8] at hpushed
    exact hpushed

theorem framed_eight {bs : List UInt8} (h : bs.length = 8) :
    Encode.framed (some bs) = [0, 0, 0, 8] ++ bs := by
  show bigEndian 4 bs.length ++ bs = _
  rw [h]
  rfl

/-- **Two words in doubles** are the whole number. -/
theorem lpI64_appends {v : Double} {n : Int} (hv : Double.Counts v n) :
    Appends (lpI64 m v) (.ok (Encode.framed (some (bigEndian 8 n)))) := by
  have hsafe := hv.safe
  unfold Double.Safe at hsafe
  have hhigh : numberInt32BE (Double.floor (Double.div v (.ofInt 4294967296))) =
      .ok (bigEndian 4 (n / 4294967296)) :=
    (checkedNumber_of_integer (hv.floor_div (by decide) (by decide)).integer?).trans
      (if_pos (by omega))
  have hlow : uint32BE v.toUint32 = .ok (bigEndian 4 (n % 4294967296)) := by
    unfold Double.toUint32
    rw [Double.trunc_of_integer hv.integer?]
    exact if_pos (by omega)
  have hlength := Encode.bigEndian_length 4
  apply Within.appends m
  intro c hroom
  have hfirst : (c.put c.off [0, 0, 0, 8]).put (c.off + 4) (bigEndian 4 (n / 4294967296)) =
      c.put c.off ([0, 0, 0, 8] ++ bigEndian 4 (n / 4294967296)) :=
    c.put_append c.off [0, 0, 0, 8] _
  have hall := c.put_append c.off ([0, 0, 0, 8] ++ bigEndian 4 (n / 4294967296))
    (bigEndian 4 (n % 4294967296))
  have height : [(0 : UInt8), 0, 0, 8].length + 4 = 8 := rfl
  rw [List.length_append, hlength, height, List.append_assoc, Encode.words_eq] at hall
  have height : c.off + [(0 : UInt8), 0, 0, 8].length ≤ c.buf.length := by
    show c.off + 4 ≤ _
    omega
  rw [get_bind, int32BE_eight, bind_ok (writeNumber_ok height), get_bind, put_off, hhigh,
    bind_ok (writeNumber_ok (by rw [length_put, hlength]; omega)), hfirst, get_bind, put_off, hlow,
    bind_ok (writeNumber_ok (by rw [length_put, hlength]; omega)), hall, advance_ok]
  have hpushed := Within.pushed (n := 12) (c := c) (b := [0, 0, 0, 8] ++ bigEndian 8 n)
    (by rw [List.length_append, Encode.bigEndian_length]; exact Nat.le_refl _)
  rw [List.length_append, Encode.bigEndian_length] at hpushed
  rw [framed_eight (Encode.bigEndian_length 8 n)]
  exact hpushed

/-! ### Digits -/

/-- The loop that counts the digits ends, and counts them. -/
theorem digitCount_eq {fuel : Nat} : ∀ {k : Nat} {t : Double} (d : Nat), Double.Counts t k →
    k < 10 ^ (fuel + 1) → digitCount (fuel + 1) t d = some (d + Encode.Writer.digitCount k - 1) := by
  induction fuel with
  | zero =>
    intro k t d ht hk
    have hlt : k < 10 := hk
    rw [digitCount, ht.ten_le, Encode.Writer.digitCount, if_pos hlt,
      if_neg (by rw [decide_eq_true_eq]; omega)]
    rfl
  | succ fuel ih =>
    intro k t d ht hk
    rw [digitCount, ht.ten_le, Encode.Writer.digitCount]
    by_cases hlt : k < 10
    · rw [if_neg (by rw [decide_eq_true_eq]; omega), if_pos hlt]
      rfl
    · have hnext : Double.Counts (Double.floor (Double.div t (.ofInt 10))) (k / 10 : Nat) :=
        ht.floor_div (d := 10) (by decide) (by decide)
      have hdiv : k / 10 < 10 ^ (fuel + 1) := by
        rw [Nat.pow_succ] at hk
        omega
      rw [if_pos (decide_eq_true (by omega)), if_neg hlt, ih (d + 1) hnext hdiv]
      congr 1
      omega

theorem digitCount_le {fuel : Nat} : ∀ {k : Nat}, k < 10 ^ (fuel + 1) →
    Encode.Writer.digitCount k ≤ fuel + 1 := by
  induction fuel with
  | zero =>
    intro k hk
    have hlt : k < 10 := hk
    rw [Encode.Writer.digitCount, if_pos hlt]
  | succ fuel ih =>
    intro k hk
    rw [Encode.Writer.digitCount]
    split
    · omega
    · rw [Nat.pow_succ] at hk
      exact Nat.succ_le_succ (ih (by omega))

/-- The digits are written from the last to the first. -/
theorem writeDigits_eq : ∀ {d p k : Nat} {n : Double} {c : Writer}, Double.Counts n k → d ≤ p →
    writeDigits d p n c = some (.ok (p - d), c.put (p + 1 - d) (Encode.Writer.digits d k))
  | 0, p, k, n, c => fun _ _ => by
    show some (Except.ok p, c) = some (Except.ok p, c.put (p + 1) [])
    rw [c.put_nil]
  | d + 1, p, k, n, c => fun hn hp => by
    have hlast : element (Double.add (.ofInt 48) (Double.rem n (.ofInt 10))) =
        [byteOf (48 + k % 10)] := by
      unfold element
      rw [Double.trunc_of_integer hn.digit.integer?]
      congr 2
      omega
    have hlen := Encode.digits_length d (k / 10)
    have hall := c.put_append' (p - d) (Encode.Writer.digits d (k / 10)) [byteOf (48 + k % 10)]
    rw [hlen, Nat.sub_add_cancel (by omega)] at hall
    show writeDigits d (p - 1) (Double.floor (Double.div n (.ofInt 10)))
      (c.put p (element (Double.add (.ofInt 48) (Double.rem n (.ofInt 10))))) = _
    rw [hlast, writeDigits_eq (hn.floor_div (d := 10) (by decide) (by decide)) (by omega),
      Nat.sub_add_cancel (by omega), hall, Nat.add_sub_add_right, Nat.sub_sub, Nat.add_comm 1 d]
    rfl

theorem length_written {k : Nat} (h : k ≤ 2147483647) : int32BE k = .ok (bigEndian 4 k) :=
  if_pos (by omega)

/-- A length and then what it is the length of. -/
theorem Within.framed {n : Nat} {c : Writer} {b : List UInt8} (h : 4 + b.length ≤ n) :
    Within n c (.ok (Encode.framed (some b))) (some (.ok (),
      ((c.put c.off (bigEndian 4 b.length)).put (c.off + 4) b).advance (4 + b.length))) := by
  have hlen : (bigEndian 4 b.length).length = 4 := Encode.bigEndian_length 4 _
  have hall := c.put_append c.off (bigEndian 4 b.length) b
  have hpushed := Within.pushed (n := n) (c := c) (b := bigEndian 4 b.length ++ b)
    (by rw [List.length_append, hlen]; exact h)
  rw [List.length_append, hlen] at hpushed
  rw [hlen] at hall
  rw [hall]
  exact hpushed

theorem lift_ok {α : Type} {o : Option α} {a : α} {c : Writer} (h : o = some a) :
    (liftM o : Act α) c = some (.ok a, c) := by
  rw [h]
  rfl

/-- The digits are written behind the length, and the sign in front of them. -/
theorem writeInteger_within {d k : Nat} {x : Double} {c : Writer} (neg : Bool)
    (hx : Double.Counts x k) (hd : 0 < d) (hd' : d ≤ 16) (hroom : c.off + 25 ≤ c.buf.length) :
    Within 25 c (.ok (Encode.framed (some ((if neg then [45] else []) ++
      Encode.Writer.digits d k)))) (writeInteger d neg x c) := by
  have hdigits : (Encode.Writer.digits d k).length = d := Encode.digits_length d _
  have hlen := fun n => Encode.bigEndian_length 4 n
  unfold writeInteger
  cases neg with
  | true =>
    have htext : ([45] ++ Encode.Writer.digits d k).length = d + 1 := by
      rw [List.length_append, hdigits, Nat.add_comm]
      rfl
    have hsign := (c.put c.off (bigEndian 4 (d + 1 : Nat))).put_append' (c.off + 4) [45]
      (Encode.Writer.digits d k)
    have hframed := Within.framed (n := 25) (c := c) (b := [45] ++ Encode.Writer.digits d k)
      (by omega)
    have hfront : c.off + 4 + (d + 1) - 1 - d = c.off + 4 := by omega
    have hbehind : c.off + 4 + (d + 1) - 1 + 1 - d = c.off + 4 + [(45 : UInt8)].length := by
      show _ = c.off + 4 + 1
      omega
    simp only [if_true]
    rw [get_bind, length_written (by omega), bind_ok (writeNumber_ok (by rw [hlen]; omega)),
      get_bind, put_off, bind_ok (writeDigits_eq hx (by omega)), hfront, hbehind,
      bind_ok (write_ok _ _ _), hsign, advance_ok]
    rw [htext] at hframed
    exact hframed
  | false =>
    have hframed := Within.framed (n := 25) (c := c) (b := Encode.Writer.digits d k) (by omega)
    have hfront : c.off + 4 + d - 1 + 1 - d = c.off + 4 := by omega
    simp only [Bool.false_eq_true, if_false, Nat.add_zero, List.nil_append]
    rw [get_bind, length_written (by omega), bind_ok (writeNumber_ok (by rw [hlen]; omega)),
      get_bind, put_off, bind_ok (writeDigits_eq hx (by omega)), hfront]
    rw [hdigits] at hframed
    exact hframed

/-- **Digits in doubles** are those of the number. -/
theorem lpAsciiInt_appends {v : Double} {n : Int} (hv : Double.Counts v n) {fuel : Nat}
    (hfuel : 16 ≤ fuel) :
    Appends (lpAsciiInt m fuel v) (.ok (Encode.framed (some (latin1 (bigintString n))))) := by
  have hsafe := hv.safe
  unfold Double.Safe at hsafe
  have hsmall : n.natAbs < 10 ^ 16 := by omega
  have hcount : digitCount fuel (if Double.lt v (.ofInt 0) then Double.neg v else v) 1 =
      some (Encode.Writer.digitCount n.natAbs) := by
    obtain ⟨fuel, rfl⟩ := Nat.exists_eq_add_of_le' (Nat.lt_of_lt_of_le (by decide : 0 < 16) hfuel)
    have hpow : 10 ^ 16 ≤ 10 ^ (fuel + 1) := Nat.pow_le_pow_right (by decide) hfuel
    rw [digitCount_eq 1 hv.abs (Nat.lt_of_lt_of_le hsmall hpow), Nat.add_sub_cancel_left]
  have hpos : 0 < Encode.Writer.digitCount n.natAbs := by
    unfold Encode.Writer.digitCount
    split
    · exact Nat.one_pos
    · exact Nat.succ_pos _
  have htext := Encode.latin1_bigintString n
  apply Within.appends m
  intro c hroom
  rw [bind_ok (lift_ok hcount)]
  have hwithin := writeInteger_within (decide (n < 0)) hv.abs hpos (digitCount_le hsmall) hroom
  rw [htext]
  simp only [decide_eq_true_eq] at hwithin
  rw [← hv.lt_zero] at hwithin
  exact hwithin

end Appends

end Minipg.Protocol
