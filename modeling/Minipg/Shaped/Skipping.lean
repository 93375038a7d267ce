import Minipg.Neon.Agreement
import Minipg.Shaped.Scanner

/-!
# The cursor on a text

The loops of the scanner stop where the text does: `skipString` behind a string, `skipValue` behind
any value (`skipValue_text`), `skipObjEnd` behind the object that is open (`skipObjEnd_text`).
-/

namespace Minipg.Shaped

open Js
open Cells (Runtime)
open Json (Apart Ast Chars IsByte Reads ReadsMembers Rules fuel_rules isNumeric isNumericByte isWs
  jsonParse number parseText skipWs)
open Neon (wellFormed_before wellFormed_behind wellFormed_head)

namespace Cursor

/-- The cursor before the bytes of a text. -/
def before (post : List UInt8) (s : JsString) : Cursor := ⟨utf8 s, post⟩

variable {post : List UInt8} {s t r rest : JsString} {u k : UInt16} {c : UInt8}

theorem peek_cons (hu : IsByte u c) : (before post (u :: t)).peek = some c := by
  obtain ⟨hu, rfl⟩ := hu
  unfold before peek bytes
  rw [utf8_cons_ascii hu]
  rfl

theorem peek_ne (hk : IsByte k c) (h : u ≠ k) : (before post (u :: t)).peek ≠ some c := by
  have hhead := Json.utf8_head_ne hk h t
  have hne : utf8 (u :: t) ≠ [] := by
    intro hnil
    have hlen := Json.utf8_length_ge (u :: t)
    rw [hnil] at hlen
    cases hlen
  unfold before peek bytes
  rwa [List.head?_append_of_ne_nil _ hne]

theorem advance_cons (hu : IsAscii u) : (before post (u :: t)).advance 1 = before post t := by
  unfold before advance
  rw [utf8_cons_ascii hu]
  dsimp only
  rw [List.length_cons, Nat.sub_eq_zero_of_le (Nat.le_add_left 1 _)]
  rfl

theorem cell_ne_nil : (before post (u :: t)).cell ≠ [] := by
  intro hnil
  have hlen := Json.utf8_length_ge (u :: t)
  rw [show utf8 (u :: t) = [] from hnil] at hlen
  cases hlen

/-- A word is passed over by its length. -/
theorem advance_word {w : JsString} (hw : ∀ u ∈ w, IsAscii u) (r : JsString) :
    (before post (w ++ r)).advance w.length = before post r := by
  have hlen : (latin1 w).length = w.length := List.length_map _
  unfold before advance
  rw [Json.utf8_word hw, ← hlen, List.drop_left, List.length_append,
    Nat.sub_eq_zero_of_le (Nat.le_add_right _ _)]
  rfl

theorem skipWs_before (s : JsString) : (before post s).skipWs = before post (Json.skipWs s) :=
  congrArg (Cursor.mk · post) (Json.ws_utf8 s)

/-- A loop stops behind the characters it passes over. -/
theorem pass_word {p : UInt8 → Bool} {w : JsString} (hw : ∀ u ∈ w, IsAscii u ∧ p (byteOf u.toNat))
    (hu : IsByte u c) (hc : ¬p c) :
    (before post (w ++ u :: t)).pass p = before post (u :: t) := by
  obtain ⟨hu, rfl⟩ := hu
  have hall : ∀ d ∈ latin1 w, p d = true := by
    intro d hd
    obtain ⟨v, hv, rfl⟩ := List.mem_map.mp hd
    exact (hw v hv).2
  unfold before pass
  rw [Json.utf8_word fun v hv => (hw v hv).1]
  dsimp only
  rw [List.dropWhile_append_of_pos hall, utf8_cons_ascii hu, List.dropWhile_cons_of_neg hc]

/-- The bytes up to where a well-formed text goes on. -/
theorem upTo_before {c r : JsString} (hr : isWellFormed r) :
    (before post (c ++ r)).upTo (before post r) = utf8 c := by
  unfold before upTo bytes
  rw [utf8_append _ (wellFormed_head hr)]
  simp only [List.length_append]
  rw [List.append_assoc, List.take_append_of_le_length (by omega),
    List.take_of_length_le (by omega)]

/-! ### Strings -/

theorem charsLoop_eq : ∀ (b post : List UInt8), (Json.scanString b).2.2 ≠ [] →
    charsLoop b post = ((Json.scanString b).1, ⟨(Json.scanString b).2.2, post⟩)
  | [], _, h => absurd rfl h
  | c :: b, post, h => by
    rw [charsLoop.eq_def, Json.scanString.eq_def]
    rw [Json.scanString.eq_def] at h
    dsimp only at h ⊢
    split
    · rename_i hb
      rw [if_pos hb] at h
      cases b with
      | nil => exact absurd rfl h
      | cons e b =>
        dsimp only at h ⊢
        rw [charsLoop_eq b post h]
    split
    · rfl
    · rename_i hb hq
      rw [if_neg hb, if_neg hq] at h
      exact charsLoop_eq b post h

/-- A string that is read. -/
theorem chars_text (hwf : isWellFormed s) {v : JsString} (h : Chars s v rest) :
    isWellFormed rest ∧ ∃ body esc, s = body ++ 34 :: rest ∧ isWellFormed body ∧
      (before post (34 :: s)).chars = (esc, before post (34 :: rest)) ∧ (esc = false → v = body) ∧
      Json.parseChars (body ++ [34]) = some (v, []) := by
  obtain ⟨hrest, body, esc, hspan, hval, hp⟩ := Json.parseChars_reads _ (Nat.le_refl _) hwf h
  refine ⟨hrest, body, esc, hspan.split, hspan.wellFormed, ?_, hval, hp⟩
  have hne : (Json.scanString (utf8 s)).2.2 ≠ [] := by
    rw [hspan.scan]
    exact List.cons_ne_nil _ _
  have h34 : utf8 (34 :: rest) = 34 :: utf8 rest := utf8_cons_ascii (by decide) rest
  unfold chars
  rw [advance_cons (by decide)]
  show charsLoop (utf8 s) post = (esc, ⟨utf8 (34 :: rest), post⟩)
  rw [charsLoop_eq _ _ hne, hspan.scan, h34]

theorem skipString_text (hwf : isWellFormed s) {v : JsString} (h : Chars s v rest) :
    (before post (34 :: s)).skipString = before post rest := by
  obtain ⟨-, body, esc, -, -, hchars, -⟩ := @chars_text post s rest hwf v h
  unfold skipString
  rw [hchars]
  dsimp only
  rw [if_neg cell_ne_nil, advance_cons (by decide)]

/-! ### The end of a value -/

/-- A pair of brackets, as characters and as bytes. -/
structure Brackets where
  opening : UInt16
  closing : UInt16
  openByte : UInt8
  closeByte : UInt8
  isOpen : IsByte opening openByte
  isClose : IsByte closing closeByte
  apart : openByte ≠ closeByte
  noQuote : openByte ≠ 34 ∧ closeByte ≠ 34

def braces : Brackets := ⟨123, 125, 123, 125, by decide, by decide, by decide, by decide⟩

def squares : Brackets := ⟨91, 93, 91, 93, by decide, by decide, by decide, by decide⟩

namespace Brackets

variable (p : Brackets)

def loop (depth : Int) (c : Cursor) : Cursor := closeLoop p.openByte p.closeByte depth c

/-- A character that the loop passes over. -/
def Plain (u : UInt16) : Prop :=
  IsAscii u ∧ byteOf u.toNat ≠ 34 ∧ byteOf u.toNat ≠ p.openByte ∧ byteOf u.toNat ≠ p.closeByte

instance (u : UInt16) : Decidable (p.Plain u) := inferInstanceAs (Decidable (_ ∧ _))

variable {p}

theorem loop_plain (hu : p.Plain u) (depth : Int) (s : JsString) :
    p.loop depth (before post (u :: s)) = p.loop depth (before post s) := by
  have hpeek : (before post (u :: s)).peek = some (byteOf u.toNat) := peek_cons ⟨hu.1, rfl⟩
  unfold loop
  rw [closeLoop, if_neg cell_ne_nil, hpeek, if_neg fun h => hu.2.1 (Option.some.inj h),
    if_neg fun h => hu.2.2.1 (Option.some.inj h), if_neg fun h => hu.2.2.2 (Option.some.inj h),
    advance_cons hu.1]

theorem loop_open (depth : Int) (s : JsString) :
    p.loop depth (before post (p.opening :: s)) = p.loop (depth + 1) (before post s) := by
  unfold loop
  rw [closeLoop, if_neg cell_ne_nil, peek_cons p.isOpen,
    if_neg fun h => p.noQuote.1 (Option.some.inj h), if_pos rfl, advance_cons p.isOpen.1]

theorem loop_close (depth : Int) (s : JsString) :
    p.loop depth (before post (p.closing :: s)) =
      if depth - 1 = 0 then before post s else p.loop (depth - 1) (before post s) := by
  unfold loop
  rw [closeLoop, if_neg cell_ne_nil, peek_cons p.isClose,
    if_neg fun h => p.noQuote.2 (Option.some.inj h),
    if_neg fun h => p.apart (Option.some.inj h).symm, if_pos rfl, advance_cons p.isClose.1]

theorem loop_string (hwf : isWellFormed s) {v : JsString} (h : Chars s v rest) (depth : Int) :
    p.loop depth (before post (34 :: s)) = p.loop depth (before post rest) := by
  unfold loop
  rw [closeLoop, if_neg cell_ne_nil, peek_cons (show IsByte 34 34 by decide), if_pos rfl,
    skipString_text hwf h]

variable (p) in
/-- What is read leaves the depth as it was. -/
def Balanced (s rest : JsString) : Prop := isWellFormed s → isWellFormed rest ∧
  ∀ (post : List UInt8) (depth : Int), 0 < depth →
    p.loop depth (before post s) = p.loop depth (before post rest)

variable (p) in
/-- What is read goes on up to the bracket that closes it. -/
def Closed (s rest : JsString) : Prop := p.Balanced s (p.closing :: rest)

namespace Balanced

theorem trans (h : p.Balanced s t) (h' : p.Balanced t r) : p.Balanced s r := by
  intro hwf
  obtain ⟨ht, hs⟩ := h hwf
  obtain ⟨hr, ht⟩ := h' ht
  exact ⟨hr, fun post depth hd => (hs post depth hd).trans (ht post depth hd)⟩

theorem plain (hu : p.Plain u) (s : JsString) : p.Balanced (u :: s) s := fun hwf =>
  ⟨wellFormed_ascii hu.1 ▸ hwf, fun _ depth _ => loop_plain hu depth s⟩

theorem word {c : JsString} (hc : ∀ u ∈ c, p.Plain u) (rest : JsString) :
    p.Balanced (c ++ rest) rest := by
  induction c with
  | nil => exact fun hwf => ⟨hwf, fun _ _ _ => rfl⟩
  | cons u c ih =>
    have hrest := ih fun v hv => hc v (List.mem_cons_of_mem u hv)
    exact (plain (hc u List.mem_cons_self) (c ++ rest)).trans hrest

theorem skip (hws : ∀ u, isWs u → p.Plain u) (s : JsString) : p.Balanced s (Json.skipWs s) := by
  have hsplit : s = s.takeWhile isWs ++ Json.skipWs s := List.takeWhile_append_dropWhile.symm
  have hword : p.Balanced (s.takeWhile isWs ++ Json.skipWs s) (Json.skipWs s) :=
    word (fun u hu => hws u (List.mem_takeWhile_imp hu)) _
  rwa [← hsplit] at hword

theorem string (hws : ∀ u, isWs u → p.Plain u) {v b : JsString} (hs : Json.skipWs s = 34 :: b)
    (h : Chars b v rest) : p.Balanced s rest := by
  refine (hs ▸ skip hws s).trans fun hwf => ?_
  rw [wellFormed_ascii (by decide)] at hwf
  exact ⟨(@chars_text [] b rest hwf v h).1, fun _ depth _ => loop_string hwf h depth⟩

/-- One more is open between its brackets. -/
theorem nest (hws : ∀ u, isWs u → p.Plain u) (hs : Json.skipWs s = p.opening :: t)
    (h : p.Closed t rest) : p.Balanced s rest := by
  refine (hs ▸ skip hws s).trans fun hwf => ?_
  rw [wellFormed_ascii p.isOpen.1] at hwf
  obtain ⟨hrest, hclose⟩ := h hwf
  rw [wellFormed_ascii p.isClose.1] at hrest
  refine ⟨hrest, fun post depth hd => ?_⟩
  rw [loop_open, hclose post (depth + 1) (by omega), loop_close, if_neg (by omega),
    Int.add_sub_cancel]

end Balanced

end Brackets

open Brackets (Balanced Closed)

theorem isWs_braces (u : UInt16) (h : isWs u) : braces.Plain u := by
  unfold isWs at h
  rw [decide_eq_true_eq] at h
  rcases h with rfl | rfl | rfl | rfl
  all_goals decide

theorem isWs_squares (u : UInt16) (h : isWs u) : squares.Plain u := by
  unfold isWs at h
  rw [decide_eq_true_eq] at h
  rcases h with rfl | rfl | rfl | rfl
  all_goals decide

/-- A character of a number, of `true`, `false` or `null`. -/
def isWordUnit (u : UInt16) : Bool := isNumeric u || (97 ≤ u.toNat && u.toNat ≤ 122)

theorem isWordUnit_ascii {u : UInt16} (h : isWordUnit u) : IsAscii u := by
  rcases Bool.or_eq_true_iff.mp h with h | h
  · exact Json.isNumeric_ascii u h
  · have hu := Bool.and_eq_true_iff.mp h
    have hle := of_decide_eq_true hu.2
    unfold IsAscii
    omega

/-- Neither a quote nor white space nor a comma nor a bracket. -/
theorem isWordUnit_plain {u : UInt16} (h : isWordUnit u) : braces.Plain u ∧ squares.Plain u ∧
    byteOf u.toNat ≠ 44 ∧ byteOf u.toNat ≠ 125 ∧ byteOf u.toNat ≠ 93 := by
  have hascii := isWordUnit_ascii h
  have hbytes := Json.forall_ascii (P := fun u c => isWordUnit u → c ≠ 34 ∧ c ≠ 123 ∧ c ≠ 125 ∧
    c ≠ 91 ∧ c ≠ 93 ∧ c ≠ 44) (by decide) u hascii h
  obtain ⟨hquote, hbrace, hbrace', hsquare, hsquare', hcomma⟩ := hbytes
  exact ⟨⟨hascii, hquote, hbrace, hbrace'⟩, ⟨hascii, hquote, hsquare, hsquare'⟩, hcomma, hbrace',
    hsquare'⟩

theorem parseWord_units {s rest : JsString} {a : Ast} (h : Json.parseWord s = some (a, rest)) :
    ∃ w, s = w ++ rest ∧ ∀ u ∈ w, isWordUnit u := by
  unfold Json.parseWord at h
  split at h
  · rename_i hp
    obtain ⟨r, rfl⟩ := hp
    cases h
    exact ⟨_, rfl, forall_of_all (by decide)⟩
  split at h
  · rename_i hp
    obtain ⟨r, rfl⟩ := hp
    cases h
    exact ⟨_, rfl, forall_of_all (by decide)⟩
  split at h
  · rename_i hp
    obtain ⟨r, rfl⟩ := hp
    cases h
    exact ⟨_, rfl, forall_of_all (by decide)⟩
  split at h
  · cases h
    refine ⟨_, List.takeWhile_append_dropWhile.symm, fun u hu => ?_⟩
    exact Bool.or_eq_true_iff.mpr (.inl (List.mem_takeWhile_imp hu))
  · cases h

theorem balanced_behind {p : Brackets} (hws : ∀ u, isWs u → p.Plain u)
    (hs : Json.skipWs s = u :: t) (hu : p.Plain u) : p.Balanced s t :=
  (hs ▸ Balanced.skip hws s).trans (Balanced.plain hu t)

theorem closed_at {p : Brackets} (hws : ∀ u, isWs u → p.Plain u)
    (hs : Json.skipWs s = p.closing :: t) : p.Closed s t := by
  have hskip := Balanced.skip hws s
  rwa [hs] at hskip

theorem balanced_word {p : Brackets} (hws : ∀ u, isWs u → p.Plain u)
    (hword : ∀ u, isWordUnit u → p.Plain u) {a : Ast} (hs : Json.skipWs s = u :: t)
    (h : Json.parseWord (u :: t) = some (a, rest)) : p.Balanced s rest := by
  obtain ⟨w, hw, hunits⟩ := parseWord_units h
  refine (Balanced.skip hws s).trans ?_
  rw [hs, hw]
  exact Balanced.word (fun v hv => hword v (hunits v hv)) rest

theorem braces_rules : Rules (fun s _ rest => braces.Balanced s rest)
    (fun s _ rest => braces.Balanced s rest) (fun s _ rest => braces.Closed s rest) := by
  have hskip : ∀ {s t : JsString} {u : UInt16}, Json.skipWs s = u :: t → braces.Plain u →
      braces.Balanced s t := balanced_behind isWs_braces
  have hclose : ∀ {s t : JsString}, Json.skipWs s = 125 :: t → braces.Closed s t :=
    closed_at isWs_braces
  have hstring : ∀ {s t v rest : JsString}, Json.skipWs s = 34 :: t →
      Json.parseChars t = some (v, rest) → braces.Balanced s rest :=
    fun hs hk => .string isWs_braces hs (Json.parseChars_iff.mp hk)
  constructor
  case emptyObject => exact fun hs ht => .nest isWs_braces hs (hclose ht)
  case object => exact fun hs _ h => .nest isWs_braces hs ((Balanced.skip isWs_braces _).trans h)
  case emptyArray => exact fun hs ht => (hskip hs (by decide)).trans (hskip ht (by decide))
  case array =>
    exact fun hs _ h => (hskip hs (by decide)).trans ((Balanced.skip isWs_braces _).trans h)
  case string => exact fun hs hv => hstring hs hv
  case word =>
    exact fun hs _ _ _ h =>
      balanced_word isWs_braces (fun _ hu => (isWordUnit_plain hu).1) hs h
  case lastItem => exact fun hv hr => hv.trans (hskip hr (by decide))
  case item => exact fun hv hr hvs => (hv.trans (hskip hr (by decide))).trans hvs
  case lastMember =>
    exact fun hs hk hcol hv hr =>
      (((hstring hs hk).trans (hskip hcol (by decide))).trans hv).trans (hclose hr)
  case member =>
    exact fun hs hk hcol hv hr hms =>
      ((((hstring hs hk).trans (hskip hcol (by decide))).trans hv).trans
        (hskip hr (by decide))).trans hms

theorem squares_rules : Rules (fun s _ rest => squares.Balanced s rest)
    (fun s _ rest => squares.Closed s rest) (fun s _ rest => squares.Balanced s rest) := by
  have hskip : ∀ {s t : JsString} {u : UInt16}, Json.skipWs s = u :: t → squares.Plain u →
      squares.Balanced s t := balanced_behind isWs_squares
  have hclose : ∀ {s t : JsString}, Json.skipWs s = 93 :: t → squares.Closed s t :=
    closed_at isWs_squares
  have hstring : ∀ {s t v rest : JsString}, Json.skipWs s = 34 :: t →
      Json.parseChars t = some (v, rest) → squares.Balanced s rest :=
    fun hs hk => .string isWs_squares hs (Json.parseChars_iff.mp hk)
  constructor
  case emptyObject => exact fun hs ht => (hskip hs (by decide)).trans (hskip ht (by decide))
  case object =>
    exact fun hs _ h => (hskip hs (by decide)).trans ((Balanced.skip isWs_squares _).trans h)
  case emptyArray => exact fun hs ht => .nest isWs_squares hs (hclose ht)
  case array => exact fun hs _ h => .nest isWs_squares hs ((Balanced.skip isWs_squares _).trans h)
  case string => exact fun hs hv => hstring hs hv
  case word =>
    exact fun hs _ _ _ h =>
      balanced_word isWs_squares (fun _ hu => (isWordUnit_plain hu).2.1) hs h
  case lastItem => exact fun hv hr => hv.trans (hclose hr)
  case item => exact fun hv hr hvs => (hv.trans (hskip hr (by decide))).trans hvs
  case lastMember =>
    exact fun hs hk hcol hv hr =>
      (((hstring hs hk).trans (hskip hcol (by decide))).trans hv).trans (hskip hr (by decide))
  case member =>
    exact fun hs hk hcol hv hr hms =>
      ((((hstring hs hk).trans (hskip hcol (by decide))).trans hv).trans
        (hskip hr (by decide))).trans hms

/-- From the first bracket on the loop stops behind the last one. -/
theorem loop_text {p : Brackets} (hwf : isWellFormed (p.opening :: t)) (h : p.Closed t rest) :
    p.loop 0 (before post (p.opening :: t)) = before post rest := by
  rw [wellFormed_ascii p.isOpen.1] at hwf
  rw [Brackets.loop_open, (h hwf).2 post (0 + 1) (by decide), Brackets.loop_close,
    if_pos (by decide)]

/-- What stands behind a value in an object or an array. -/
def Delimited (rest : JsString) : Prop :=
  ∃ u t, Json.skipWs rest = u :: t ∧ (u = 44 ∨ u = 125 ∨ u = 93)

/-- A word and the white space behind it are passed over. -/
theorem pass_value {w : JsString} (hw : ∀ u ∈ w, isWordUnit u) (hrest : Delimited rest) :
    (before post (w ++ rest)).pass (fun d => ¬(d = 44 ∨ d = 125 ∨ d = 93)) =
      before post (Json.skipWs rest) := by
  obtain ⟨u, t, hu, hdelim⟩ := hrest
  have hsplit : rest = rest.takeWhile isWs ++ u :: t := by
    rw [← hu]
    exact List.takeWhile_append_dropWhile.symm
  have hbyte : IsByte u (byteOf u.toNat) ∧
      ¬decide (¬(byteOf u.toNat = 44 ∨ byteOf u.toNat = 125 ∨ byteOf u.toNat = 93)) = true := by
    rcases hdelim with rfl | rfl | rfl
    all_goals decide
  have hpass : ∀ v ∈ w ++ rest.takeWhile isWs, IsAscii v ∧
      decide (¬(byteOf v.toNat = 44 ∨ byteOf v.toNat = 125 ∨ byteOf v.toNat = 93)) = true := by
    intro v hv
    rcases List.mem_append.mp hv with hv | hv
    · obtain ⟨-, -, hcomma, hbrace, hsquare⟩ := isWordUnit_plain (hw v hv)
      refine ⟨isWordUnit_ascii (hw v hv), decide_eq_true fun h => ?_⟩
      rcases h with h | h | h
      · exact hcomma h
      · exact hbrace h
      · exact hsquare h
    · have hws := List.mem_takeWhile_imp hv
      unfold isWs at hws
      rw [decide_eq_true_eq] at hws
      rcases hws with rfl | rfl | rfl | rfl
      all_goals decide
  rw [hu, hsplit, ← List.append_assoc]
  exact pass_word hpass hbyte.1 hbyte.2

/-- **A value is skipped**, with the white space behind it where it has no end of its own. -/
theorem skipValue_text (hwf : isWellFormed s) {a : Ast} (h : Reads s a rest)
    (hrest : Delimited rest) : ∃ w r, rest = w ++ r ∧ (∀ u ∈ w, isWs u) ∧
      (r = rest ∨ r = Json.skipWs rest) ∧ (before post s).skipValue = before post r := by
  have hskip := Json.wellFormed_skipWs hwf
  have hexact : (before post s).skipValue = before post rest → ∃ w r, rest = w ++ r ∧
      (∀ u ∈ w, isWs u) ∧ (r = rest ∨ r = Json.skipWs rest) ∧
        (before post s).skipValue = before post r :=
    fun h => ⟨[], rest, rfl, fun _ hu => absurd hu List.not_mem_nil, .inl rfl, h⟩
  have hobject : ∀ {t}, Json.skipWs s = 123 :: t → braces.Closed t rest →
      (before post s).skipValue = before post rest := by
    intro t hs hclose
    rw [hs] at hskip
    unfold skipValue
    dsimp only
    rw [skipWs_before, hs, if_neg (peek_ne (show IsByte 34 34 by decide) (by decide)),
      if_pos (peek_cons (by decide))]
    exact loop_text (p := braces) hskip hclose
  have harray : ∀ {t}, Json.skipWs s = 91 :: t → squares.Closed t rest →
      (before post s).skipValue = before post rest := by
    intro t hs hclose
    rw [hs] at hskip
    unfold skipValue
    dsimp only
    rw [skipWs_before, hs, if_neg (peek_ne (show IsByte 34 34 by decide) (by decide)),
      if_neg (peek_ne (show IsByte 123 123 by decide) (by decide)), if_pos (peek_cons (by decide))]
    exact loop_text (p := squares) hskip hclose
  cases h.form with
  | emptyObject hs ht => exact hexact (hobject hs (closed_at isWs_braces ht))
  | object hs _ hms =>
    have hclose := (braces_rules.read _).2.2 (hms.2 _ (Nat.le_add_right _ _))
    exact hexact (hobject hs ((Balanced.skip isWs_braces _).trans hclose))
  | emptyArray hs ht => exact hexact (harray hs (closed_at isWs_squares ht))
  | array hs _ hvs =>
    have hclose := (squares_rules.read _).2.1 (hvs.2 _ (Nat.le_add_right _ _))
    exact hexact (harray hs ((Balanced.skip isWs_squares _).trans hclose))
  | string hs hv =>
    refine hexact ?_
    rw [hs, wellFormed_ascii (by decide)] at hskip
    unfold skipValue
    dsimp only
    rw [skipWs_before, hs, if_pos (peek_cons (by decide)),
      skipString_text hskip (Json.parseChars_iff.mp hv)]
  | word hs hbrace hsquare hquote hw =>
    obtain ⟨w, hsplit, hunits⟩ := parseWord_units hw
    refine ⟨rest.takeWhile isWs, Json.skipWs rest, List.takeWhile_append_dropWhile.symm,
      fun u hu => List.mem_takeWhile_imp hu, .inr rfl, ?_⟩
    unfold skipValue
    dsimp only
    rw [skipWs_before, hs, if_neg (peek_ne (by decide) hquote),
      if_neg (peek_ne (by decide) hbrace), if_neg (peek_ne (by decide) hsquare), hsplit]
    exact pass_value hunits hrest

/-- What is left of an object is skipped up to its end. -/
theorem skipObjEnd_text (hwf : isWellFormed s) (h : braces.Closed s rest) :
    (before post s).skipObjEnd = before post rest := by
  show braces.loop 1 (before post s) = before post rest
  rw [(h hwf).2 post 1 (by decide)]
  exact (Brackets.loop_close 1 rest).trans (if_pos (by decide))

/-- The skipped bytes are a text of the value. -/
theorem skipped_parses (rt : Runtime) (hwf : isWellFormed s) {a : Ast} (h : Reads s a rest)
    {w : JsString} (hr : rest = w ++ r) (hw : ∀ u ∈ w, isWs u) :
    jsonParse rt (rt.standard.utf8 ((before post s).upTo (before post r))) =
      some (a.record.value (number rt)) := by
  obtain ⟨u, c, hs, hlocal⟩ := (Json.local_rules.read s.length).1 (h.2 s.length (by omega))
  have hapart : Apart w := by
    intro v hv
    have hws := hw v (List.mem_of_mem_head? hv)
    unfold isWs at hws
    rw [decide_eq_true_eq] at hws
    rcases hws with rfl | rfl | rfl | rfl
    all_goals decide
  have hblank : Json.skipWs w = [] := List.dropWhile_eq_nil_iff.mpr hw
  have hparse := Json.parseText_of_value ((hlocal w hapart).2 _ (Nat.le_add_right _ _)) hblank
  have hrest := Neon.reads_wellFormed h hwf
  have hwfr : isWellFormed r := by
    rw [hr] at hrest
    exact Json.wellFormed_word (fun v hv => Json.isWs_ascii v (hw v hv)) hrest
  have hchunk : s = ((u :: c) ++ w) ++ r := by
    rw [hs, hr, List.append_assoc]
  rw [hchunk] at hwf
  have hwfc := wellFormed_before _ (Nat.le_refl _) hwf hwfr
  rw [hchunk, upTo_before hwfr, Json.standard_utf8 rt hwfc]
  unfold jsonParse
  rw [hparse]
  rfl

end Cursor

end Minipg.Shaped
