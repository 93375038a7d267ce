import Minipg.Json.Keys
import Minipg.Neon.Raw

/-!
# Scanning a text

On the bytes of a text the scanning finds what the text has: keys, the ends of strings and of
arrays.
-/

namespace Minipg.Neon

open Js
open Json (Ast Chars Reads ReadsItems ReadsMembers Rules Tree ws jsonParse skipWs parseChars)
open Cells (Bytes Runtime)
open Encode (Thrown)

/-! ### Keys -/

section Keys

variable {α : Type} [DecidableEq α] {key : List α}

theorem after_append (hne : key ≠ []) (q : List α) : after key (key ++ q) = some q := by
  obtain ⟨k, ks, rfl⟩ := List.exists_cons_of_ne_nil hne
  have hdrop : ((k :: ks) ++ q).drop (k :: ks).length = q := List.drop_left
  show (if k :: ks <+: (k :: ks) ++ q then some (((k :: ks) ++ q).drop _) else _) = _
  rw [if_pos (List.prefix_append _ _), hdrop]

theorem after_skip {c : α} {b : List α} (h : ¬key <+: c :: b) : after key (c :: b) = after key b :=
  if_neg h

theorem after_suffix : ∀ {b q : List α}, after key b = some q → key ++ q <:+ b
  | [], _, h => by cases h
  | c :: b, q, h => by
    unfold after at h
    split at h
    · rename_i hp
      obtain ⟨r, hr⟩ := hp
      cases h
      rw [← hr, List.drop_left]
    · exact (after_suffix h).trans (List.suffix_cons c b)

/-- The first is found. -/
theorem after_of_suffix (hne : key ≠ []) : ∀ {b q : List α}, key ++ q <:+ b →
    ∃ r, after key b = some r ∧ q <:+ r
  | [], q, h => by
    have hnil := List.append_eq_nil_iff.mp (List.suffix_nil.mp h)
    exact absurd hnil.1 hne
  | c :: b, q, h => by
    by_cases hp : key <+: c :: b
    · obtain ⟨r, hr⟩ := hp
      refine ⟨r, ?_, ?_⟩
      · rw [← hr]
        exact after_append hne r
      · rw [← hr] at h
        have hlen := h.length_le
        rw [List.length_append, List.length_append] at hlen
        exact List.suffix_of_suffix_length_le ((List.suffix_append _ _).trans h)
          (List.suffix_append _ _) (by omega)
    · rw [after_skip hp]
      rcases List.suffix_cons_iff.mp h with heq | h
      · exact absurd ⟨q, heq⟩ hp
      · exact after_of_suffix hne h

end Keys

section Text

variable {key : JsString} (hkey : ∀ u ∈ key, IsAscii u)

include hkey

theorem utf8_append_ascii (q : JsString) : utf8 (key ++ q) = latin1 key ++ utf8 q := by
  induction key with
  | nil => rfl
  | cons k key ih =>
    rw [List.cons_append, utf8_cons_ascii (hkey k List.mem_cons_self),
      ih fun u hu => hkey u (List.mem_cons_of_mem k hu)]
    rfl

theorem prefix_utf8 (s : JsString) : latin1 key <+: utf8 s ↔ key <+: s := by
  induction key generalizing s with
  | nil => exact iff_of_true List.nil_prefix List.nil_prefix
  | cons k key ih =>
    have hk : k.toNat < 128 := hkey k List.mem_cons_self
    have ih := ih fun u hu => hkey u (List.mem_cons_of_mem k hu)
    cases s with
    | nil =>
      refine iff_of_false (fun h => ?_) fun h => ?_
      · cases List.prefix_nil.mp h
      · cases List.prefix_nil.mp h
    | cons u s =>
      by_cases hu : IsAscii u
      · have hu' : u.toNat < 128 := hu
        have hbyte : byteOf k.toNat = byteOf u.toNat ↔ k = u := by
          refine ⟨fun h => ?_, fun h => by rw [h]⟩
          have hnat := congrArg UInt8.toNat h
          rw [toNat_byteOf (by omega), toNat_byteOf (by omega)] at hnat
          exact UInt16.toNat_inj.mp hnat
        rw [utf8_cons_ascii hu, List.cons_prefix_cons, ← ih s, ← hbyte]
        exact List.cons_prefix_cons
      · obtain ⟨c, bs, hbytes, hc⟩ := utf8_head_high hu s
        rw [hbytes]
        refine iff_of_false (fun h => ?_) fun h => ?_
        · have heq : byteOf k.toNat = c := (List.cons_prefix_cons.mp h).1
          rw [← heq, toNat_byteOf (by omega)] at hc
          omega
        · rw [List.cons_prefix_cons] at h
          rw [h.1] at hk
          exact hu hk

theorem after_high (hne : key ≠ []) {bs : Bytes} (h : ∀ c ∈ bs, 128 ≤ c.toNat) (b : Bytes) :
    after (latin1 key) (bs ++ b) = after (latin1 key) b := by
  obtain ⟨k, ks, rfl⟩ := List.exists_cons_of_ne_nil hne
  have hk : k.toNat < 128 := hkey k List.mem_cons_self
  induction bs with
  | nil => rfl
  | cons c bs ih =>
    have hc := h c List.mem_cons_self
    rw [List.cons_append, after_skip, ih fun c hc => h c (List.mem_cons_of_mem _ hc)]
    intro hp
    have heq : byteOf k.toNat = c := (List.cons_prefix_cons.mp hp).1
    rw [← heq, toNat_byteOf (by omega)] at hc
    omega

/-- **A key is found in the bytes** where it is in the text. -/
theorem after_utf8 (hne : key ≠ []) : ∀ (n : Nat) {s : JsString}, s.length ≤ n →
    isWellFormed s → after (latin1 key) (utf8 s) = (after key s).map utf8 := by
  have hbytes : latin1 key ≠ [] := fun h => hne (List.map_eq_nil_iff.mp h)
  have hhead : ∀ {u : UInt16}, ¬IsAscii u → ∀ s, ¬key <+: u :: s := by
    intro u hu s hp
    obtain ⟨k, ks, rfl⟩ := List.exists_cons_of_ne_nil hne
    rw [List.cons_prefix_cons] at hp
    exact hu (hp.1 ▸ hkey k List.mem_cons_self)
  intro n
  induction n with
  | zero =>
    intro s hn _
    rw [List.length_eq_zero_iff.mp (Nat.le_zero.mp hn)]
    rfl
  | succ n ih =>
    intro s hn hwf
    cases s with
    | nil => rfl
    | cons u s =>
      rw [List.length_cons] at hn
      by_cases hp : key <+: u :: s
      · obtain ⟨q, hq⟩ := hp
        rw [← hq, utf8_append_ascii hkey, after_append hbytes, after_append hne]
        rfl
      · rw [after_skip hp]
        rcases wellFormed_cons hwf with ⟨hu, ht, -⟩ | ⟨v, t, rfl, hu, hv, ht, hpair⟩
        · rw [← ih (by omega) ht]
          by_cases hascii : IsAscii u
          · rw [utf8_cons_ascii hascii]
            refine after_skip fun h => hp ?_
            rw [← utf8_cons_ascii hascii] at h
            exact (prefix_utf8 hkey _).mp h
          · have hhigh : isHigh u = false := (Bool.or_eq_false_iff.mp hu).1
            rw [utf8_cons (.inl hhigh), after_high hkey hne (unitBytes_high hascii)]
        · rw [List.length_cons] at hn
          have hvascii : ¬IsAscii v := by
            intro h
            rw [h.not_surrogate.2] at hv
            cases hv
          rw [after_skip (hhead hvascii t), ← ih (by omega) ht, hpair,
            after_high hkey hne (utf8Pair_high hu hv)]

end Text

/-! ### Strings -/

theorem scanLoop_plain {c : UInt8} (hb : c ≠ 92) (hq : c ≠ 34) (b : Bytes) :
    scanLoop 0 (c :: b) = scanLoop 0 b := by
  rw [scanLoop, if_neg hb, if_neg hq]

theorem scanLoop_high {bs : Bytes} (h : ∀ c ∈ bs, 128 ≤ c.toNat) (b : Bytes) :
    scanLoop 0 (bs ++ b) = scanLoop 0 b := by
  induction bs with
  | nil => rfl
  | cons c bs ih =>
    have hc := h c List.mem_cons_self
    rw [List.cons_append, scanLoop_plain, ih fun c hc => h c (List.mem_cons_of_mem _ hc)]
    all_goals
      rintro rfl
      revert hc
      decide

/-- The backslash is the one that the other scanner finds. -/
theorem scanLoop_escaped (b : Bytes) : (scanLoop 0 b).1 = (Json.scanString b).1 := by
  induction b with
  | nil => rfl
  | cons c b ih =>
    by_cases hb : c = 92
    · subst hb
      cases b
      all_goals rfl
    · by_cases hq : c = 34
      · subst hq
        rw [scanLoop, Json.scanString.eq_def]
        dsimp only
        rw [if_neg hb, if_neg hb, if_pos rfl, if_pos rfl]
      · rw [scanLoop_plain hb hq, Json.scanString_plain hq hb, ih]

/-- The other four characters of an escape are passed over, and what is none of them is not. -/
theorem scanLoop_chars : ∀ (n : Nat) {s v rest : JsString}, s.length ≤ n → isWellFormed s →
    Chars s v rest → (scanLoop 0 (utf8 s)).2 = utf8 rest := by
  have h92 : IsAscii 92 := by decide
  intro n
  induction n with
  | zero =>
    intro s v rest hn _ h
    obtain ⟨u, c, rfl, -⟩ := h.split
    cases hn
  | succ n ih =>
    intro s v rest hn hwf h
    cases h with
    | quote rest =>
      rw [utf8_cons_ascii (show IsAscii 34 by decide)]
      rfl
    | @escape e x s v rest he hx h =>
      have hascii := Json.escaped_ascii hx
      have hbyte : byteOf e.toNat ≠ 0x75 :=
        Json.forall_ascii (P := fun u c => u ≠ 117 → c ≠ 0x75) (by decide) e hascii he
      rw [wellFormed_ascii h92, wellFormed_ascii hascii] at hwf
      simp only [List.length_cons] at hn
      rw [utf8_cons_ascii h92, utf8_cons_ascii hascii, ← ih (by omega) hwf h]
      show (scanLoop (if some (byteOf e.toNat) = some 0x75 then 5 else 1) _).2 = _
      rw [if_neg fun h => hbyte (Option.some.inj h)]
      rfl
    | @unit a b c d x s v rest hx h =>
      obtain ⟨ha, hb, hc, hd⟩ := Json.hexUnit_some hx
      have ha := (Json.hexValue_plain ha).1
      have hb := (Json.hexValue_plain hb).1
      have hc := (Json.hexValue_plain hc).1
      have hd := (Json.hexValue_plain hd).1
      have h117 : IsAscii 117 := by decide
      rw [wellFormed_ascii h92, wellFormed_ascii h117, wellFormed_ascii ha, wellFormed_ascii hb,
        wellFormed_ascii hc, wellFormed_ascii hd] at hwf
      simp only [List.length_cons] at hn
      rw [utf8_cons_ascii h92, utf8_cons_ascii h117, utf8_cons_ascii ha, utf8_cons_ascii hb,
        utf8_cons_ascii hc, utf8_cons_ascii hd, ← ih (by omega) hwf h]
      rfl
    | @plain u s v rest hq hb hc h =>
      rw [List.length_cons] at hn
      rcases wellFormed_cons hwf with ⟨hu, ht, -⟩ | ⟨w, s', rfl, hu, hw, ht, hpair⟩
      · rw [← ih (by omega) ht h]
        by_cases hascii : IsAscii u
        · have hbyte : byteOf u.toNat ≠ 92 ∧ byteOf u.toNat ≠ 34 :=
            Json.forall_ascii (P := fun u c => u ≠ 34 → u ≠ 92 → c ≠ 92 ∧ c ≠ 34) (by decide) u
              hascii hq hb
          rw [utf8_cons_ascii hascii, scanLoop_plain hbyte.1 hbyte.2]
        · have hhigh : isHigh u = false := (Bool.or_eq_false_iff.mp hu).1
          rw [utf8_cons (.inl hhigh), scanLoop_high (unitBytes_high hascii)]
      · -- a pair is read as two characters
        have hlow : 0xdc00 ≤ w.toNat := (of_decide_eq_true hw).1
        rw [List.length_cons] at hn
        cases h with
        | quote => exact absurd hlow (by decide)
        | escape => exact absurd hlow (by decide)
        | unit => exact absurd hlow (by decide)
        | plain _ _ _ h =>
          rw [hpair, scanLoop_high (utf8Pair_high hu hw), ih (by omega) ht h]

/-- A string that is read, behind its first quote. -/
structure Scanned (s v rest : JsString) : Prop where
  wellFormed : isWellFormed rest
  left : (scanString (utf8 (34 :: s))).2 = utf8 rest
  plain : (scanString (utf8 (34 :: s))).1 = false →
    utf8 (34 :: s) = 34 :: (utf8 v ++ 34 :: utf8 rest)
  value : ∀ rt, scanned rt (utf8 (34 :: s)) (utf8 rest) = .ok v

theorem upTo_append (b rest : Bytes) : upTo (b ++ rest) rest = b := by
  unfold upTo
  rw [List.length_append, Nat.add_sub_cancel, List.take_left]

/-- **A string is scanned** as it is read. -/
theorem scanString_text {s v rest : JsString} (hwf : isWellFormed s) (h : Chars s v rest) :
    Scanned s v rest := by
  obtain ⟨hrest, body, esc, hspan, hval, hp⟩ := Json.parseChars_reads _ (Nat.le_refl _) hwf h
  have h34 : IsAscii 34 := by decide
  have hlow : ∀ t : JsString, ∀ u ∈ (34 :: t).head?, isLow u = false := by
    intro t u hu
    cases hu
    rfl
  have hbytes : utf8 (34 :: s) = 34 :: (utf8 body ++ 34 :: utf8 rest) := by
    rw [hspan.split, utf8_cons_ascii h34, utf8_append body (hlow rest), utf8_cons_ascii h34]
    rfl
  have hdrop : (utf8 (34 :: s)).drop 1 = utf8 s := by
    rw [utf8_cons_ascii h34]
    rfl
  refine ⟨hrest, ?_, fun hesc => ?_, fun rt => ?_⟩
  · unfold scanString
    rw [hdrop]
    exact scanLoop_chars _ (Nat.le_refl _) hwf h
  · unfold scanString at hesc
    rw [hdrop, scanLoop_escaped, hspan.scan] at hesc
    rw [hbytes, hval hesc]
  · have hclosed : isWellFormed (34 :: (body ++ [34])) := by
      rw [wellFormed_ascii (by decide)]
      exact wellFormed_append_ascii hspan.wellFormed (by decide)
    have hclose : utf8 (34 :: (body ++ [34])) = 34 :: (utf8 body ++ [34]) := by
      rw [utf8_cons_ascii h34, utf8_append body (hlow [])]
      rfl
    have hsplit : utf8 (34 :: s) = utf8 (34 :: (body ++ [34])) ++ utf8 rest := by
      rw [hbytes, hclose]
      simp
    unfold scanned
    rw [hsplit, upTo_append, Json.standard_utf8 rt hclosed, Json.jsonParse_quoted rt hp]

/-! ### The end of an array -/

abbrev closeArray (depth : Int) (b : Bytes) : Bytes := closeLoop 0x5b 0x5d depth b

theorem closeArray_plain {u : UInt16} (hu : Json.IsPlain u) (depth : Int) (s : JsString) :
    closeArray depth (utf8 (u :: s)) = closeArray depth (utf8 s) := by
  have hbyte : byteOf u.toNat ≠ 34 ∧ byteOf u.toNat ≠ 91 ∧ byteOf u.toNat ≠ 93 :=
    Json.forall_ascii (P := fun u c => Json.IsPlain u → c ≠ 34 ∧ c ≠ 91 ∧ c ≠ 93) (by decide) u
      hu.1 hu
  rw [utf8_cons_ascii hu.1]
  unfold closeArray
  rw [closeLoop, if_neg hbyte.1, if_neg hbyte.2.1, if_neg hbyte.2.2]

theorem closeArray_word {c : JsString} (hc : ∀ u ∈ c, Json.IsPlain u) (depth : Int)
    (s : JsString) : closeArray depth (utf8 (c ++ s)) = closeArray depth (utf8 s) := by
  induction c with
  | nil => rfl
  | cons u c ih =>
    rw [List.cons_append, closeArray_plain (hc u List.mem_cons_self),
      ih fun v hv => hc v (List.mem_cons_of_mem u hv)]

theorem closeArray_skipWs (depth : Int) (s : JsString) :
    closeArray depth (utf8 s) = closeArray depth (utf8 (skipWs s)) := by
  have hsplit : s = s.takeWhile Json.isWs ++ skipWs s := List.takeWhile_append_dropWhile.symm
  have hplain : ∀ u ∈ s.takeWhile Json.isWs, Json.IsPlain u := by
    intro u hu
    have hws := List.mem_takeWhile_imp hu
    unfold Json.isWs at hws
    rw [decide_eq_true_eq] at hws
    rcases hws with rfl | rfl | rfl | rfl
    all_goals decide
  calc closeArray depth (utf8 s)
      = closeArray depth (utf8 (s.takeWhile Json.isWs ++ skipWs s)) := by rw [← hsplit]
    _ = closeArray depth (utf8 (skipWs s)) := closeArray_word hplain depth _

theorem closeArray_open (depth : Int) (s : JsString) :
    closeArray depth (utf8 (91 :: s)) = closeArray (depth + 1) (utf8 s) := by
  rw [utf8_cons_ascii (by decide)]
  unfold closeArray
  rw [closeLoop, if_neg (by decide), if_pos (by decide)]

theorem closeArray_close (depth : Int) (s : JsString) : closeArray depth (utf8 (93 :: s)) =
    if depth - 1 = 0 then utf8 s else closeArray (depth - 1) (utf8 s) := by
  rw [utf8_cons_ascii (by decide)]
  unfold closeArray
  rw [closeLoop, if_neg (by decide), if_neg (by decide), if_pos (by decide)]

theorem closeArray_string {s v rest : JsString} (hwf : isWellFormed s)
    (h : Chars s v rest) (depth : Int) :
    closeArray depth (utf8 (34 :: s)) = closeArray depth (utf8 rest) := by
  have hscan := (scanString_text hwf h).left
  rw [utf8_cons_ascii (by decide)] at hscan ⊢
  unfold closeArray
  rw [closeLoop, if_pos (by decide), hscan]

/-- What is read leaves the depth as it was. -/
def Balanced (s rest : JsString) : Prop := isWellFormed s → isWellFormed rest ∧
  ∀ depth : Int, 0 < depth → closeArray depth (utf8 s) = closeArray depth (utf8 rest)

/-- What is read goes on up to the bracket that closes the array. -/
def Closed (s rest : JsString) : Prop := isWellFormed s → isWellFormed rest ∧
  ∀ depth : Int, 0 < depth → closeArray depth (utf8 s) = closeArray depth (utf8 (93 :: rest))

namespace Balanced

variable {s t r rest : JsString} {u : UInt16}

theorem trans (h : Balanced s t) (h' : Balanced t r) : Balanced s r := by
  intro hwf
  obtain ⟨ht, hs⟩ := h hwf
  obtain ⟨hr, ht⟩ := h' ht
  exact ⟨hr, fun depth hd => (hs depth hd).trans (ht depth hd)⟩

theorem skip (s : JsString) : Balanced s (skipWs s) := fun hwf =>
  ⟨Json.wellFormed_skipWs hwf, fun depth _ => closeArray_skipWs depth s⟩

theorem plain (hu : Json.IsPlain u) (s : JsString) : Balanced (u :: s) s := fun hwf =>
  ⟨wellFormed_ascii hu.1 ▸ hwf, fun depth _ => closeArray_plain hu depth s⟩

theorem behind (hs : skipWs s = u :: t) (hu : Json.IsPlain u) : Balanced s t :=
  (hs ▸ skip s).trans (plain hu t)

theorem word {c : JsString} (hc : ∀ u ∈ c, Json.IsPlain u) (rest : JsString) :
    Balanced (c ++ rest) rest := by
  induction c with
  | nil => exact fun hwf => ⟨hwf, fun _ _ => rfl⟩
  | cons u c ih =>
    have hrest := ih fun v hv => hc v (List.mem_cons_of_mem u hv)
    exact (plain (hc u List.mem_cons_self) (c ++ rest)).trans hrest

theorem string {v b : JsString} (hs : skipWs s = 34 :: b) (h : Chars b v rest) :
    Balanced s rest := by
  refine (hs ▸ skip s).trans fun hwf => ?_
  rw [wellFormed_ascii (by decide)] at hwf
  exact ⟨(scanString_text hwf h).wellFormed, fun depth _ => closeArray_string hwf h depth⟩

theorem closed (h : Balanced s t) (h' : Closed t rest) : Closed s rest := by
  intro hwf
  obtain ⟨ht, hs⟩ := h hwf
  obtain ⟨hr, ht⟩ := h' ht
  exact ⟨hr, fun depth hd => (hs depth hd).trans (ht depth hd)⟩

/-- One array more is open in its brackets. -/
theorem array (hs : skipWs s = 91 :: t) (h : Closed (skipWs t) rest) : Balanced s rest := by
  refine (hs ▸ skip s).trans fun hwf => ?_
  rw [wellFormed_ascii (by decide)] at hwf
  obtain ⟨hrest, hclose⟩ := (skip t).closed h hwf
  refine ⟨hrest, fun depth hd => ?_⟩
  rw [closeArray_open, hclose (depth + 1) (by omega), closeArray_close, if_neg (by omega),
    Int.add_sub_cancel]

end Balanced

theorem Closed.bracket (rest : JsString) : Closed (93 :: rest) rest := fun hwf =>
  ⟨wellFormed_ascii (show IsAscii 93 by decide) ▸ hwf, fun _ _ => rfl⟩

theorem balanced_rules : Rules (fun s _ rest => Balanced s rest) (fun s _ rest => Closed s rest)
    (fun s _ rest => Balanced s rest) where
  emptyObject hs ht := (Balanced.behind hs (by decide)).trans (.behind ht (by decide))
  object hs _ h := (Balanced.behind hs (by decide)).trans ((Balanced.skip _).trans h)
  emptyArray hs ht := .array hs (ht ▸ .bracket _)
  array hs _ h := .array hs h
  string hs hv := .string hs (Json.parseChars_iff.mp hv)
  word hs _ _ _ h := by
    obtain ⟨c, hc, hplain⟩ := Json.parseWord_plain h
    refine (Balanced.skip _).trans ?_
    rw [hs, hc]
    exact .word hplain _
  lastItem hv hr := (hv.trans (Balanced.skip _)).closed (hr ▸ .bracket _)
  item hv hr hvs := (hv.trans (.behind hr (by decide))).closed hvs
  lastMember hs hk hcol hv hr :=
    (((Balanced.string hs (Json.parseChars_iff.mp hk)).trans (.behind hcol (by decide))).trans
      hv).trans (.behind hr (by decide))
  member hs hk hcol hv hr hms :=
    ((((Balanced.string hs (Json.parseChars_iff.mp hk)).trans (.behind hcol (by decide))).trans
      hv).trans (.behind hr (by decide))).trans hms

end Minipg.Neon
