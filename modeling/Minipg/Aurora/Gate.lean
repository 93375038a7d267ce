import Minipg.Json.Bigints

/-!
# Which bodies are left to `JSON.parse`

`LONG_BIG` (`src/aurora.ts`) looks for a `longValue` or `longValues` with an integer of 16 digits or
more.  It finds them all, at any depth and behind any white space, whatever the strings of the body
are, unless a key is written with an escape (`longBig_found`).
-/

namespace Minipg.Aurora

open Js Json

/-- Of a text only its characters are tried. -/
scoped instance (priority := high) instDecidableUnits (s : JsString) (p : UInt16 → Prop)
    [DecidablePred p] : Decidable (∀ u ∈ s, p u) :=
  List.decidableBAll p s

/-! ### The regular expression -/

/-- `-?\d\x7b16\x7d` -/
def startsLong (s : JsString) : Bool :=
  let t := unsigned s
  (t.take 16).length = 16 && (t.take 16).all Cells.isDigit

/-- `[-\d,\s]` -/
def isListUnit (u : UInt16) : Bool := u = 45 || Cells.isDigit u || u = 44 || isBlankUnit u

/-- `[-\d,\s]*?-?\d\x7b16\x7d` -/
def listLong : JsString → Bool
  | [] => false
  | u :: s => startsLong (u :: s) || isListUnit u && listLong s

/-- `\s*(?:\[[-\d,\s]*?)?-?\d\x7b16\x7d` -/
def valueLong (s : JsString) : Bool :=
  match s.dropWhile isBlankUnit with
  | [] => false
  | u :: t => if u = 91 then listLong t else startsLong (u :: t)

def longKeys : List JsString := [ascii "longValue", ascii "longValues"]

/-- `LONG_BIG` matches here. -/
def longBigHere (s : JsString) : Bool :=
  longKeys.any fun k =>
    (34 :: (k ++ [34])).isPrefixOf s &&
      match (s.drop (k.length + 2)).dropWhile isBlankUnit with
      | [] => false
      | u :: t => u = 58 && valueLong t

/-- `LONG_BIG.test`. -/
def longBig : JsString → Bool
  | [] => false
  | u :: s => longBigHere (u :: s) || longBig s

/-! ### Long entries -/

/-- The digits of an integer, with its sign. -/
def integer? : Ast → Option JsString
  | .number token => if (unsigned token).all Cells.isDigit then some token else none
  | _ => none

/-- The integers of a member. -/
def longEntries (k : JsString) (v : Ast) : List JsString :=
  if k = ascii "longValue" then (integer? v).toList
  else if k = ascii "longValues" then
    match v with
    | .array vs => (vs.mapM integer?).getD []
    | _ => []
  else []

mutual

/-- The integers of all members that are called `longValue` or `longValues`. -/
def longs : Ast → List JsString
  | .null | .boolean _ | .number _ | .string _ => []
  | .array vs => longsItems vs
  | .object ms => longsMembers ms

def longsItems : List Ast → List JsString
  | [] => []
  | v :: vs => longs v ++ longsItems vs

def longsMembers : List (JsString × Ast) → List JsString
  | [] => []
  | (k, v) :: ms => longEntries k v ++ (longs v ++ longsMembers ms)

end

/-- A key `longValue` or `longValues` that is not written as it is. -/
def HasEscapedKey (s : JsString) : Prop :=
  ∃ k ∈ longKeys, ∃ t rest, 34 :: t <:+ s ∧ parseChars t = some (k, rest) ∧
    (skipWs rest).head? = some 58 ∧ ¬k ++ [34] <+: t

/-- One of 16 digits or more. -/
def HasLong (ts : List JsString) : Prop := ∃ token ∈ ts, 16 ≤ (unsigned token).length

/-! ### Matches -/

theorem isWs_blank {u : UInt16} (h : isWs u = true) : isBlankUnit u = true := by
  unfold isWs at h
  rw [decide_eq_true_eq] at h
  rcases h with rfl | rfl | rfl | rfl
  all_goals decide

theorem dropBlank {s t : JsString} {u : UInt16} (h : skipWs s = u :: t) (hu : isBlankUnit u = false) :
    s.dropWhile isBlankUnit = u :: t := by
  induction s with
  | nil => cases h
  | cons v s ih =>
    by_cases hv : isWs v = true
    · rw [List.dropWhile_cons_of_pos (isWs_blank hv)]
      exact ih ((List.dropWhile_cons_of_pos hv).symm.trans h)
    · have hcons : v :: s = u :: t := (List.dropWhile_cons_of_neg hv).symm.trans h
      cases hcons
      rw [List.dropWhile_cons_of_neg]
      rw [hu]
      exact Bool.false_ne_true

theorem longBig_suffix {s t : JsString} (h : t <:+ s) (ht : longBig t = true) :
    longBig s = true := by
  obtain ⟨xs, rfl⟩ := h
  induction xs with
  | nil => exact ht
  | cons x xs ih =>
    show (_ || longBig (xs ++ t)) = true
    rw [ih, Bool.or_true]

/-- An integer is long wherever it stands. -/
theorem startsLong_token {token : JsString} (hall : (unsigned token).all Cells.isDigit = true)
    (hlen : 16 ≤ (unsigned token).length) (rest : JsString) :
    startsLong (token ++ rest) = true := by
  have hunsigned : unsigned (token ++ rest) = unsigned token ++ rest := by
    cases token with
    | nil => cases hlen
    | cons u s =>
      show (if u = 45 then s ++ rest else u :: (s ++ rest)) = (if u = 45 then s else u :: s) ++ rest
      split
      · rfl
      · rfl
  unfold startsLong
  dsimp only
  rw [hunsigned, List.take_append_of_le_length hlen, List.length_take, Nat.min_eq_left hlen,
    decide_eq_true rfl, Bool.true_and, List.all_eq_true]
  exact fun u hu => List.all_eq_true.mp hall u (List.mem_of_mem_take hu)

theorem listLong_starts {s : JsString} (h : startsLong s = true) : listLong s = true := by
  cases s with
  | nil => exact absurd h (by decide)
  | cons u s =>
    rw [listLong, h]
    rfl

theorem listLong_append {xs s : JsString} (hxs : ∀ u ∈ xs, isListUnit u = true)
    (h : listLong s = true) : listLong (xs ++ s) = true := by
  induction xs with
  | nil => exact h
  | cons x xs ih =>
    rw [List.cons_append, listLong, hxs x List.mem_cons_self,
      ih fun u hu => hxs u (List.mem_cons_of_mem x hu), Bool.and_self, Bool.or_true]

theorem skipWs_split (s : JsString) : ∃ w, s = w ++ skipWs s ∧ ∀ u ∈ w, isListUnit u = true := by
  refine ⟨s.takeWhile isWs, List.takeWhile_append_dropWhile.symm, fun u hu => ?_⟩
  have hblank := isWs_blank (List.mem_takeWhile_imp hu)
  unfold isListUnit
  rw [hblank, Bool.or_true]

theorem listLong_skip {s : JsString} (h : listLong (skipWs s) = true) : listLong s = true := by
  obtain ⟨w, hs, hw⟩ := skipWs_split s
  rw [hs]
  exact listLong_append hw h

theorem isListUnit_token {token : JsString} (hall : (unsigned token).all Cells.isDigit = true) :
    ∀ u ∈ token, isListUnit u = true := by
  intro u hu
  have hdigit : ∀ v ∈ unsigned token, isListUnit v = true := by
    intro v hv
    unfold isListUnit
    rw [List.all_eq_true.mp hall v hv, Bool.or_true, Bool.true_or, Bool.true_or]
  cases token with
  | nil => cases hu
  | cons v s =>
    by_cases hv : v = 45
    · rw [hv, unsigned_minus] at hdigit
      rcases List.mem_cons.mp hu with rfl | hu
      · rw [hv]
        rfl
      · exact hdigit u hu
    · have hself : unsigned (v :: s) = v :: s := if_neg hv
      rw [hself] at hdigit
      exact hdigit u hu

/-! ### No long entry is overlooked -/

/-- The gate is found, or a key that it cannot find. -/
def Seen (s : JsString) : Prop := longBig s = true ∨ HasEscapedKey s

theorem Seen.suffix {s t : JsString} (h : Seen t) (ht : t <:+ s) : Seen s := by
  rcases h with h | ⟨k, hk, u, rest, hu, hrest⟩
  · exact .inl (longBig_suffix ht h)
  · exact .inr ⟨k, hk, u, rest, hu.trans ht, hrest⟩

theorem Seen.skip {s : JsString} (h : Seen (skipWs s)) : Seen s := h.suffix (skipWs_suffix s)

theorem hasLong_append {ts ts' : List JsString} : HasLong (ts ++ ts') ↔ HasLong ts ∨ HasLong ts' := by
  unfold HasLong
  simp only [List.mem_append, or_and_right, exists_or]

theorem not_hasLong_nil : ¬HasLong [] := fun ⟨_, h, _⟩ => nomatch h

theorem mapM_cons_some {α β : Type} {f : α → Option β} {v : α} {vs : List α} {ts : List β}
    (h : (v :: vs).mapM f = some ts) :
    ∃ t ts', f v = some t ∧ vs.mapM f = some ts' ∧ ts = t :: ts' := by
  rw [List.mapM_cons] at h
  obtain ⟨t, ht, h⟩ := Option.bind_eq_some_iff.mp h
  obtain ⟨ts', hts', h⟩ := Option.bind_eq_some_iff.mp h
  cases h
  exact ⟨t, ts', ht, hts', rfl⟩

/-- How a value is written that is an integer or an array of integers. -/
structure Written (s : JsString) (a : Ast) (rest : JsString) : Prop where
  token : ∀ token, integer? a = some token → skipWs s = token ++ rest
  list : ∀ vs ts, a = .array vs → vs.mapM integer? = some ts → HasLong ts →
    ∃ t, skipWs s = 91 :: t ∧ listLong t = true

theorem integer?_some {a : Ast} {token : JsString} (h : integer? a = some token) :
    a = .number token ∧ (unsigned token).all Cells.isDigit = true := by
  cases a with
  | number t =>
    unfold integer? at h
    dsimp only at h
    split at h
    · next hall =>
      cases h
      exact ⟨rfl, hall⟩
    · cases h
  | _ => cases h

/-- A string without escapes is read as it is. -/
theorem parseChars_self {k : JsString} (hall : ∀ u ∈ k, u ≠ 34 ∧ u ≠ 92 ∧ ¬u < 32)
    (rest : JsString) : parseChars (k ++ 34 :: rest) = some (k, rest) := by
  induction k with
  | nil => exact parseChars_iff.mpr (.quote rest)
  | cons u k ih =>
    obtain ⟨hq, hb, hc⟩ := hall u List.mem_cons_self
    exact parseChars_plain hq hb hc (ih fun v hv => hall v (List.mem_cons_of_mem u hv))

theorem parseChars_key {k : JsString} (hk : k ∈ longKeys) (rest : JsString) :
    parseChars (k ++ 34 :: rest) = some (k, rest) := by
  have hplain : ∀ k ∈ longKeys, ∀ u ∈ k, u ≠ 34 ∧ u ≠ 92 ∧ ¬u < 32 := by decide
  exact parseChars_self (hplain k hk) rest

theorem digit_not_blank {u : UInt16} (h : Cells.isDigit u = true) : isBlankUnit u = false := by
  have hbounds := of_decide_eq_true h
  rw [← Bool.not_eq_true]
  intro hblank
  rcases Bool.or_eq_true _ _ |>.mp hblank with hlist | hrange
  · have hno : ∀ x : UInt16, x ∈ [0x09, 0x0a, 0x0b, 0x0c, 0x0d, 0x20, 0xa0, 0x1680, 0x2028, 0x2029,
        0x202f, 0x205f, 0x3000, 0xfeff] → Cells.isDigit x = false := by decide
    rw [hno u (List.contains_iff_mem.mp hlist)] at h
    cases h
  · rw [Bool.and_eq_true, decide_eq_true_eq] at hrange
    omega

/-- The first character of a long integer is none that is skipped. -/
theorem valueLong_token {s token rest : JsString} (hs : skipWs s = token ++ rest)
    (hall : (unsigned token).all Cells.isDigit = true) (hlen : 16 ≤ (unsigned token).length) :
    valueLong s = true := by
  have hstarts := startsLong_token hall hlen rest
  cases token with
  | nil => cases hlen
  | cons u t =>
    have hu : isBlankUnit u = false ∧ u ≠ 91 := by
      by_cases hminus : u = 45
      · rw [hminus]
        decide
      · have hself : unsigned (u :: t) = u :: t := if_neg hminus
        rw [hself] at hall
        have hdigit := List.all_eq_true.mp hall u List.mem_cons_self
        refine ⟨digit_not_blank hdigit, ?_⟩
        rintro rfl
        exact absurd hdigit (by decide)
    unfold valueLong
    rw [dropBlank hs hu.1]
    exact (if_neg hu.2).trans hstarts

theorem entry_seen {s t t' t'' r k : JsString} {v : Ast} (hs : skipWs s = 34 :: t)
    (hk : parseChars t = some (k, t')) (hc : skipWs t' = 58 :: t'') (hw : Written t'' v r)
    (h : HasLong (longEntries k v)) : Seen s := by
  have hvalue : k ∈ longKeys ∧ valueLong t'' = true := by
    obtain ⟨token, htoken, hlen⟩ := h
    unfold longEntries at htoken
    split at htoken
    · next heq =>
      have hint := Option.mem_toList.mp htoken
      exact ⟨heq ▸ List.mem_cons_self,
        valueLong_token (hw.token token hint) (integer?_some hint).2 hlen⟩
    · split at htoken
      · next heq =>
        refine ⟨heq ▸ List.mem_cons_of_mem _ List.mem_cons_self, ?_⟩
        split at htoken
        · next vs =>
          cases hts : vs.mapM integer? with
          | none =>
            rw [hts] at htoken
            cases htoken
          | some ts =>
            rw [hts] at htoken
            obtain ⟨u, hu, hlist⟩ := hw.list vs ts rfl hts ⟨token, htoken, hlen⟩
            unfold valueLong
            rw [dropBlank hu (by decide)]
            exact (if_pos rfl).trans hlist
        · cases htoken
      · cases htoken
  obtain ⟨hkey, hvalue⟩ := hvalue
  refine Seen.skip ?_
  rw [hs]
  by_cases hplain : k ++ [34] <+: t
  · obtain ⟨r, rfl⟩ := hplain
    rw [List.append_assoc, List.singleton_append, parseChars_key hkey] at hk
    have hr : r = t' := congrArg Prod.snd (Option.some.inj hk)
    subst hr
    have hmatch : longBigHere (34 :: (k ++ [34] ++ r)) = true := by
      refine List.any_eq_true.mpr ⟨k, hkey, ?_⟩
      have hopen : (34 :: (k ++ [34])).isPrefixOf (34 :: (k ++ [34] ++ r)) = true :=
        List.isPrefixOf_iff_prefix.mpr ⟨r, rfl⟩
      have hdrop : (34 :: (k ++ [34] ++ r)).drop (k.length + 2) = r :=
        @List.drop_left' _ (34 :: (k ++ [34])) r (k.length + 2) (by simp)
      rw [hopen, hdrop, dropBlank hc (by decide)]
      show (decide ((58 : UInt16) = 58) && valueLong t'') = true
      rw [hvalue]
      rfl
    left
    rw [longBig, hmatch, Bool.true_or]
  · exact .inr ⟨k, hkey, t, t', List.suffix_rfl, hk, by rw [hc]; rfl, hplain⟩

theorem parseWord_written {s rest : JsString} {a : Ast} (h : parseWord s = some (a, rest)) :
    longs a = [] ∧ (∀ vs, a ≠ .array vs) ∧ ∀ token, integer? a = some token → s = token ++ rest := by
  unfold parseWord at h
  repeat' split at h
  all_goals cases h
  · exact ⟨rfl, nofun, nofun⟩
  · exact ⟨rfl, nofun, nofun⟩
  · exact ⟨rfl, nofun, nofun⟩
  · refine ⟨rfl, nofun, fun token ht => ?_⟩
    obtain ⟨htoken, -⟩ := integer?_some ht
    cases htoken
    exact List.takeWhile_append_dropWhile.symm

/-- A long integer in front, or behind the first item. -/
theorem items_long {s r : JsString} {v : Ast} {token : JsString} (hw : Written s v r)
    (htoken : integer? v = some token)
    (h : 16 ≤ (unsigned token).length ∨ listLong r = true) : listLong s = true := by
  have hall := (integer?_some htoken).2
  refine listLong_skip ?_
  rw [hw.token token htoken]
  rcases h with hlen | hlist
  · exact listLong_starts (startsLong_token hall hlen r)
  · exact listLong_append (isListUnit_token hall) hlist

theorem seen_rules : Rules
    (fun s a rest => Consumed s rest ∧ (HasLong (longs a) → Seen s) ∧ Written s a rest)
    (fun s vs rest => Consumed s rest ∧ (HasLong (longsItems vs) → Seen s) ∧
      ∀ ts, vs.mapM integer? = some ts → HasLong ts → listLong s = true)
    (fun s ms rest => Consumed s rest ∧ (HasLong (longsMembers ms) → Seen s)) where
  emptyObject hs ht := ⟨(Consumed.behind hs).trans (.behind ht),
    fun h => absurd h not_hasLong_nil, ⟨nofun, nofun⟩⟩
  object hs _ h := ⟨(Consumed.behind hs).skip h.1,
    fun hl => (h.2 hl).skip.suffix (Consumed.behind hs).1, ⟨nofun, nofun⟩⟩
  emptyArray hs ht := by
    refine ⟨(Consumed.behind hs).trans (.behind ht), fun h => absurd h not_hasLong_nil, nofun, ?_⟩
    intro vs ts hvs hts hlong
    cases hvs
    cases hts
    exact absurd hlong not_hasLong_nil
  array hs _ h := by
    refine ⟨(Consumed.behind hs).skip h.1,
      fun hl => (h.2.1 hl).skip.suffix (Consumed.behind hs).1, nofun, ?_⟩
    intro vs ts hvs hts hlong
    cases hvs
    exact ⟨_, hs, listLong_skip (h.2.2 ts hts hlong)⟩
  string hs hv := ⟨(Consumed.behind hs).trans (parseChars_consumed hv),
    fun h => absurd h not_hasLong_nil, ⟨nofun, nofun⟩⟩
  word hs _ _ _ hw := by
    obtain ⟨hnone, harray, htoken⟩ := parseWord_written hw
    refine ⟨(hs ▸ parseWord_consumed hw).of_skip, fun h => ?_, fun token ht => ?_,
      fun vs _ hvs => absurd hvs (harray vs)⟩
    · rw [hnone] at h
      exact absurd h not_hasLong_nil
    · rw [hs]
      exact htoken token ht
  lastItem hv hr := by
    refine ⟨hv.1.trans (.behind hr), fun h => ?_, fun ts hts hlong => ?_⟩
    · rcases hasLong_append.mp h with h | h
      · exact hv.2.1 h
      · exact absurd h not_hasLong_nil
    · obtain ⟨token, ts', htoken, hts', rfl⟩ := mapM_cons_some hts
      cases hts'
      obtain ⟨_, ht, hlen⟩ := hlong
      cases List.mem_singleton.mp ht
      exact items_long hv.2.2 htoken (.inl hlen)
  item hv hr hvs := by
    refine ⟨(hv.1.trans (.behind hr)).trans hvs.1, fun h => ?_, fun ts hts hlong => ?_⟩
    · rcases hasLong_append.mp h with h | h
      · exact hv.2.1 h
      · exact (hvs.2.1 h).suffix ((Consumed.behind hr).1.trans hv.1.1)
    · obtain ⟨token, ts', htoken, hts', rfl⟩ := mapM_cons_some hts
      obtain ⟨x, hx, hlen⟩ := hlong
      rcases List.mem_cons.mp hx with rfl | hx
      · exact items_long hv.2.2 htoken (.inl hlen)
      · refine items_long hv.2.2 htoken (.inr (listLong_skip ?_))
        rw [hr, listLong, hvs.2.2 ts' hts' ⟨x, hx, hlen⟩]
        exact Bool.or_true _
  lastMember hs hk hc hv hr := by
    have hkey := (Consumed.behind hs).trans (parseChars_consumed hk)
    have hvalue := hkey.trans (.behind hc)
    refine ⟨(hvalue.trans hv.1).trans (.behind hr), fun h => ?_⟩
    rcases hasLong_append.mp h with h | h
    · exact entry_seen hs hk hc hv.2.2 h
    · rcases hasLong_append.mp h with h | h
      · exact (hv.2.1 h).suffix hvalue.1
      · exact absurd h not_hasLong_nil
  member hs hk hc hv hr hms := by
    have hkey := (Consumed.behind hs).trans (parseChars_consumed hk)
    have hvalue := hkey.trans (.behind hc)
    have hnext := (hvalue.trans hv.1).trans (.behind hr)
    refine ⟨hnext.trans hms.1, fun h => ?_⟩
    rcases hasLong_append.mp h with h | h
    · exact entry_seen hs hk hc hv.2.2 h
    · rcases hasLong_append.mp h with h | h
      · exact (hv.2.1 h).suffix hvalue.1
      · exact (hms.2 h).suffix hnext.1

/-- **No long entry is overlooked**, unless its key is written with an escape. -/
theorem longBig_found {s : JsString} {a : Ast} (h : parseText s = some a)
    (hlong : HasLong (longs a)) : longBig s = true ∨ HasEscapedKey s := by
  obtain ⟨-, ⟨-, hseen, -⟩, -⟩ := seen_rules.text h
  exact hseen hlong

end Minipg.Aurora
