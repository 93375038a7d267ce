import Minipg.Decode.Entries
import Minipg.Json.Buffer

/-!
# Integers of JSON

`jsonDecoder` (`src/decode.ts`) leaves a text to `JSON.parse` unless `BIG_INT` finds an integer in
it that may not be safe.  No such integer is overlooked (`bigInt_found`).  The reviver keeps an
integer unless its double is an infinity, which is no integer (`jsonDecoder_exact_iff`).
-/

namespace Minipg.Json

open Js
open Cells (Bytes Runtime isDigit decimalInt? readDecimal digitValues)

/-! ### The gate -/

def isPointOrE (u : UInt16) : Bool := u = 46 ∨ u = 101 ∨ u = 69

/-- `-?\d\x7b16\x7d(?!\d*[.eE])` matches here; a `-` that is left out is no digit. -/
def bigIntHere (s : JsString) : Bool :=
  let t := unsigned s
  (t.take 16).length = 16 && (t.take 16).all isDigit &&
    !((t.drop 16).dropWhile isDigit).head?.any isPointOrE

/-- It matches at a position that is not behind one of `[\d.eE+-]`. -/
def bigIntFrom (prev : Option UInt16) : JsString → Bool
  | [] => false
  | u :: s => !prev.any isNumeric && bigIntHere (u :: s) || bigIntFrom (some u) s

/-- `BIG_INT.test`. -/
def bigIntTest (s : JsString) : Bool := bigIntFrom none s

/-! ### The reviver -/

mutual

/-- `InternalizeJSONProperty`; of the sources only those of numbers are passed on. -/
def Ast.revive (rt : Runtime) (rev : Tree → Option JsString → Tree) : Ast → Tree
  | .null => rev .null none
  | .boolean b => rev (.boolean b) none
  | .number token => rev (number rt token) (some token)
  | .string s => rev (.string s) none
  | .array vs => rev (.array (reviveItems rt rev vs)) none
  | .object ms => rev (.object (reviveMembers rt rev ms)) none

def reviveItems (rt : Runtime) (rev : Tree → Option JsString → Tree) : List Ast → List Tree
  | [] => []
  | v :: vs => v.revive rt rev :: reviveItems rt rev vs

def reviveMembers (rt : Runtime) (rev : Tree → Option JsString → Tree) :
    List (JsString × Ast) → List (JsString × Tree)
  | [] => []
  | (k, v) :: ms => (k, v.revive rt rev) :: reviveMembers rt rev ms

end

def bigintReviver (big : JsonBigints) (v : Tree) (source : Option JsString) : Tree :=
  match v, source with
  | .number x, some source =>
    if x.integer?.isSome && !x.safeInteger?.isSome && (decimalInt? source).isSome then
      if big = .bigint then .bigint ((decimalInt? source).getD 0) else .string source
    else v
  | _, _ => v

section Decoder

variable (rt : Runtime)

/-- `JSON.parse` with a reviver. -/
def jsonParseWith (rev : Tree → Option JsString → Tree) (s : JsString) : Option Tree :=
  (parseText s).map fun a => a.record.revive rt rev

def bigintJsonParser (jsonSourceSupported : Bool) (big : JsonBigints) (s : JsString) (b : Bytes) :
    Option Tree :=
  if jsonSourceSupported then
    if bigIntTest s then jsonParseWith rt (bigintReviver big) s else jsonParse rt s
  else if !bigIntTest s then jsonParse rt s
  else parseJsonBuffer rt big b

def jsonDecoder (jsonSourceSupported : Bool) (big : JsonBigints) (b : Bytes) : Option Tree :=
  if big = .number then jsonParse rt (rt.standard.utf8 b)
  else bigintJsonParser rt jsonSourceSupported big (rt.standard.utf8 b) b

end Decoder

/-! ### No integer is overlooked -/

/-- The gate opens wherever the text stands behind something that is no number. -/
def Found (s : JsString) : Prop :=
  ∀ prev : Option UInt16, prev.any isNumeric = false → bigIntFrom prev s = true

theorem bigIntFrom_append {u : UInt16} {s : JsString} (h : bigIntFrom (some u) s = true) :
    ∀ (xs : JsString) (prev : Option UInt16), bigIntFrom prev (xs ++ u :: s) = true
  | [], prev => by
    show (_ || bigIntFrom (some u) s) = true
    rw [h, Bool.or_true]
  | x :: xs, prev => by
    show (_ || bigIntFrom (some x) (xs ++ u :: s)) = true
    rw [bigIntFrom_append h xs, Bool.or_true]

theorem Found.behind {u : UInt16} {s t : JsString} (hu : isNumeric u = false) (h : Found s)
    (ht : u :: s <:+ t) : Found t := by
  obtain ⟨xs, rfl⟩ := ht
  intro prev _
  exact bigIntFrom_append (h (some u) hu) xs prev

theorem Found.skipWs : ∀ {s : JsString}, Found (skipWs s) → Found s
  | [], h => h
  | u :: s, h => by
    by_cases hu : isWs u = true
    · have hskip : Json.skipWs (u :: s) = Json.skipWs s := List.dropWhile_cons_of_pos hu
      rw [hskip] at h
      refine Found.behind ?_ (Found.skipWs h) List.suffix_rfl
      unfold isWs at hu
      rw [decide_eq_true_eq] at hu
      rcases hu with rfl | rfl | rfl | rfl
      all_goals decide
    · have hskip : Json.skipWs (u :: s) = u :: s := List.dropWhile_cons_of_neg hu
      rwa [hskip] at h

/-- An integer of these digits is not safe. -/
def IsBig (token : JsString) : Prop := ∃ n, decimalInt? token = some n ∧ ¬Double.Safe n

theorem decimalInt_some {token : JsString} {n : Int} (h : decimalInt? token = some n) :
    ∃ neg ds, token = signed neg ds ∧ unsigned token = ds ∧ ds ≠ [] ∧ ds.all isDigit = true := by
  obtain ⟨neg, ds, rfl, hhead, hunsigned⟩ := exists_signed token
  refine ⟨neg, ds, rfl, hunsigned, ?_⟩
  cases hall : ds.all isDigit with
  | false =>
    rw [decimalInt_other hall hhead] at h
    cases h
  | true =>
    refine ⟨?_, rfl⟩
    rintro rfl
    cases neg
    all_goals cases h

theorem readDecimal_lt : ∀ {ds : JsString} (n : Nat), ds.all isDigit = true →
    readDecimal n (digitValues ds) < (n + 1) * 10 ^ ds.length
  | [], n, _ => by
    show n < (n + 1) * 1
    omega
  | u :: s, n, h => by
    rw [List.all_cons, Bool.and_eq_true] at h
    have hu := of_decide_eq_true h.1
    have hrest := readDecimal_lt (n * 10 + (u.toNat - 48)) h.2
    have hle : (n * 10 + (u.toNat - 48) + 1) * 10 ^ s.length ≤ (n + 1) * 10 * 10 ^ s.length :=
      Nat.mul_le_mul_right _ (by omega)
    rw [List.length_cons, Nat.pow_succ']
    show readDecimal (n * 10 + (u.toNat - 48)) (digitValues s) < _
    rw [← Nat.mul_assoc]
    exact Nat.lt_of_lt_of_le hrest hle

/-- It has 16 digits. -/
theorem IsBig.length {neg : Bool} {ds : JsString} (h : IsBig (signed neg ds)) (hne : ds ≠ [])
    (hall : ds.all isDigit = true) : 16 ≤ ds.length := by
  obtain ⟨n, hn, hunsafe⟩ := h
  rw [decimalInt_digits neg hne hall] at hn
  have hlt := readDecimal_lt 0 hall
  rw [Nat.zero_add, Nat.one_mul] at hlt
  by_contra hlen
  have hpow : 10 ^ ds.length ≤ 10 ^ 15 := Nat.pow_le_pow_right (by decide) (by omega)
  apply hunsafe
  cases hn
  unfold Double.Safe
  split
  all_goals omega

/-- The gate finds it. -/
theorem bigIntHere_token {s : JsString} (h : IsBig (s.takeWhile isNumeric)) :
    bigIntHere s = true := by
  obtain ⟨n, hn, -⟩ := id h
  obtain ⟨neg, ds, htoken, -, hne, hall⟩ := decimalInt_some hn
  have hlen := IsBig.length (htoken ▸ h) hne hall
  have hdigits := List.all_eq_true.mp hall
  have hsplit : s = signed neg ds ++ s.dropWhile isNumeric := by
    rw [← htoken]
    exact (List.takeWhile_append_dropWhile ..).symm
  have hunsigned : unsigned s = ds ++ s.dropWhile isNumeric := by
    rw [hsplit]
    cases neg with
    | true =>
      show unsigned (45 :: (ds ++ _)) = _
      rw [unsigned_minus, ← hsplit]
    | false =>
      obtain ⟨u, t, rfl⟩ := List.exists_cons_of_ne_nil hne
      have hu := (digit_unsigned hall).1
      show (if u = 45 then _ else _) = _
      rw [if_neg hu, ← hsplit]
      rfl
  have hrest : ((s.dropWhile isNumeric).dropWhile isDigit).head?.any isPointOrE = false := by
    cases hr : s.dropWhile isNumeric with
    | nil => rfl
    | cons u t =>
      have hu : isNumeric u = false := by
        have hhead := List.head?_dropWhile_not isNumeric s
        rw [hr] at hhead
        exact hhead
      have hnot : ¬isDigit u = true ∧ isPointOrE u = false := by
        unfold isNumeric at hu
        unfold isPointOrE
        simp only [decide_eq_false_iff_not, not_or] at hu
        refine ⟨hu.1, decide_eq_false ?_⟩
        rintro (hp | he | hE)
        · exact hu.2.1 hp
        · exact hu.2.2.1 he
        · exact hu.2.2.2.1 hE
      rw [List.dropWhile_cons_of_neg hnot.1]
      exact hnot.2
  have htake : (ds ++ s.dropWhile isNumeric).take 16 = ds.take 16 :=
    List.take_append_of_le_length hlen
  have hdrop : (ds ++ s.dropWhile isNumeric).drop 16 = ds.drop 16 ++ s.dropWhile isNumeric :=
    List.drop_append_of_le_length hlen
  have htakeAll : (ds.take 16).all isDigit = true :=
    List.all_eq_true.mpr fun u hu => hdigits u (List.mem_of_mem_take hu)
  have hdropAll : ((ds.drop 16) ++ s.dropWhile isNumeric).dropWhile isDigit =
      (s.dropWhile isNumeric).dropWhile isDigit :=
    List.dropWhile_append_of_pos fun u hu => hdigits u (List.mem_of_mem_drop hu)
  unfold bigIntHere
  dsimp only
  rw [hunsigned, htake, hdrop, hdropAll, hrest, htakeAll, List.length_take]
  have hmin : min 16 ds.length = 16 := Nat.min_eq_left hlen
  rw [hmin]
  rfl

theorem found_token {s : JsString} (h : IsBig (s.takeWhile isNumeric)) : Found s := by
  have hhere := bigIntHere_token h
  intro prev hprev
  cases s with
  | nil =>
    obtain ⟨n, hn, -⟩ := h
    cases hn
  | cons u t =>
    show (!prev.any isNumeric && bigIntHere (u :: t) || _) = true
    rw [hprev, hhere]
    rfl

/-- An integer of the text is not safe. -/
def HasBig (tokens : List JsString) : Prop := ∃ token ∈ tokens, IsBig token

theorem hasBig_append {ts ts' : List JsString} : HasBig (ts ++ ts') ↔ HasBig ts ∨ HasBig ts' := by
  unfold HasBig
  simp only [List.mem_append, or_and_right, exists_or]

theorem not_hasBig_nil : ¬HasBig [] := fun ⟨_, h, _⟩ => nomatch h

theorem parseWord_found {s rest : JsString} {a : Ast} (h : parseWord s = some (a, rest))
    (hbig : HasBig a.tokens) : Found s := by
  unfold parseWord at h
  repeat' split at h
  all_goals cases h
  · exact absurd hbig not_hasBig_nil
  · exact absurd hbig not_hasBig_nil
  · exact absurd hbig not_hasBig_nil
  · obtain ⟨token, ht, hbig⟩ := hbig
    rw [List.mem_singleton.mp ht] at hbig
    exact found_token hbig

theorem found_rules : Rules (fun s a rest => Consumed s rest ∧ (HasBig a.tokens → Found s))
    (fun s vs rest => Consumed s rest ∧ (HasBig (tokensItems vs) → Found s))
    (fun s ms rest => Consumed s rest ∧ (HasBig (tokensMembers ms) → Found s)) where
  emptyObject hs ht := ⟨(Consumed.behind hs).trans (.behind ht), fun hb => absurd hb not_hasBig_nil⟩
  object hs _ h := by
    refine ⟨(Consumed.behind hs).skip h.1, fun hb => ?_⟩
    exact Found.behind (by decide) (h.2 hb).skipWs (hs ▸ skipWs_suffix _)
  emptyArray hs ht := ⟨(Consumed.behind hs).trans (.behind ht), fun hb => absurd hb not_hasBig_nil⟩
  array hs _ h := by
    refine ⟨(Consumed.behind hs).skip h.1, fun hb => ?_⟩
    exact Found.behind (by decide) (h.2 hb).skipWs (hs ▸ skipWs_suffix _)
  string hs hv := ⟨(Consumed.behind hs).trans (parseChars_consumed hv),
    fun hb => absurd hb not_hasBig_nil⟩
  word hs _ _ _ hw := by
    refine ⟨(hs ▸ parseWord_consumed hw).of_skip, fun hb => Found.skipWs ?_⟩
    rw [hs]
    exact parseWord_found hw hb
  lastItem hv hr := by
    refine ⟨hv.1.trans (.behind hr), fun hb => ?_⟩
    rcases hasBig_append.mp hb with hb | hb
    · exact hv.2 hb
    · exact absurd hb not_hasBig_nil
  item hv hr hvs := by
    refine ⟨(hv.1.trans (.behind hr)).trans hvs.1, fun hb => ?_⟩
    rcases hasBig_append.mp hb with hb | hb
    · exact hv.2 hb
    · exact Found.behind (by decide) (hvs.2 hb) ((hr ▸ skipWs_suffix _).trans hv.1.1)
  lastMember hs hk hc hv hr := by
    have hkey := (Consumed.behind hs).trans (parseChars_consumed hk)
    refine ⟨((hkey.trans (.behind hc)).trans hv.1).trans (.behind hr), fun hb => ?_⟩
    rcases hasBig_append.mp hb with hb | hb
    · exact Found.behind (by decide) (hv.2 hb) ((hc ▸ skipWs_suffix _).trans hkey.1)
    · exact absurd hb not_hasBig_nil
  member hs hk hc hv hr hms := by
    have hkey := (Consumed.behind hs).trans (parseChars_consumed hk)
    have hvalue := (hkey.trans (.behind hc)).trans hv.1
    refine ⟨(hvalue.trans (.behind hr)).trans hms.1, fun hb => ?_⟩
    rcases hasBig_append.mp hb with hb | hb
    · exact Found.behind (by decide) (hv.2 hb) ((hc ▸ skipWs_suffix _).trans hkey.1)
    · exact Found.behind (by decide) (hms.2 hb) ((hr ▸ skipWs_suffix _).trans hvalue.1)

/-- **No integer is overlooked.** -/
theorem bigInt_found {s : JsString} {a : Ast} (h : parseText s = some a) (hbig : HasBig a.tokens) :
    bigIntTest s = true := by
  obtain ⟨rest, ⟨-, hfound⟩, -⟩ := found_rules.text h
  exact hfound hbig none rfl

/-! ### The same value -/

section Equality

variable {f g : JsString → Tree}

mutual

theorem value_eq_iff : ∀ a : Ast, a.value f = a.value g ↔ ∀ token ∈ a.tokens, f token = g token
  | .null | .boolean _ | .string _ => iff_of_true rfl fun _ h => nomatch h
  | .number token => by
    constructor
    · intro h t ht
      rw [List.mem_singleton.mp ht]
      exact h
    · exact fun h => h token List.mem_cons_self
  | .array vs => by
    refine Iff.trans ?_ (valueItems_eq_iff vs)
    exact ⟨fun h => Tree.array.inj h, fun h => congrArg Tree.array h⟩
  | .object ms => by
    refine Iff.trans ?_ (valueMembers_eq_iff ms)
    exact ⟨fun h => Tree.object.inj h, fun h => congrArg Tree.object h⟩

theorem valueItems_eq_iff : ∀ vs : List Ast,
    valueItems f vs = valueItems g vs ↔ ∀ token ∈ tokensItems vs, f token = g token
  | [] => iff_of_true rfl fun _ h => nomatch h
  | v :: vs => by
    show v.value f :: valueItems f vs = v.value g :: valueItems g vs ↔
      ∀ token ∈ v.tokens ++ tokensItems vs, _
    rw [List.cons.injEq, value_eq_iff v, valueItems_eq_iff vs, List.forall_mem_append]

theorem valueMembers_eq_iff : ∀ ms : List (JsString × Ast),
    valueMembers f ms = valueMembers g ms ↔ ∀ token ∈ tokensMembers ms, f token = g token
  | [] => iff_of_true rfl fun _ h => nomatch h
  | (k, v) :: ms => by
    show (k, v.value f) :: valueMembers f ms = (k, v.value g) :: valueMembers g ms ↔
      ∀ token ∈ v.tokens ++ tokensMembers ms, _
    rw [List.cons.injEq, Prod.mk.injEq, value_eq_iff v, valueMembers_eq_iff ms,
      List.forall_mem_append]
    exact and_congr_left fun _ => and_iff_right rfl

end

end Equality

section Reviver

variable {rt : Runtime} {rev : Tree → Option JsString → Tree}

mutual

/-- A reviver that only looks at numbers. -/
theorem revive_eq (hrev : ∀ v, rev v none = v) : ∀ a : Ast,
    a.revive rt rev = a.value fun token => rev (number rt token) (some token)
  | .null | .boolean _ | .string _ => hrev _
  | .number _ => rfl
  | .array vs => by
    show rev (.array (reviveItems rt rev vs)) none = .array (valueItems _ vs)
    rw [hrev, reviveItems_eq hrev vs]
  | .object ms => by
    show rev (.object (reviveMembers rt rev ms)) none = .object (valueMembers _ ms)
    rw [hrev, reviveMembers_eq hrev ms]

theorem reviveItems_eq (hrev : ∀ v, rev v none = v) : ∀ vs : List Ast,
    reviveItems rt rev vs = valueItems (fun token => rev (number rt token) (some token)) vs
  | [] => rfl
  | v :: vs => by
    show v.revive rt rev :: reviveItems rt rev vs = v.value _ :: valueItems _ vs
    rw [revive_eq hrev v, reviveItems_eq hrev vs]

theorem reviveMembers_eq (hrev : ∀ v, rev v none = v) : ∀ ms : List (JsString × Ast),
    reviveMembers rt rev ms = valueMembers (fun token => rev (number rt token) (some token)) ms
  | [] => rfl
  | (k, v) :: ms => by
    show (k, v.revive rt rev) :: reviveMembers rt rev ms = (k, v.value _) :: valueMembers _ ms
    rw [revive_eq hrev v, reviveMembers_eq hrev ms]

end

end Reviver

theorem tokens_put {k : JsString} {v : Ast} {token : JsString} :
    ∀ {o : List (JsString × Ast)}, token ∈ tokensMembers (put k v o) →
      token ∈ v.tokens ∨ token ∈ tokensMembers o
  | [], h => by
    rcases List.mem_append.mp h with h | h
    · exact .inl h
    · cases h
  | (k', v') :: o, h => by
    have h : token ∈ tokensMembers (if k' = k then (k, v) :: o else (k', v') :: put k v o) := h
    split at h
    · rcases List.mem_append.mp h with h | h
      · exact .inl h
      · exact .inr (List.mem_append.mpr (.inr h))
    · rcases List.mem_append.mp h with h | h
      · exact .inr (List.mem_append.mpr (.inl h))
      · rcases tokens_put h with h | h
        · exact .inl h
        · exact .inr (List.mem_append.mpr (.inr h))

mutual

/-- What stays is of the text. -/
theorem record_tokens {token : JsString} : ∀ {a : Ast}, token ∈ a.record.tokens → token ∈ a.tokens
  | .null, h | .boolean _, h | .string _, h | .number _, h => h
  | .array vs, h => @recordItems_tokens _ vs h
  | .object ms, h => by
    rcases @recordMembers_tokens _ ms [] h with h | h
    · exact h
    · cases h

theorem recordItems_tokens {token : JsString} : ∀ {vs : List Ast},
    token ∈ tokensItems (recordItems vs) → token ∈ tokensItems vs
  | [], h => h
  | v :: vs, h => by
    rcases List.mem_append.mp h with h | h
    · exact List.mem_append.mpr (.inl (record_tokens h))
    · exact List.mem_append.mpr (.inr (recordItems_tokens h))

theorem recordMembers_tokens {token : JsString} : ∀ {ms o : List (JsString × Ast)},
    token ∈ tokensMembers (recordMembers o ms) → token ∈ tokensMembers ms ∨ token ∈ tokensMembers o
  | [], o, h => .inr h
  | (k, v) :: ms, o, h => by
    rcases @recordMembers_tokens _ ms _ h with h | h
    · exact .inl (List.mem_append.mpr (.inr h))
    · rcases tokens_put h with h | h
      · exact .inl (List.mem_append.mpr (.inl (record_tokens h)))
      · exact .inr h

end

/-! ### What is returned -/

section Decoder

variable (rt : Runtime) (big : JsonBigints)

/-- A safe integer, or no integer at all, is one of `JSON.parse`. -/
theorem exact_safe {token : JsString} (h : ¬IsBig token) :
    number rt token = exact rt big token := by
  unfold exact
  split
  · rename_i n hn
    have hsafe : Double.Safe n := by
      by_contra hunsafe
      exact h ⟨n, hn, hunsafe⟩
    rw [if_pos hsafe]
  · rfl

/-- The double of the integer is finite. -/
def FitsDouble (n : Int) : Prop := (n.natAbs : ℚ) < 2 ^ 1024 - 2 ^ 970

theorem fitsDouble_small {n : Int} (h : n.natAbs < 2 ^ 200) : FitsDouble n := by
  have hcast : (n.natAbs : ℚ) < 2 ^ 200 := by exact_mod_cast h
  have hone : (1 : ℚ) ≤ 2 ^ 970 := one_le_pow₀ (by norm_num)
  have hsplit : (2 : ℚ) ^ 1024 = 2 ^ 54 * 2 ^ 970 := by
    rw [← pow_add]
  have hless : (2 : ℚ) ^ 200 ≤ 2 ^ 970 := pow_le_pow_right₀ (by norm_num) (by norm_num)
  unfold FitsDouble
  rw [hsplit]
  generalize (2 : ℚ) ^ 970 = y at hone hless ⊢
  generalize (2 : ℚ) ^ 200 = z at hcast hless ⊢
  have h54 : (2 : ℚ) ^ 54 = 18014398509481984 := by norm_num
  rw [h54]
  linarith

/-- The reviver keeps an integer whose double is finite. -/
theorem reviver_exact_iff (hbig : big ≠ .number) (token : JsString) :
    bigintReviver big (number rt token) (some token) = exact rt big token ↔
      ∀ n, decimalInt? token = some n → FitsDouble n := by
  cases hn : decimalInt? token with
  | none =>
    refine iff_of_true ?_ fun n h => nomatch h
    show (if _ && _ && (decimalInt? token).isSome then _ else _) = _
    unfold exact
    rw [hn, Option.isSome_none, Bool.and_false, if_neg Bool.false_ne_true]
  | some n =>
    obtain ⟨neg, ds, rfl, -, hne, hall⟩ := decimalInt_some hn
    have hdigits := decimalInt_digits neg hne hall
    rw [hdigits] at hn
    have hnumber := number_digits rt neg hne hall
    unfold exact
    rw [hnumber, hdigits]
    show (if (Double.round neg _).integer?.isSome && !(Double.round neg _).safeInteger?.isSome &&
      (decimalInt? (signed neg ds)).isSome then _ else _) = _ ↔ _
    rw [hdigits]
    have hfits : (∀ k, some n = some k → FitsDouble k) ↔ FitsDouble n :=
      ⟨fun h => h n rfl, fun h k hk => Option.some.inj hk ▸ h⟩
    rw [hfits]
    generalize readDecimal 0 (digitValues ds) = m at hn ⊢
    have habs : n.natAbs = m := by
      cases hn
      cases neg
      all_goals simp
    have hn : (if neg = true then -(m : Int) else m) = n := Option.some.inj hn
    rw [hn]
    dsimp only
    by_cases hm : m ≤ 9007199254740991
    · have hsafe : Double.Safe n := by
        unfold Double.Safe
        omega
      have hsmall : n.natAbs < 2 ^ 200 := Nat.lt_of_le_of_lt (habs ▸ hm) (by norm_num)
      rw [Double.round_safe neg hm, if_pos hsafe]
      refine iff_of_true ?_ (fitsDouble_small hsmall)
      simp
    · have hlarge := Double.round_unsafe neg (Nat.not_le.mp hm)
      have hunsafe : ¬Double.Safe n := by
        unfold Double.Safe
        omega
      have hpos : (0 : ℚ) < m := by
        have hm0 : 0 < m := by omega
        exact_mod_cast hm0
      have hfinite := Double.isFinite_round neg hpos
      unfold FitsDouble
      rw [habs, ← hfinite, hlarge.unsafe_integer, if_neg hunsafe]
      by_cases hexp : (Double.round neg (m : ℚ)).exponent = 2047
      · have hnone : (Double.round neg (m : ℚ)).integer? = none := if_pos hexp
        have hinf : ¬(Double.round neg (m : ℚ)).isFinite = true :=
          Bool.eq_false_iff.mp (decide_eq_false fun h => h hexp)
        rw [hnone]
        refine iff_of_false ?_ hinf
        cases big with
        | number => exact absurd rfl hbig
        | string => exact fun h => (nomatch h)
        | bigint => exact fun h => (nomatch h)
      · obtain ⟨k, hk, -⟩ := hlarge.integer hexp
        rw [hk]
        refine iff_of_true ?_ (decide_eq_true hexp)
        cases big with
        | number => exact absurd rfl hbig
        | string => rfl
        | bigint => rfl

theorem decoder_exact_iff (hbig : big ≠ .number) (jsonSourceSupported : Bool) {s : JsString}
    (hwf : isWellFormed s) {a : Ast} (h : parseText s = some a) :
    jsonDecoder rt jsonSourceSupported big (utf8 s) = some (a.record.value (exact rt big)) ↔
      (jsonSourceSupported = true → ∀ token ∈ a.record.tokens, ∀ n,
        decimalInt? token = some n → FitsDouble n) := by
  have hgate := bigInt_found h
  have hparse : jsonParse rt s = some (a.record.value (number rt)) := by
    unfold jsonParse
    rw [h]
    rfl
  have hdecoder : jsonDecoder rt jsonSourceSupported big (utf8 s) =
      bigintJsonParser rt jsonSourceSupported big s (utf8 s) := by
    unfold jsonDecoder
    rw [if_neg hbig, standard_utf8 rt hwf]
  rw [hdecoder]
  unfold bigintJsonParser
  cases htest : bigIntTest s with
  | false =>
    have hnone : ∀ token ∈ a.record.tokens, ¬IsBig token := by
      intro token ht hb
      have hfound := hgate ⟨token, record_tokens ht, hb⟩
      rw [htest] at hfound
      cases hfound
    have hvalue : a.record.value (number rt) = a.record.value (exact rt big) :=
      (value_eq_iff _).mpr fun token ht => exact_safe rt big (hnone token ht)
    refine iff_of_true ?_ fun _ token ht n hn => fitsDouble_small ?_
    · rw [hparse, hvalue]
      cases jsonSourceSupported
      all_goals rfl
    · have hsafe : Double.Safe n := by
        by_contra hunsafe
        exact hnone token ht ⟨n, hn, hunsafe⟩
      unfold Double.Safe at hsafe
      refine Nat.lt_of_le_of_lt (show n.natAbs ≤ 9007199254740991 by omega) ?_
      norm_num
  | true =>
    cases jsonSourceSupported with
    | false =>
      refine iff_of_true ?_ fun h => nomatch h
      exact parseJsonBuffer_text hwf h
    | true =>
      have hrevive : jsonParseWith rt (bigintReviver big) s =
          some (a.record.value fun token =>
            bigintReviver big (number rt token) (some token)) := by
        have hnone : ∀ v, bigintReviver big v none = v := by
          intro v
          cases v
          all_goals rfl
        unfold jsonParseWith
        rw [h]
        exact congrArg some (revive_eq hnone a.record)
      show jsonParseWith rt (bigintReviver big) s = _ ↔ _
      rw [hrevive, Option.some.injEq, value_eq_iff]
      constructor
      · intro h _ token ht
        exact (reviver_exact_iff rt big hbig token).mp (h token ht)
      · intro h token ht
        exact (reviver_exact_iff rt big hbig token).mpr (h rfl token ht)

/-- **Integers are kept exactly**, of any text and by either implementation, unless the reviver
meets one whose double is an infinity; and the gate leaves no text to `JSON.parse` that has an
integer which is not safe. -/
theorem jsonDecoder_exact_iff (hbig : big ≠ .number) (jsonSourceSupported : Bool) {s : JsString}
    (hwf : isWellFormed s) {a : Ast} (h : parseText s = some a) :
    ((HasBig a.tokens → bigIntTest s = true) ∧
      jsonDecoder rt jsonSourceSupported big (utf8 s) =
        some (a.record.value (exact rt big))) ↔
      (jsonSourceSupported = true → ∀ token ∈ a.record.tokens, ∀ n,
        decimalInt? token = some n → FitsDouble n) := by
  rw [and_iff_right (bigInt_found h)]
  exact decoder_exact_iff rt big hbig jsonSourceSupported hwf h

end Decoder

/-- A number is a text. -/
theorem parseText_number {token : JsString} (h : isNumber token) (hall : token.all isNumeric) :
    parseText token = some (.number token) := by
  have hnumeric := List.all_eq_true.mp hall
  have htake : token.takeWhile isNumeric = token := List.takeWhile_eq_self_iff.mpr hnumeric
  have hdrop : token.dropWhile isNumeric = [] := List.dropWhile_eq_nil_iff.mpr hnumeric
  cases token with
  | nil => cases h
  | cons u t =>
    have hu := hnumeric u List.mem_cons_self
    have hne : ∀ k : UInt16, isNumeric k = false → ¬u = k := by
      rintro k hk rfl
      rw [hu] at hk
      cases hk
    have hstarts : ∀ w : String, (ascii w).head?.any isNumeric = false → ascii w ≠ [] →
        ¬ascii w <+: u :: t := by
      rintro w hw hnil ⟨r, hr⟩
      obtain ⟨v, w', hcons⟩ := List.exists_cons_of_ne_nil hnil
      rw [hcons] at hr hw
      have hv : v = u := (List.cons.inj hr).1
      rw [hv] at hw
      have hw : isNumeric u = false := hw
      rw [hu] at hw
      cases hw
    have hskip : skipWs (u :: t) = u :: t := by
      refine List.dropWhile_cons_of_neg ?_
      unfold isWs
      rw [decide_eq_true_eq]
      rintro (h | h | h | h)
      · exact hne 32 (by decide) h
      · exact hne 9 (by decide) h
      · exact hne 10 (by decide) h
      · exact hne 13 (by decide) h
    have hword : parseWord (u :: t) = some (.number (u :: t), []) := by
      unfold parseWord
      rw [if_neg (hstarts "true" (by decide) (by decide)),
        if_neg (hstarts "false" (by decide) (by decide)),
        if_neg (hstarts "null" (by decide) (by decide)), htake, hdrop, if_pos h]
    have hvalue : parseValue ((u :: t).length + 1) (u :: t) = some (.number (u :: t), []) := by
      rw [parseValue, hskip]
      dsimp only
      rw [if_neg (hne 123 (by decide)), if_neg (hne 91 (by decide)), if_neg (hne 34 (by decide)),
        hword]
    unfold parseText
    rw [hvalue]
    rfl

open Plans (hexOnly)

/-- `12345678901234567890`. -/
def largeInteger : JsString := ascii "12345678901234567890"

theorem largeInteger_parses : parseText largeInteger = some (.number largeInteger) :=
  parseText_number (by decide) (by decide)

theorem largeInteger_kept : parseText largeInteger = some (.number largeInteger) ∧
    isWellFormed largeInteger = true ∧
    (HasBig [largeInteger] → bigIntTest largeInteger = true) ∧
    jsonDecoder hexOnly.env.rt true .bigint (utf8 largeInteger) =
      some (exact hexOnly.env.rt .bigint largeInteger) := by
  have hwf : isWellFormed largeInteger = true := by decide
  have hfits : true = true → ∀ token ∈ [largeInteger], ∀ n,
      decimalInt? token = some n → FitsDouble n := by
    intro _ token ht n hn
    rw [List.mem_singleton.mp ht] at hn
    have hvalue : decimalInt? largeInteger = some 12345678901234567890 := by decide
    rw [hvalue] at hn
    cases hn
    exact fitsDouble_small (by norm_num)
  have hall := (jsonDecoder_exact_iff hexOnly.env.rt .bigint (by decide) true hwf
    largeInteger_parses).mpr hfits
  exact ⟨largeInteger_parses, hwf, hall⟩

/-- A 1 and `k` zeros. -/
def powerOfTen (k : Nat) : JsString := 49 :: List.replicate k 48

theorem powerOfTen_digits (k : Nat) : (powerOfTen k).all isDigit = true := by
  refine List.all_eq_true.mpr fun u hu => ?_
  rcases List.mem_cons.mp hu with rfl | hu
  · decide
  · rw [List.eq_of_mem_replicate hu]
    decide

theorem powerOfTen_parses (k : Nat) :
    parseText (powerOfTen k) = some (.number (powerOfTen k)) := by
  have hdigits := List.all_eq_true.mp (powerOfTen_digits k)
  have hall : (powerOfTen k).all isNumeric = true := by
    refine List.all_eq_true.mpr fun u hu => ?_
    unfold isNumeric
    rw [decide_eq_true_eq]
    exact .inl (hdigits u hu)
  have htake : (powerOfTen k).takeWhile isDigit = powerOfTen k :=
    List.takeWhile_eq_self_iff.mpr hdigits
  have hdrop : (powerOfTen k).dropWhile isDigit = [] := List.dropWhile_eq_nil_iff.mpr hdigits
  have hunsigned : unsigned (powerOfTen k) = powerOfTen k := by
    show (if (49 : UInt16) = 45 then List.replicate k 48 else powerOfTen k) = _
    rw [if_neg (by decide)]
  refine parseText_number ?_ hall
  unfold isNumber
  rw [hunsigned, htake, hdrop]
  rfl

theorem readDecimal_zeros (n : Nat) : ∀ k, readDecimal n (List.replicate k 0) = n * 10 ^ k
  | 0 => (Nat.mul_one n).symm
  | k + 1 => by
    rw [List.replicate_succ, Nat.pow_succ', ← Nat.mul_assoc]
    exact readDecimal_zeros (n * 10) k

theorem powerOfTen_value (k : Nat) : decimalInt? (powerOfTen k) = some ((10 ^ k : Nat) : Int) := by
  have hvalue := decimalInt_digits false (show powerOfTen k ≠ [] from List.cons_ne_nil _ _)
    (powerOfTen_digits k)
  have hdigits : digitValues (powerOfTen k) = 1 :: List.replicate k 0 := by
    unfold digitValues powerOfTen
    rw [List.map_cons, List.map_replicate]
    rfl
  have hread : readDecimal 0 (digitValues (powerOfTen k)) = 10 ^ k := by
    rw [hdigits]
    show readDecimal 1 (List.replicate k 0) = _
    rw [readDecimal_zeros, Nat.one_mul]
  rw [hread, if_neg Bool.false_ne_true] at hvalue
  exact hvalue

theorem powerOfTen_wellFormed (k : Nat) : isWellFormed (powerOfTen k) = true := by
  refine wellFormed_of_ascii fun u hu => ?_
  have hd := of_decide_eq_true (List.all_eq_true.mp (powerOfTen_digits k) u hu)
  unfold IsAscii
  omega

theorem powerOfTen_long {k : Nat} (hk : 400 ≤ k) : ¬FitsDouble ((10 ^ k : Nat) : Int) := by
  have hten : (2 : ℚ) ^ 1024 ≤ 10 ^ k :=
    calc (2 : ℚ) ^ 1024 ≤ 2 ^ (3 * k) := pow_le_pow_right₀ (by norm_num) (by omega)
      _ = (2 ^ 3) ^ k := pow_mul 2 3 k
      _ ≤ 10 ^ k := pow_le_pow_left₀ (by norm_num) (by norm_num) k
  have hpos : (0 : ℚ) ≤ 2 ^ 970 := pow_nonneg (by norm_num) 970
  unfold FitsDouble
  rw [Int.natAbs_natCast, Nat.cast_pow]
  push_cast
  generalize (2 : ℚ) ^ 1024 = x at hten ⊢
  generalize (2 : ℚ) ^ 970 = y at hpos ⊢
  linarith

theorem powerOfTen_lost {k : Nat} (hk : 400 ≤ k) (rt : Runtime) :
    ¬jsonDecoder rt true .bigint (utf8 (powerOfTen k)) =
      some (exact rt .bigint (powerOfTen k)) := by
  intro h
  have hkept := (decoder_exact_iff rt .bigint (by decide) true (powerOfTen_wellFormed k)
    (powerOfTen_parses k)).mp h rfl (powerOfTen k) (List.mem_singleton.mpr rfl)
  exact powerOfTen_long hk (hkept _ (powerOfTen_value k))

/-- The integer 10 ^ 400 comes back as an infinity. -/
theorem longInteger_lost : parseText (powerOfTen 400) = some (.number (powerOfTen 400)) ∧
    isWellFormed (powerOfTen 400) = true ∧
    ¬jsonDecoder hexOnly.env.rt true .bigint (utf8 (powerOfTen 400)) =
      some (exact hexOnly.env.rt .bigint (powerOfTen 400)) :=
  ⟨powerOfTen_parses 400, powerOfTen_wellFormed 400,
    powerOfTen_lost (Nat.le_refl 400) hexOnly.env.rt⟩

end Minipg.Json
