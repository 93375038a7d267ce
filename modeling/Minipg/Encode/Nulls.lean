import Minipg.Encode.Accepting

/-!
# Parameters of a statement that is already prepared

The first execution of a statement sends its parameters as text, the next ones by the plan for their
types, and the HTTP entries as JSON.  `all_keep_iff` says which parameters mean the same to all three:
the same ones are NULL, and the plan takes what the text encoder takes.
-/

namespace Minipg.Encode

open Js Writer Appending

variable {js : Engine} {oids : List Oid} {v : Value} {n : Write Format} {params : List Value}

/-! ### JSON -/

/-- `JSON.stringify(v)` as a value. -/
def stringifiedValue (js : Engine) (v : Value) : Except JsError Value :=
  (js.stringify v).map fun s => match s with
    | some s => .string s
    | none => .undefined

def hexText (b : List UInt8) : Value := .string (ascii "\\x" ++ hex b)

/-- A value of a declared json type. -/
def declaredValue (js : Engine) : Value → Except JsError Value
  | .string s => .ok (.string s)
  | v => stringifiedValue js v

/-- A value of another type. -/
def plainValue (js : Engine) : Value → Except JsError Value
  | .buffer b => .ok (hexText b)
  | .date t => (toISOString t).map .string
  | .bigint n => .ok (.string (js.string (.bigint n)))
  | .array arr => (arrayLiteral js arr).map .string
  | .object id =>
    match js.uint8Array id with
    | some b => .ok (hexText b)
    | none => stringifiedValue js (.object id)
  | .string s => if hasNul s then .error (.error nulMsg) else .ok (.string s)
  | v => .ok v

def encodeJsonParam (js : Engine) (declaredOid : Option Oid) : Value → Except JsError Value
  | .undefined | .null => .ok .null
  | v =>
    if declaredOid = some 114 ∨ declaredOid = some 3802 then declaredValue js v
    else plainValue js v

/-- What `JSON.stringify` of the request writes as `null`. -/
def jsonNull : Value → Bool
  | .undefined | .null | .other _ => true
  | .number x => x.exponent = 2047
  | _ => false

/-! ### What is sent -/

/-- The parameter goes out as NULL. -/
def SentNull (m : Write Format) : Prop := ∃ f, m {} = .ok (f, ⟨framed none, 0⟩)

def JsonNull (js : Engine) (declaredOid : Option Oid) (v : Value) : Prop :=
  ∃ u, encodeJsonParam js declaredOid v = .ok u ∧ jsonNull u

/-- A parameter of this index keeps its meaning. -/
structure Keeps (js : Engine) (oids : List Oid) (i : Nat) (v : Value) : Prop where
  plan : SentNull (planned js oids v i) ↔ v.isNullish
  text : SentNull (encodeValueInto js v) ↔ v.isNullish
  json : ∀ declaredOid, declaredOid = none ∨ declaredOid = oids[i]? →
    (JsonNull js declaredOid v ↔ v.isNullish)
  accepted : Accepted (encodeValueInto js v) → Accepted (planned js oids v i)

/-! ### The conditions -/

/-- JSON has a form for the value that is not `null`. -/
def JsonFits (js : Engine) : Value → Prop
  | .number x => x.exponent ≠ 2047
  | .other _ => False
  | .object id => js.uint8Array id = none → js.stringify (.object id) ≠ .ok none
  | _ => True

/-- The condition on a value of a type. -/
structure Fitting (js : Engine) (oid : Option Oid) (v : Value) : Prop where
  null : v.isNullish → ∀ o ∈ oid, ¬isJson o
  json : JsonFits js v
  jsonText : v.isNullish = false → (∀ s, v ≠ .string s) → (∃ o ∈ oid, isJson o) →
    js.stringify v ≠ .ok none
  plan : TextFits js v → ∀ o ∈ oid, PlanFits js o v

/-! ### NULL -/

theorem framed_none {b : Option (List UInt8)} (h : framed b = framed none) : b = none := by
  cases b with
  | none => rfl
  | some bs =>
    have hlen := congrArg List.length h
    have hfour : (framed none).length = 4 := rfl
    rw [hfour, framed, List.length_append, bigEndian_length] at hlen
    obtain rfl : bs = [] := List.length_eq_zero_iff.mp (by omega)
    exact absurd h (by decide)

theorem sentNull_iff {null : Prop} (h : Sends n null) : SentNull n ↔ Accepted n ∧ null := by
  obtain ⟨r, hr, hb⟩ := h
  rw [accepted_iff hr]
  unfold SentNull
  rw [hr {}]
  cases r with
  | error e => exact ⟨fun ⟨_, hp⟩ => (nomatch hp), fun ⟨⟨_, hp⟩, _⟩ => (nomatch hp)⟩
  | ok p =>
    obtain ⟨f, bs⟩ := p
    obtain ⟨b, rfl, -, hnull⟩ := hb f bs rfl
    constructor
    · rintro ⟨f', hf⟩
      have hbuf : Writer.mk ([] ++ framed b) 0 = Writer.mk (framed none) 0 :=
        congrArg Prod.snd (Except.ok.inj hf)
      exact ⟨⟨_, rfl⟩, hnull.mp (framed_none (congrArg Writer.buf hbuf))⟩
    · rintro ⟨-, hn⟩
      rw [hnull.mpr hn]
      exact ⟨f, rfl⟩

theorem encoderOf_sends (oid : Oid) (v : Value) :
    Sends (encoderOf js oid v) (v.isNullish ∧ ¬isJson oid) := by
  unfold encoderOf
  cases h : binEncoderFor js oid with
  | none =>
    refine (encodeValueInto_sends v).congr ⟨fun hv => ⟨hv, fun hj => ?_⟩, fun hv => hv.1⟩
    rcases hj with rfl | rfl
    · cases h
    · cases h
  | some enc => exact binEncoderFor_sends oid v enc h

/-! ### What JSON carries -/

theorem stringifiedValue_null (h : js.stringify v ≠ .ok none) {u : Value}
    (hu : stringifiedValue js v = .ok u) : jsonNull u = false := by
  unfold stringifiedValue at hu
  cases hs : js.stringify v with
  | error e =>
    rw [hs] at hu
    cases hu
  | ok o =>
    cases o with
    | none => exact absurd hs h
    | some s =>
      rw [hs] at hu
      cases hu
      rfl

theorem declared_json {d : Option Oid} (hv : v.isNullish = false)
    (hd : d = some 114 ∨ d = some 3802) : encodeJsonParam js d v = declaredValue js v := by
  cases v with
  | undefined => cases hv
  | null => cases hv
  | _ => exact if_pos hd

theorem declared_other {d : Option Oid} (hv : v.isNullish = false)
    (hd : ¬(d = some 114 ∨ d = some 3802)) : encodeJsonParam js d v = plainValue js v := by
  cases v with
  | undefined => cases hv
  | null => cases hv
  | _ => exact if_neg hd

/-- A value that JSON has a form for is no `null`. -/
theorem not_jsonNull {d : Option Oid} (hv : v.isNullish = false) (hfits : JsonFits js v)
    (hjson : (∀ s, v ≠ .string s) → (d = some 114 ∨ d = some 3802) → js.stringify v ≠ .ok none) :
    ¬JsonNull js d v := by
  rintro ⟨u, hu, hnull⟩
  rw [← Bool.not_eq_false] at hnull
  apply hnull
  by_cases hd : d = some 114 ∨ d = some 3802
  · rw [declared_json hv hd] at hu
    cases v with
    | string s =>
      cases hu
      rfl
    | _ => exact stringifiedValue_null (hjson (fun _ h => (nomatch h)) hd) hu
  · rw [declared_other hv hd] at hu
    cases v with
    | undefined => cases hv
    | null => cases hv
    | boolean b =>
      cases hu
      rfl
    | number x =>
      cases hu
      exact decide_eq_false hfits
    | bigint n =>
      cases hu
      rfl
    | string s =>
      have hs : (if hasNul s then _ else _) = Except.ok u := hu
      split at hs
      · cases hs
      · cases hs
        rfl
    | date t =>
      cases t with
      | none => cases hu
      | some t =>
        cases hu
        rfl
    | buffer b =>
      cases hu
      rfl
    | array arr =>
      have ha : (arrayLiteral js arr).map Value.string = .ok u := hu
      cases hs : arrayLiteral js arr with
      | error e =>
        rw [hs] at ha
        cases ha
      | ok s =>
        rw [hs] at ha
        cases ha
        rfl
    | object id =>
      have ho : (match js.uint8Array id with
        | some b => Except.ok (hexText b)
        | none => stringifiedValue js (.object id)) = .ok u := hu
      cases hb : js.uint8Array id with
      | some b =>
        rw [hb] at ho
        cases ho
        rfl
      | none =>
        rw [hb] at ho
        exact stringifiedValue_null (hfits hb) ho
    | other id => exact hfits.elim

theorem declaredValue_eq (h : ∀ s, v ≠ .string s) : declaredValue js v = stringifiedValue js v := by
  cases v with
  | string s => exact absurd rfl (h s)
  | _ => rfl

theorem jsonFits_of_iff (h : JsonNull js none v ↔ v.isNullish) : JsonFits js v := by
  cases v with
  | number x =>
    intro hx
    cases h.mp ⟨.number x, rfl, decide_eq_true hx⟩
  | other id => cases h.mp ⟨.other id, rfl, rfl⟩
  | object id =>
    intro hb hs
    have hu : encodeJsonParam js none (.object id) = .ok .undefined := by
      show (match js.uint8Array id with
        | some b => Except.ok (hexText b)
        | none => stringifiedValue js (.object id)) = .ok .undefined
      rw [hb]
      show (js.stringify (.object id)).map _ = _
      rw [hs]
      rfl
    cases h.mp ⟨.undefined, hu, rfl⟩
  | _ => trivial

/-- **A parameter keeps its meaning** exactly when it fits its type. -/
theorem keeps_iff_fitting (hjs : Prints js) {i : Nat} :
    Keeps js oids i v ↔ Fitting js oids[i]? v := by
  constructor
  · intro h
    refine ⟨fun hv o ho hj => ?_, jsonFits_of_iff (h.json none (.inl rfl)),
      fun hv hs ho hnone => ?_, fun ht o ho => ?_⟩
    · have hsent := h.plan.mpr hv
      rw [planned_known ho] at hsent
      exact ((sentNull_iff (encoderOf_sends o v)).mp hsent).2.2 hj
    · obtain ⟨o, ho, hj⟩ := ho
      have hd : oids[i]? = some 114 ∨ oids[i]? = some 3802 := by
        rw [Option.mem_def.mp ho]
        exact hj.imp (congrArg some) (congrArg some)
      have hnull := (h.json _ (.inr rfl)).mp ⟨.undefined, ?_, rfl⟩
      · rw [hv] at hnull
        cases hnull
      · rw [declared_json hv hd, declaredValue_eq hs]
        unfold stringifiedValue
        rw [hnone]
        rfl
    · have haccepted := h.accepted ((text_accepted hjs).mpr ht)
      rw [planned_known ho] at haccepted
      exact (plan_accepted hjs ht).mp haccepted
  · intro h
    refine ⟨?_, ?_, fun d hd => ?_, fun ht => ?_⟩
    · cases ho : oids[i]? with
      | none =>
        rw [planned_beyond ho, sentNull_iff (encodeValueInto_sends v)]
        exact ⟨fun hv => hv.2, fun hv => ⟨(text_accepted hjs).mpr (nullish_fits hv), hv⟩⟩
      | some o =>
        rw [planned_known ho, sentNull_iff (encoderOf_sends o v)]
        exact ⟨fun hv => hv.2.1, fun hv =>
          ⟨nullish_accepted hjs hv (h.null hv o ho), hv, h.null hv o ho⟩⟩
    · rw [sentNull_iff (encodeValueInto_sends v)]
      exact ⟨fun hv => hv.2, fun hv => ⟨(text_accepted hjs).mpr (nullish_fits hv), hv⟩⟩
    · constructor
      · intro hnull
        by_contra hv
        have hv : v.isNullish = false := Bool.eq_false_iff.mpr hv
        refine not_jsonNull hv h.json (fun hs hj => ?_) hnull
        rcases hd with rfl | rfl
        · rcases hj with hj | hj <;> cases hj
        · exact h.jsonText hv hs (hj.elim (fun ho => ⟨114, ho, .inl rfl⟩)
            fun ho => ⟨3802, ho, .inr rfl⟩)
      · intro hv
        cases v with
        | undefined => exact ⟨_, rfl, rfl⟩
        | null => exact ⟨_, rfl, rfl⟩
        | _ => cases hv
    · have hfits := (text_accepted hjs).mp ht
      cases ho : oids[i]? with
      | none =>
        rw [planned_beyond ho]
        exact ht
      | some o =>
        rw [planned_known ho]
        exact (plan_accepted hjs hfits).mpr (h.plan hfits o ho)

/-- **The parameters of a statement** keep their meaning when it is executed again exactly when
each of them fits its type. -/
theorem all_keep_iff (hjs : Prints js) : (∀ (i : Nat) v, params[i]? = some v → Keeps js oids i v) ↔
    ∀ (i : Nat) v, params[i]? = some v → Fitting js oids[i]? v := by
  constructor
  · intro h i v hv
    exact (keeps_iff_fitting hjs).mp (h i v hv)
  · intro h i v hv
    exact (keeps_iff_fitting hjs).mpr (h i v hv)

/-- A null of the type jsonb: the first execution sends NULL, the plan the text `null`. -/
theorem jsonb_null_differs : SentNull (encodeValueInto nullEngine .null) ∧
    ¬SentNull (planned nullEngine [3802] .null 0) ∧ ¬Keeps nullEngine [3802] 0 .null := by
  have hplan : planned nullEngine [3802] .null 0 {} =
      .ok (.text, ⟨[0, 0, 0, 4, 110, 117, 108, 108], 0⟩) := rfl
  have hnot : ¬SentNull (planned nullEngine [3802] .null 0) := by
    rintro ⟨f, hf⟩
    rw [hplan] at hf
    have hbuf : [0, 0, 0, 4, 110, 117, 108, 108] = framed none :=
      congrArg Writer.buf (congrArg Prod.snd (Except.ok.inj hf))
    exact absurd hbuf (by decide)
  exact ⟨⟨.text, rfl⟩, hnot, fun h => hnot (h.plan.mpr rfl)⟩

theorem all_keep_bool : (∀ (i : Nat) v, [Value.boolean true, .null][i]? = some v →
      Keeps nullEngine [16, 23] i v) ↔
    ∀ (i : Nat) v, [Value.boolean true, .null][i]? = some v → Fitting nullEngine [16, 23][i]? v :=
  all_keep_iff nullEngine_prints

end Minipg.Encode
