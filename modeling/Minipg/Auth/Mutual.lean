import Minipg.Auth.Login

/-!
# Who is at the other end

A client is `Authentic` when it becomes ready only after the server proved itself: with
`channelBinding: 'require'` by a SCRAM-SHA-256-PLUS exchange, and wherever an exchange was begun by
that one; and when it writes no password where binding is required.  Neither client checks this when
ReadyForQuery arrives, nor asks for binding before it answers with a password.  So it depends on the
order of the messages: `authentic_iff`.
-/

namespace Minipg.Auth

open Js Precedence

variable (crypto : Crypto) (cfg : LoginConfig)

/-! ### What was done -/

/-- The exchange of the attempt, and whether `final` verified the signature in it. -/
def follow : Option (Scram × Bool) → Act → Option (Scram × Bool)
  | _, .attempt => none
  | _, .begun s => some (s, false)
  | some (b, _), .verified s serverFinal =>
    some (b, s.begun = b ∧ (final crypto s serverFinal).isOk)
  | x, _ => x

def exchange (acts : List Act) : Option (Scram × Bool) := acts.foldl (follow crypto) none

/-- The server has proved itself as far as the mode and the exchange ask for it. -/
def Proven : Option (Scram × Bool) → Prop
  | none => cfg.mode ≠ .require
  | some (b, verified) => verified = true ∧ (cfg.mode = .require → b.mechanism = .scramSha256Plus)

def Authentic (before : List Act) : Act → Prop
  | .ready => Proven cfg (exchange crypto before)
  | .sent (.password _) => cfg.mode ≠ .require
  | _ => True

/-! ### What was read -/

/-- Whether AuthenticationSASL came in this attempt, and SASLFinal after the last one. -/
def ask : Option Bool → Event → Option Bool
  | _, .establish => none
  | x, .request body _ =>
    if requestCode body = some 10 then some false
    else if requestCode body = some 12 then x.map fun _ => true
    else x
  | x, _ => x

def asked (es : List Event) : Option Bool := es.foldl ask none

/-- `ReplicationConnection` reads authentication requests only while it connects. -/
def Driver.hears : Driver → Client → Prop
  | .connection, _ => True
  | .replication, s => s.connecting = true

def Client.writable (s : Client) : Prop := ∃ k ∈ s.socket, k.ended = false

/-- The condition on a message, after the events before it. -/
def Orderly (d : Driver) (before : List Event) : Event → Prop
  | .readyForQuery =>
    (d.state crypto cfg before).connecting = true →
      match asked before with
      | none => cfg.mode ≠ .require
      | some verified => verified = true
  | .request body _ =>
    cfg.mode = .require → d.hears (d.state crypto cfg before) →
      (d.state crypto cfg before).writable → requestCode body ≠ some 3 ∧ requestCode body ≠ some 5
  | _ => True

/-! ### The invariant -/

/-- What was read, the client, and its exchange. -/
structure InStep (x : Option Bool) (s : Client) (y : Option (Scram × Bool)) : Prop where
  agree : s.connecting = true → y.map Prod.snd = x
  plus : ∀ b v, y = some (b, v) → cfg.mode = .require → b.mechanism = .scramSha256Plus
  same : ∀ b v, y = some (b, v) → s.scramState.map Scram.begun = some b

variable {crypto cfg} {x x' : Option Bool} {s s' : Client} {y : Option (Scram × Bool)}

theorem InStep.down (h : InStep cfg x s y) (hc : s'.connecting = true → s.connecting = true)
    (hs : s'.scramState = s.scramState) : InStep cfg x s' y :=
  ⟨fun h' => h.agree (hc h'), h.plus, fun b v hy => hs ▸ h.same b v hy⟩

/-- An attempt that is over need not agree. -/
theorem InStep.over (h : InStep cfg x s y) (hc : s'.connecting = false)
    (hs : s'.scramState = s.scramState) : InStep cfg x' s' y :=
  ⟨fun h' => absurd h' (Bool.eq_false_iff.mp hc), h.plus, fun b v hy => hs ▸ h.same b v hy⟩

theorem failAttempt_connecting : (Connection.failAttempt s).connecting = false := by
  unfold Connection.failAttempt
  split
  · rfl
  · next h => exact Bool.eq_false_iff.mpr h

theorem failAttempt_scramState : (Connection.failAttempt s).scramState = s.scramState := by
  unfold Connection.failAttempt
  split <;> rfl

theorem onSocketDown_connecting (h : (Connection.onSocketDown cfg s).connecting = true) :
    s.connecting = true := by
  unfold Connection.onSocketDown at h
  split at h
  · exact h
  split at h
  · assumption
  · exact h

theorem onSocketDown_scramState : (Connection.onSocketDown cfg s).scramState = s.scramState := by
  unfold Connection.onSocketDown
  split
  · rfl
  split
  · exact failAttempt_scramState
  · rfl

theorem InStep.failAttempt (h : InStep cfg x s y) : InStep cfg x' (Connection.failAttempt s) y :=
  h.over failAttempt_connecting failAttempt_scramState

theorem InStep.onSocketDown (h : InStep cfg x s y) :
    InStep cfg x (Connection.onSocketDown cfg s) y :=
  h.down onSocketDown_connecting onSocketDown_scramState

/-! ### The handlers -/

/-- What a handler leaves, where the exchange goes on from `y`. -/
def Leaves (crypto : Crypto) (cfg : LoginConfig) (y : Option (Scram × Bool)) (x : Option Bool)
    (r : Handled) : Prop :=
  InStep cfg x r.1 (r.2.1.foldl (follow crypto) y)

theorem write_leaves (h : InStep cfg x s y) (m : Reply) : Leaves crypto cfg y x (s.write m) := by
  unfold Leaves Client.write
  cases s.socket with
  | none => exact h
  | some k =>
    dsimp only
    split
    · exact h
    · have hfollow : follow crypto y (.sent m) = y := by cases y <;> rfl
      show InStep cfg x s (follow crypto y (.sent m))
      rw [hfollow]
      exact h

theorem begin_leaves (scram : Scram) (hbegun : scram.begun = scram)
    (hplus : cfg.mode = .require → scram.mechanism = .scramSha256Plus) :
    Leaves crypto cfg y (some false) (s.begin scram) := by
  have hstart : InStep cfg (some false) { s with scramState := some scram }
      (some (scram, false)) := by
    refine ⟨fun _ => rfl, ?_, ?_⟩
    · rintro b v ⟨⟩
      exact hplus
    · rintro b v ⟨⟩
      exact congrArg some hbegun
  have hfollow : follow crypto y (.begun scram) = some (scram, false) := by cases y <;> rfl
  have h : Leaves crypto cfg _ _ _ :=
    write_leaves hstart (.saslInitial scram.mechanism scram.clientFirst)
  unfold Leaves Client.begin
  rw [List.foldl_cons, hfollow]
  exact h

theorem respond_leaves (h : InStep cfg x s y) (body : List UInt8) :
    Leaves crypto cfg y x (s.respond crypto body) := by
  unfold Client.respond
  split
  · next scram hsocket hscram =>
    split
    · next scram' clientFinal hcontinue =>
      refine write_leaves (s := { s with scramState := some scram' }) ⟨h.agree, h.plus, ?_⟩ _
      intro b v hy
      have hsame := h.same b v hy
      rw [hscram] at hsame
      rw [← hsame]
      exact congrArg some (continue_begun hcontinue)
    · exact h
  · exact h

variable (crypto) in
/-- SASLFinal leads to a verified exchange, unless it throws. -/
theorem verify_leaves (h : InStep cfg x s y) (body : List UInt8) :
    ((s.verify crypto body).2.2 = none →
      Leaves crypto cfg y (x.map fun _ => true) (s.verify crypto body)) ∧
    (s.verify crypto body).1 = s ∧
    ((s.verify crypto body).2.2 ≠ none → (s.verify crypto body).2.1 = []) := by
  unfold Client.verify Leaves
  cases hscram : s.scramState with
  | none => exact ⟨fun he => (nomatch he), rfl, fun _ => rfl⟩
  | some scram =>
    dsimp only
    cases hfinal : final crypto scram (crypto.utf8Text (body.drop 4)) with
    | error e => exact ⟨fun he => (nomatch he), rfl, fun _ => rfl⟩
    | ok u =>
      refine ⟨fun _ => ?_, rfl, fun he => absurd rfl he⟩
      show InStep cfg _ s (follow crypto y (.verified scram _))
      cases y with
      | none => exact ⟨fun hc => by rw [← h.agree hc]; rfl, h.plus, h.same⟩
      | some p =>
        obtain ⟨b, v⟩ := p
        have hsame := h.same b v rfl
        rw [hscram] at hsame
        have hb : scram.begun = b := Option.some.inj hsame
        have hdone : follow crypto (some (b, v)) (.verified scram (crypto.utf8Text (body.drop 4))) =
            some (b, true) := by
          show some (b, decide _) = _
          rw [hfinal]
          simp [hb, Except.isOk, Except.toBool]
        rw [hdone]
        refine ⟨fun hc => by rw [← h.agree hc]; rfl, ?_, ?_⟩
        · rintro b' v' ⟨⟩
          exact h.plus b v rfl
        · rintro b' v' ⟨⟩
          exact h.same b v rfl

theorem ask_sasl {body random : List UInt8} (h : requestCode body = some 10) :
    ask x (.request body random) = some false := if_pos h

theorem ask_final {body random : List UInt8} (h : requestCode body = some 12) :
    ask x (.request body random) = x.map fun _ => true := by
  show (if requestCode body = some 10 then _ else _) = _
  rw [h, if_neg (by decide), if_pos rfl]

theorem ask_other {body random : List UInt8} (h : requestCode body ≠ some 10)
    (h' : requestCode body ≠ some 12) : ask x (.request body random) = x := by
  show (if requestCode body = some 10 then _ else _) = _
  rw [if_neg h, if_neg h']

theorem connection_auth_leaves (h : InStep cfg x s y) (body random : List UInt8) :
    Leaves crypto cfg y (ask x (.request body random))
      (Connection.auth crypto cfg s body random) := by
  unfold Connection.auth
  split
  · next hcode =>
    rw [ask_other (by simp [hcode]) (by simp [hcode])]
    exact h
  · next hcode =>
    rw [ask_other (by simp [hcode]) (by simp [hcode])]
    exact h
  · next hcode =>
    rw [ask_other (by simp [hcode]) (by simp [hcode])]
    exact write_leaves h _
  · next hcode =>
    rw [ask_other (by simp [hcode]) (by simp [hcode])]
    exact write_leaves h _
  · next hcode =>
    rw [ask_sasl hcode]
    dsimp only
    split
    · exact h.failAttempt
    split
    · next scram hscram =>
      refine begin_leaves scram (scramForChannel_begun hscram) fun hmode => ?_
      rw [hmode] at hscram
      exact scramForChannel_require hscram
    · exact h.failAttempt
  · next hcode =>
    rw [ask_other (by simp [hcode]) (by simp [hcode])]
    exact respond_leaves h body
  · next hcode =>
    rw [ask_final hcode]
    obtain ⟨hok, hstate, hthrown⟩ := verify_leaves crypto h body
    split
    · next s' acts heq =>
      rw [heq] at hok
      exact hok rfl
    · next s' acts e heq =>
      rw [heq] at hstate hthrown
      obtain rfl : s' = s := hstate
      obtain rfl : acts = [] := hthrown fun he => (nomatch he)
      exact h.failAttempt
  · exact h.failAttempt

variable (crypto) in
theorem replication_auth_leaves (h : InStep cfg x s y) (body random : List UInt8) :
    ((ReplicationConnection.auth crypto cfg s body random).2.2 = none →
      Leaves crypto cfg y (ask x (.request body random))
        (ReplicationConnection.auth crypto cfg s body random)) ∧
    ((ReplicationConnection.auth crypto cfg s body random).2.2 ≠ none →
      ∃ x', Leaves crypto cfg y x' (ReplicationConnection.auth crypto cfg s body random)) := by
  have hboth : ∀ {x' : Option Bool} {r : Handled}, Leaves crypto cfg y x' r →
      (r.2.2 = none → Leaves crypto cfg y x' r) ∧ (r.2.2 ≠ none → ∃ x', Leaves crypto cfg y x' r) :=
    fun hr => ⟨fun _ => hr, fun _ => ⟨_, hr⟩⟩
  unfold ReplicationConnection.auth
  split
  · next hcode =>
    rw [ask_other (by simp [hcode]) (by simp [hcode])]
    exact hboth h
  · next hcode =>
    rw [ask_other (by simp [hcode]) (by simp [hcode])]
    exact hboth h
  · next hcode =>
    rw [ask_other (by simp [hcode]) (by simp [hcode])]
    exact hboth (write_leaves h _)
  · next hcode =>
    rw [ask_other (by simp [hcode]) (by simp [hcode])]
    exact hboth (write_leaves h _)
  · next hcode =>
    rw [ask_sasl hcode]
    split
    · next scram hscram =>
      refine hboth (begin_leaves scram (scramForChannel_begun hscram) fun hmode => ?_)
      rw [hmode] at hscram
      exact scramForChannel_require hscram
    · exact ⟨fun he => (nomatch he), fun _ => ⟨x, h⟩⟩
  · next hcode =>
    rw [ask_other (by simp [hcode]) (by simp [hcode])]
    exact hboth (respond_leaves h body)
  · next hcode =>
    rw [ask_final hcode]
    obtain ⟨hok, hstate, hthrown⟩ := verify_leaves crypto h body
    refine ⟨hok, fun he => ⟨x, ?_⟩⟩
    unfold Leaves
    rw [hstate, hthrown he]
    exact h
  · exact ⟨fun he => (nomatch he), fun _ => ⟨x, h⟩⟩

theorem connection_settle_inStep {r : Handled} (h : Leaves crypto cfg y x r) :
    InStep cfg x (Connection.settle cfg r).1
      ((Connection.settle cfg r).2.foldl (follow crypto) y) := by
  obtain ⟨s', acts, err⟩ := r
  cases err with
  | none => exact h
  | some e => exact InStep.onSocketDown h

theorem replication_settle_inStep {r : Handled} (h : r.2.2 = none → Leaves crypto cfg y x r)
    (h' : r.2.2 ≠ none → ∃ x', Leaves crypto cfg y x' r) :
    InStep cfg x (ReplicationConnection.settle r).1
      ((ReplicationConnection.settle r).2.foldl (follow crypto) y) := by
  obtain ⟨s', acts, err⟩ := r
  cases err with
  | none => exact h rfl
  | some e =>
    obtain ⟨x', hx'⟩ := h' fun he => (nomatch he)
    exact InStep.over hx' rfl rfl

/-- **One event keeps the client in step.** -/
theorem step_inStep (d : Driver) (h : InStep cfg x s y) (e : Event) :
    InStep cfg (ask x e) (d.step crypto cfg s e).1
      ((d.step crypto cfg s e).2.foldl (follow crypto) y) := by
  have hattempt : follow crypto y .attempt = none := by cases y <;> rfl
  have hready : follow crypto y .ready = y := by cases y <;> rfl
  cases d with
  | connection =>
    cases e with
    | establish =>
      show InStep cfg none _ (follow crypto y .attempt)
      rw [hattempt]
      exact ⟨fun _ => rfl, fun _ _ hy => (nomatch hy), fun _ _ hy => (nomatch hy)⟩
    | dialed cert =>
      show InStep cfg x (if s.connecting then _ else s) y
      refine h.down ?_ ?_ <;> split <;> simp
    | request body random => exact connection_settle_inStep (connection_auth_leaves h body random)
    | readyForQuery =>
      show InStep cfg x (if s.connecting then _ else (s, [])).1 (List.foldl _ _
        (if s.connecting then _ else (s, [])).2)
      split
      · show InStep cfg x _ (follow crypto y .ready)
        rw [hready]
        exact h.over rfl rfl
      · exact h
    | fail => exact h.failAttempt
    | down => exact h.onSocketDown
    | terminate =>
      show InStep cfg x (if s.closed then s else _) y
      refine h.down ?_ ?_ <;> split <;> simp
    | close => exact h.down id rfl
  | replication =>
    cases e with
    | establish =>
      show InStep cfg none _ (follow crypto y .attempt)
      rw [hattempt]
      exact ⟨fun _ => rfl, fun _ _ hy => (nomatch hy), fun _ _ hy => (nomatch hy)⟩
    | dialed cert => exact h.down id rfl
    | request body random =>
      obtain ⟨hok, hthrown⟩ := replication_auth_leaves crypto h body random
      show InStep cfg _ (if s.connecting then _ else (s, [])).1 (List.foldl _ _
        (if s.connecting then _ else (s, [])).2)
      split
      · exact replication_settle_inStep hok hthrown
      · next hc => exact h.over (Bool.eq_false_iff.mpr hc) rfl
    | readyForQuery =>
      show InStep cfg x (if s.connecting then _ else (s, [])).1 (List.foldl _ _
        (if s.connecting then _ else (s, [])).2)
      split
      · show InStep cfg x _ (follow crypto y .ready)
        rw [hready]
        exact h.over rfl rfl
      · exact h
    | fail => exact h.over rfl rfl
    | down => exact h.over rfl rfl
    | terminate => exact h.down id rfl
    | close => exact h.down id rfl

theorem init_inStep : InStep cfg none {} none :=
  ⟨fun _ => rfl, fun _ _ hy => (nomatch hy), fun _ _ hy => (nomatch hy)⟩

/-! ### What is written -/

/-- Neither a password nor the end of the attempt. -/
def Quiet (acts : List Act) : Prop := ∀ a ∈ acts, a ≠ .ready ∧ ∀ p, a ≠ .sent (.password p)

theorem Quiet.each {acts : List Act} (h : Quiet acts) (t : List Act) :
    Each (fun before => Authentic crypto cfg (t ++ before)) acts := by
  intro before a after hacts
  obtain ⟨hready, hpassword⟩ := h a (by simp [hacts])
  cases a with
  | ready => exact absurd rfl hready
  | sent m =>
    cases m with
    | password p => exact absurd rfl (hpassword p)
    | _ => trivial
  | _ => trivial

/-- A request is answered with a password exactly where it asks for one. -/
structure Answers (s : Client) (body : List UInt8) (acts : List Act) : Prop where
  password : requestCode body = some 3 ∨ requestCode body = some 5 → s.writable →
    ∃ p, acts = [.sent (.password p)]
  silent : requestCode body = some 3 ∨ requestCode body = some 5 → ¬s.writable → acts = []
  quiet : ¬(requestCode body = some 3 ∨ requestCode body = some 5) → Quiet acts

theorem Answers.other {body : List UInt8} {acts : List Act}
    (h : ¬(requestCode body = some 3 ∨ requestCode body = some 5)) (h' : Quiet acts) :
    Answers s body acts :=
  ⟨fun hc => absurd hc h, fun hc => absurd hc h, fun _ => h'⟩

theorem quiet_nil : Quiet [] := fun _ ha => absurd ha List.not_mem_nil

theorem attempt_quiet : Quiet [.attempt] := by
  intro a ha
  obtain rfl : a = .attempt := List.mem_singleton.mp ha
  exact ⟨fun he => (nomatch he), fun _ he => (nomatch he)⟩

theorem write_acts (m : Reply) :
    (s.writable → (s.write m).2.1 = [.sent m]) ∧ (¬s.writable → (s.write m).2.1 = []) := by
  unfold Client.write Client.writable
  cases s.socket with
  | none => exact ⟨fun ⟨_, hk, _⟩ => (nomatch hk), fun _ => rfl⟩
  | some k =>
    dsimp only
    constructor
    · rintro ⟨k', hk, hopen⟩
      cases hk
      rw [hopen]
      rfl
    · intro hended
      rw [if_pos]
      rw [← Bool.not_eq_false]
      exact fun hopen => hended ⟨k, rfl, hopen⟩

theorem write_answers {body : List UInt8} {p : JsString}
    (h : requestCode body = some 3 ∨ requestCode body = some 5) :
    Answers s body (s.write (.password p)).2.1 :=
  ⟨fun _ hw => ⟨p, (write_acts _).1 hw⟩, fun _ hw => (write_acts _).2 hw, fun hc => absurd h hc⟩

theorem write_quiet {m : Reply} (h : ∀ p, m ≠ .password p) : Quiet (s.write m).2.1 := by
  intro a ha
  by_cases hw : s.writable
  · rw [(write_acts m).1 hw, List.mem_singleton] at ha
    subst ha
    exact ⟨fun he => (nomatch he), fun p he => h p (Act.sent.inj he)⟩
  · rw [(write_acts m).2 hw] at ha
    cases ha

theorem begin_quiet (scram : Scram) : Quiet (s.begin scram).2.1 := by
  intro a ha
  rcases List.mem_cons.mp ha with rfl | ha
  · exact ⟨fun he => (nomatch he), fun _ he => (nomatch he)⟩
  · exact write_quiet (m := .saslInitial _ _) (fun _ he => (nomatch he)) a ha

theorem respond_quiet (body : List UInt8) : Quiet (s.respond crypto body).2.1 := by
  unfold Client.respond
  split
  · split
    · exact write_quiet fun _ he => (nomatch he)
    · exact quiet_nil
  · exact quiet_nil

variable (crypto s) in
theorem verify_quiet (body : List UInt8) : Quiet (s.verify crypto body).2.1 := by
  unfold Client.verify
  split
  · dsimp only
    split
    · intro a ha
      obtain rfl : a = _ := List.mem_singleton.mp ha
      refine ⟨?_, ?_⟩
      · intro he
        cases he
      · intro p he
        cases he
    · exact quiet_nil
  · exact quiet_nil

theorem connection_answers (body random : List UInt8) :
    Answers s body (Connection.auth crypto cfg s body random).2.1 := by
  unfold Connection.auth
  split
  · next hcode => exact .other (by simp [hcode]) quiet_nil
  · next hcode => exact .other (by simp [hcode]) quiet_nil
  · next hcode => exact write_answers (.inl hcode)
  · next hcode => exact write_answers (.inr hcode)
  · next hcode =>
    refine .other (by simp [hcode]) ?_
    dsimp only
    split
    · exact quiet_nil
    split
    · exact begin_quiet _
    · exact quiet_nil
  · next hcode => exact .other (by simp [hcode]) (respond_quiet body)
  · next hcode =>
    refine .other (by simp [hcode]) ?_
    have hquiet := verify_quiet crypto s body
    split
    · next heq =>
      rw [heq] at hquiet
      exact hquiet
    · next heq =>
      rw [heq] at hquiet
      exact hquiet
  · next h3 h5 _ _ _ hcode =>
    refine .other ?_ quiet_nil
    rw [hcode]
    rintro (h | h)
    · exact h3 (Option.some.inj h)
    · exact h5 (Option.some.inj h)

theorem replication_answers (body random : List UInt8) :
    Answers s body (ReplicationConnection.auth crypto cfg s body random).2.1 := by
  unfold ReplicationConnection.auth
  split
  · next hcode => exact .other (by simp [hcode]) quiet_nil
  · next hcode => exact .other (by simp [hcode]) quiet_nil
  · next hcode => exact write_answers (.inl hcode)
  · next hcode => exact write_answers (.inr hcode)
  · next hcode =>
    refine .other (by simp [hcode]) ?_
    split
    · exact begin_quiet _
    · exact quiet_nil
  · next hcode => exact .other (by simp [hcode]) (respond_quiet body)
  · next hcode => exact .other (by simp [hcode]) (verify_quiet crypto s body)
  · next h3 h5 _ _ _ hcode =>
    refine .other ?_ quiet_nil
    rw [hcode]
    rintro (h | h)
    · exact h3 (Option.some.inj h)
    · exact h5 (Option.some.inj h)

/-- What a request makes the client write is authentic exactly when the request is orderly. -/
theorem Answers.each_iff {body : List UInt8} {acts : List Act} (h : Answers s body acts)
    (t : List Act) : Each (fun before => Authentic crypto cfg (t ++ before)) acts ↔
      (cfg.mode = .require → s.writable →
        requestCode body ≠ some 3 ∧ requestCode body ≠ some 5) := by
  by_cases hcode : requestCode body = some 3 ∨ requestCode body = some 5
  · by_cases hw : s.writable
    · obtain ⟨p, rfl⟩ := h.password hcode hw
      rw [each_cons, and_iff_left each_nil]
      show cfg.mode ≠ .require ↔ _
      exact ⟨fun hmode hr => absurd hr hmode, fun hall hr =>
        hcode.elim (hall hr hw).1 (hall hr hw).2⟩
    · rw [h.silent hcode hw]
      exact iff_of_true each_nil fun _ hw' => absurd hw' hw
  · exact iff_of_true ((h.quiet hcode).each t) fun _ _ => not_or.mp hcode

variable (cfg) in
theorem settle_acts (r : Handled) :
    (Connection.settle cfg r).2 = r.2.1 ∧ (ReplicationConnection.settle r).2 = r.2.1 := by
  obtain ⟨s', acts, err⟩ := r
  cases err <;> exact ⟨rfl, rfl⟩

theorem state_eq (d : Driver) (es : List Event) :
    d.state crypto cfg es = after (d.step crypto cfg) {} es := rfl

/-- What one event makes the client do is authentic exactly when the event is orderly. -/
theorem step_authentic_iff (d : Driver) {es : List Event} {t : List Act}
    (h : InStep cfg (asked es) s (exchange crypto t)) (hs : s = d.state crypto cfg es) (e : Event) :
    Each (fun before => Authentic crypto cfg (t ++ before)) (d.step crypto cfg s e).2 ↔
      Orderly crypto cfg d es e := by
  have hready : (s.connecting = true → Proven cfg (exchange crypto (t ++ []))) ↔
      Orderly crypto cfg d es .readyForQuery := by
    unfold Orderly
    rw [List.append_nil, ← hs]
    refine imp_congr_right fun hc => ?_
    rw [← h.agree hc]
    cases hy : exchange crypto t with
    | none => exact Iff.rfl
    | some p =>
      obtain ⟨b, v⟩ := p
      exact and_iff_left (h.plus b v hy)
  have hquery : Each (fun before => Authentic crypto cfg (t ++ before))
      (if s.connecting then [.ready] else []) ↔ Orderly crypto cfg d es .readyForQuery := by
    rw [← hready]
    split
    · next hc =>
      rw [each_cons, and_iff_left each_nil]
      exact ⟨fun hp _ => hp, fun hp => hp hc⟩
    · next hc => exact iff_of_true each_nil fun hc' => absurd hc' hc
  cases d with
  | connection =>
    cases e with
    | request body random =>
      have hacts : (Driver.step crypto cfg .connection s (.request body random)).2 = _ :=
        (settle_acts cfg (Connection.auth crypto cfg s body random)).1
      rw [hacts, (connection_answers body random).each_iff t, hs]
      exact ⟨fun hall hr _ => hall hr, fun hall hr => hall hr trivial⟩
    | readyForQuery =>
      rw [← hquery]
      show Each _ (if s.connecting then _ else (s, [])).2 ↔ _
      split <;> exact Iff.rfl
    | establish => exact iff_of_true (attempt_quiet.each t) trivial
    | _ => exact iff_of_true each_nil trivial
  | replication =>
    cases e with
    | request body random =>
      unfold Orderly
      rw [← hs]
      show Each _ (if s.connecting then _ else (s, [])).2 ↔ (_ → s.connecting = true → _)
      split
      · next hc =>
        rw [(settle_acts cfg _).2, (replication_answers body random).each_iff t]
        exact ⟨fun hall hr _ => hall hr, fun hall hr => hall hr hc⟩
      · next hc => exact iff_of_true each_nil fun _ hc' => absurd hc' hc
    | readyForQuery =>
      rw [← hquery]
      show Each _ (if s.connecting then _ else (s, [])).2 ↔ _
      split <;> exact Iff.rfl
    | establish => exact iff_of_true (attempt_quiet.each t) trivial
    | _ => exact iff_of_true each_nil trivial

/-- **Authentication.**  What a client does is authentic, in every run and after every event of it,
exactly when the messages are orderly: ReadyForQuery ends an attempt only after a SASLFinal that
follows the last AuthenticationSASL of the attempt, or outside of `require` where none came, and with
`require` no request for a cleartext or MD5 password comes that would be answered. -/
theorem authentic_iff (d : Driver) (es : List Event) :
    Each (Authentic crypto cfg) (d.trace crypto cfg es) ↔ Each (Orderly crypto cfg d) es := by
  refine each_emitted_iff (I := fun l s t => InStep cfg (asked l) s (exchange crypto t)) init_inStep
    ?_ ?_ es
  · intro l s t e h
    have hasked : asked (l ++ [e]) = ask (asked l) e := by simp [asked]
    have hexchange : exchange crypto (t ++ (d.step crypto cfg s e).2) =
        (d.step crypto cfg s e).2.foldl (follow crypto) (exchange crypto t) := by simp [exchange]
    rw [hasked, hexchange]
    exact step_inStep d h e
  · intro l s t e h hs
    exact step_authentic_iff d h hs e

/-! ### A server that skips the exchange -/

/-- Some functions in the place of hashes. -/
def plainCrypto : Crypto where
  md5 := id
  hash _ := id
  hmac _ := id
  pbkdf2 password _ _ := password
  saslprep := id
  base64 bytes := bytes.map fun b => UInt16.ofNat b.toNat
  fromBase64 := latin1
  utf8Text bytes := bytes.map fun b => UInt16.ofNat b.toNat

def loginOf (mode : Mode) : LoginConfig where
  user := ascii "user"
  password := ascii "secret"
  channelBinding := some mode
  reconnect := false

/-- The attempt, and the codes of the requests of a server that goes on to ReadyForQuery. -/
def skipping (requests : List (List UInt8)) : List Event :=
  [.establish, .dialed none] ++ requests.map (.request · []) ++ [.readyForQuery]

def saslRequest : List UInt8 := [0, 0, 0, 10] ++ latin1 (ascii "SCRAM-SHA-256") ++ [0, 0]

/-- The exchange that is begun without a certificate. -/
def unbound : Scram := scram plainCrypto (ascii "secret") none "n" []

theorem not_authentic_ready {cfg : LoginConfig} {acts : List Act}
    (h : ¬Proven cfg (exchange plainCrypto acts)) :
    ¬Each (Authentic plainCrypto cfg) (acts ++ [.ready]) :=
  fun he => h (he acts .ready [] rfl)

/-- AuthenticationOk alone makes both clients ready although binding is required; so do a cleartext
password, which they write, and in the mode `prefer` an exchange that never ends. -/
theorem skipped_exchange :
    ¬Each (Authentic plainCrypto (loginOf .require))
      (Driver.connection.trace plainCrypto (loginOf .require) (skipping [[0, 0, 0, 0]])) ∧
    ¬Each (Authentic plainCrypto (loginOf .require))
      (Driver.replication.trace plainCrypto (loginOf .require) (skipping [[0, 0, 0, 0]])) ∧
    .sent (.password (ascii "secret")) ∈
      Driver.connection.trace plainCrypto (loginOf .require) (skipping [[0, 0, 0, 3]]) ∧
    ¬Each (Authentic plainCrypto (loginOf .prefer))
      (Driver.connection.trace plainCrypto (loginOf .prefer) (skipping [saslRequest])) ∧
    ¬Each (Authentic plainCrypto (loginOf .prefer))
      (Driver.replication.trace plainCrypto (loginOf .prefer) (skipping [saslRequest])) := by
  have hrequire : ¬Proven (loginOf .require) (exchange plainCrypto [.attempt]) := by
    intro h
    exact h rfl
  have hprefer : ∀ s m, ¬Proven (loginOf .prefer)
      (exchange plainCrypto [.attempt, .begun s, .sent m]) := by
    intro s m h
    have hfalse : false = true := h.1
    cases hfalse
  have hconnection : Driver.connection.trace plainCrypto (loginOf .require)
      (skipping [[0, 0, 0, 0]]) = [.attempt, .ready] := by decide +kernel
  have hreplication : Driver.replication.trace plainCrypto (loginOf .require)
      (skipping [[0, 0, 0, 0]]) = [.attempt, .ready] := by decide +kernel
  have hpassword : Driver.connection.trace plainCrypto (loginOf .require)
      (skipping [[0, 0, 0, 3]]) =
        [.attempt, .sent (.password (ascii "secret")), .ready] := by decide +kernel
  have hsasl : Driver.connection.trace plainCrypto (loginOf .prefer) (skipping [saslRequest]) =
      [.attempt, .begun unbound, .sent (.saslInitial unbound.mechanism unbound.clientFirst),
        .ready] := by decide +kernel
  have hsasl' : Driver.replication.trace plainCrypto (loginOf .prefer) (skipping [saslRequest]) =
      [.attempt, .begun unbound, .sent (.saslInitial unbound.mechanism unbound.clientFirst),
        .ready] := by decide +kernel
  refine ⟨?_, ?_, ?_, ?_, ?_⟩
  · rw [hconnection]
    exact not_authentic_ready hrequire
  · rw [hreplication]
    exact not_authentic_ready hrequire
  · rw [hpassword]
    exact List.mem_cons_of_mem _ List.mem_cons_self
  · rw [hsasl]
    exact not_authentic_ready (hprefer _ _)
  · rw [hsasl']
    exact not_authentic_ready (hprefer _ _)

end Minipg.Auth
