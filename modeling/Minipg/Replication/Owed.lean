import Minipg.Replication.Walsender

/-!
# What a replication connection is owed

At most one answer is outstanding.  `Tidy` is a connection with none, `Owed n g` one on which the
rest of the answer to `n` is on its way, up to its ReadyForQuery.  Every message that is taken from
the front is a part of that answer or its end (`Owed.head`), and what the two sides send and read
keeps the answer (`Owed.frame`, `Owed.reads`, `Owed.sends`).
-/

namespace Minipg.Walsender

/-! ### What is outstanding -/

def Frame.isQuery : Frame → Bool
  | .query _ _ => true
  | _ => false

def NoQuery (inbox : List Frame) : Prop := ∀ f ∈ inbox, f.isQuery = false

/-- Nothing but notices. -/
def Quiet (wire : List Message) : Prop := ∀ m ∈ wire, m.kind = .other

/-- What is known of a request: no start, a start, or a start whose CopyBothResponse was read. -/
inductive Stage
  | plain
  | start
  | opened
  deriving DecidableEq, Repr

/-- A notice, or a part of the answer to `n` before its end. -/
def Part (n : Request) (g : Stage) (m : Message) : Prop :=
  m.kind = .other ∨ m.owner = n ∧ m.kind ≠ .readyForQuery ∧ (g = .plain → m.kind ≠ .copyBoth)

/-- What a walsender has sent while it still copies. -/
def CopyPart (n : Request) (m : Message) : Prop :=
  m.kind = .other ∨ m.owner = n ∧ (m.kind = .copyBoth ∨ m.kind = .copyData ∨ m.kind = .copyDone)

structure Tidy (server : Server) (inbox : List Frame) (wire : List Message) : Prop where
  ready : server = .ready
  inbox : NoQuery inbox
  wire : Quiet wire

/-- The stage of a query that was sent. -/
def Stage.of (isStart : Bool) : Stage := if isStart then .start else .plain

inductive Owed (n : Request) (g : Stage) : Server → List Frame → List Message → Prop
  | asked {isStart : Bool} {pre post : List Frame} {wire : List Message} (stage : g = .of isStart)
      (hpre : NoQuery pre) (hpost : NoQuery post) (quiet : Quiet wire) :
      Owed n g .ready (pre ++ .query n isStart :: post) wire
  | replying {inbox : List Frame} {wire : List Message} (hin : NoQuery inbox)
      (parts : ∀ m ∈ wire, Part n g m) : Owed n g (.replying n) inbox wire
  | starting {inbox : List Frame} {wire : List Message} (stage : g = .start) (hin : NoQuery inbox)
      (quiet : Quiet wire) : Owed n g (.starting n) inbox wire
  | copying {inbox : List Frame} {wire : List Message} (stage : g ≠ .plain) (hin : NoQuery inbox)
      (parts : ∀ m ∈ wire, CopyPart n m) : Owed n g (.copying n) inbox wire
  | answered {inbox : List Frame} {pre post : List Message} (hin : NoQuery inbox)
      (parts : ∀ m ∈ pre, Part n g m) (quiet : Quiet post) :
      Owed n g .ready inbox (pre ++ ⟨.readyForQuery, n⟩ :: post)

variable {n : Request} {g : Stage} {server server' : Server} {inbox rest : List Frame}
  {wire wire' : List Message} {m : Message} {f : Frame} {kind : Kind}

theorem NoQuery.append {xs ys : List Frame} (h : NoQuery xs) (g : NoQuery ys) :
    NoQuery (xs ++ ys) := by
  intro f hf
  rcases List.mem_append.mp hf with hf | hf
  · exact h f hf
  · exact g f hf

theorem NoQuery.tail (h : NoQuery (f :: rest)) : NoQuery rest :=
  fun f' hf => h f' (List.mem_cons_of_mem f hf)

theorem noQuery_singleton (h : f.isQuery = false) : NoQuery [f] := by
  intro f' hf
  rw [List.mem_singleton.mp hf]
  exact h

theorem Quiet.part (h : Quiet wire) (hm : m ∈ wire) : Part n g m := .inl (h m hm)

theorem Quiet.snoc (h : Quiet wire) (owner : Request) : Quiet (wire ++ [⟨.other, owner⟩]) := by
  intro m hm
  rcases List.mem_append.mp hm with hm | hm
  · exact h m hm
  · rw [List.mem_singleton.mp hm]

theorem CopyPart.part (h : CopyPart n m) (hg : g ≠ .plain) : Part n g m := by
  rcases h with h | ⟨ho, hk⟩
  · exact .inl h
  · refine .inr ⟨ho, ?_, fun hp => absurd hp hg⟩
    rcases hk with hk | hk | hk <;> rw [hk] <;> decide

theorem part_of_kind (hz : kind ≠ .readyForQuery) (hb : kind ≠ .copyBoth) :
    Part n g ⟨kind, n⟩ :=
  .inr ⟨rfl, hz, fun _ => hb⟩

theorem Part.not_ready (h : Part n g m) : m.kind ≠ .readyForQuery := by
  rcases h with h | ⟨-, h, -⟩
  · rw [h]
    decide
  · exact h

theorem Part.not_copyBoth (h : Part n .plain m) : m.kind ≠ .copyBoth := by
  rcases h with h | ⟨-, -, h⟩
  · rw [h]
    decide
  · exact h rfl

/-- A message at the end of a list of parts. -/
theorem forall_snoc {P : Message → Prop} (h : ∀ m ∈ wire, P m) (hm : P m) :
    ∀ m' ∈ wire ++ [m], P m' := by
  intro m' hm'
  rcases List.mem_append.mp hm' with hm' | hm'
  · exact h m' hm'
  · rw [List.mem_singleton.mp hm']
    exact hm

/-! ### The head of the wire -/

/-- The next message is a notice, a part of the answer, or its end. -/
theorem Owed.head (h : Owed n g server inbox (m :: wire')) :
    (Part n g m ∧ Owed n g server inbox wire') ∨
      m = ⟨.readyForQuery, n⟩ ∧ Tidy server inbox wire' := by
  generalize hw : m :: wire' = wire at h
  cases h with
  | asked stage hpre hpost quiet =>
    subst hw
    exact .inl ⟨quiet.part List.mem_cons_self, .asked stage hpre hpost fun m' hm' =>
      quiet m' (List.mem_cons_of_mem m hm')⟩
  | replying hin parts =>
    subst hw
    exact .inl ⟨parts m List.mem_cons_self, .replying hin fun m' hm' =>
      parts m' (List.mem_cons_of_mem m hm')⟩
  | starting stage hin quiet =>
    subst hw
    exact .inl ⟨quiet.part List.mem_cons_self, .starting stage hin fun m' hm' =>
      quiet m' (List.mem_cons_of_mem m hm')⟩
  | copying stage hin parts =>
    subst hw
    exact .inl ⟨(parts m List.mem_cons_self).part stage, .copying stage hin fun m' hm' =>
      parts m' (List.mem_cons_of_mem m hm')⟩
  | @answered _ pre post hin parts quiet =>
    cases pre with
    | nil =>
      obtain ⟨rfl, rfl⟩ := List.cons.inj hw
      exact .inr ⟨rfl, rfl, hin, quiet⟩
    | cons m' pre =>
      obtain ⟨rfl, rfl⟩ := List.cons.inj hw
      exact .inl ⟨parts m List.mem_cons_self, .answered hin
        (fun m' hm' => parts m' (List.mem_cons_of_mem m hm')) quiet⟩

theorem Tidy.head (h : Tidy server inbox (m :: wire')) : m.kind = .other ∧ Tidy server inbox wire' :=
  ⟨h.wire m List.mem_cons_self, h.ready, h.inbox, fun m' hm' =>
    h.wire m' (List.mem_cons_of_mem m hm')⟩

/-- Once a CopyBothResponse is there, the walsender has started. -/
theorem Owed.opened (h : Owed n .start server inbox wire) (hm : ∃ m ∈ wire, m.kind = .copyBoth) :
    Owed n .opened server inbox wire := by
  have hparts : ∀ {l : List Message}, (∀ m ∈ l, Part n .start m) → ∀ m ∈ l, Part n .opened m := by
    intro l hl m hm
    rcases hl m hm with h | ⟨ho, hk, -⟩
    · exact .inl h
    · exact .inr ⟨ho, hk, fun h => nomatch h⟩
  obtain ⟨w, hw, hkind⟩ := hm
  cases h with
  | asked stage hpre hpost quiet => exact absurd (hkind.symm.trans (quiet w hw)) (by decide)
  | replying hin parts => exact .replying hin (hparts parts)
  | starting stage hin quiet => exact absurd (hkind.symm.trans (quiet w hw)) (by decide)
  | copying stage hin parts => exact .copying (by decide) hin parts
  | answered hin parts quiet => exact .answered hin (hparts parts) quiet

/-! ### The channels -/

theorem Tidy.frame (h : Tidy server inbox wire) (hf : f.isQuery = false) :
    Tidy server (inbox ++ [f]) wire :=
  ⟨h.ready, h.inbox.append (noQuery_singleton hf), h.wire⟩

theorem Owed.frame (h : Owed n g server inbox wire) (hf : f.isQuery = false) :
    Owed n g server (inbox ++ [f]) wire := by
  cases h with
  | asked stage hpre hpost quiet =>
    rw [List.append_assoc, List.cons_append]
    exact .asked stage hpre (hpost.append (noQuery_singleton hf)) quiet
  | replying hin parts => exact .replying (hin.append (noQuery_singleton hf)) parts
  | starting stage hin quiet => exact .starting stage (hin.append (noQuery_singleton hf)) quiet
  | copying stage hin parts => exact .copying stage (hin.append (noQuery_singleton hf)) parts
  | answered hin parts quiet => exact .answered (hin.append (noQuery_singleton hf)) parts quiet

theorem Tidy.query (h : Tidy server inbox wire) (n : Request) (isStart : Bool) :
    Owed n (.of isStart) server (inbox ++ [.query n isStart]) wire := by
  rw [h.ready]
  exact .asked rfl h.inbox (fun f hf => nomatch hf) h.wire

theorem take_ready (hf : f.isQuery = false) : Server.ready.take f = .ready := by
  cases f with
  | query => cases hf
  | copyDone => rfl
  | copyData => rfl

theorem Tidy.reads (h : Tidy server (f :: rest) wire) : Tidy (server.take f) rest wire := by
  have hf := h.inbox f List.mem_cons_self
  rw [h.ready, take_ready hf]
  exact ⟨rfl, h.inbox.tail, h.wire⟩

theorem Owed.reads (h : Owed n g server (f :: rest) wire) (hr : server.reads = true) :
    Owed n g (server.take f) rest wire := by
  generalize hin' : f :: rest = inbox at h
  cases h with
  | @asked isStart pre post _ stage hpre hpost quiet =>
    cases pre with
    | nil =>
      obtain ⟨rfl, rfl⟩ := List.cons.inj hin'
      cases isStart with
      | false => exact .replying hpost fun m hm => quiet.part hm
      | true => exact .starting stage hpost quiet
    | cons f' pre =>
      obtain ⟨rfl, rfl⟩ := List.cons.inj hin'
      rw [take_ready (hpre f List.mem_cons_self)]
      exact .asked stage hpre.tail hpost quiet
  | replying => cases hr
  | starting => cases hr
  | copying stage hin parts =>
    subst hin'
    cases f with
    | query n isStart => exact nomatch hin (.query n isStart) List.mem_cons_self
    | copyDone => exact .replying hin.tail fun m hm => (parts m hm).part stage
    | copyData => exact .copying stage hin.tail parts
  | answered hin parts quiet =>
    subst hin'
    rw [take_ready (hin f List.mem_cons_self)]
    exact .answered hin.tail parts quiet

theorem take_copying (h : server.take f = .copying n) :
    server = .copying n ∧ f ≠ .copyDone := by
  cases server with
  | ready =>
    cases f with
    | query n' isStart => cases isStart <;> cases h
    | copyDone => cases h
    | copyData => cases h
  | copying n' =>
    cases f with
    | query n' isStart => cases h
    | copyDone => cases h
    | copyData => exact ⟨h, by simp⟩
  | replying => cases h
  | starting => cases h
  | confused => cases h

theorem send_ready (h : Server.ready.send kind = some server') :
    kind = .other ∧ server' = .ready := by
  cases kind with
  | other => exact ⟨rfl, (Option.some.inj h).symm⟩
  | _ => cases h

theorem Tidy.sends (h : Tidy server inbox wire) (hs : server.send kind = some server') :
    Tidy server' inbox (wire ++ [⟨kind, server.request⟩]) := by
  rw [h.ready] at hs ⊢
  obtain ⟨rfl, rfl⟩ := send_ready hs
  exact ⟨rfl, h.inbox, h.wire.snoc _⟩

theorem Owed.sends (h : Owed n g server inbox wire) (hs : server.send kind = some server') :
    Owed n g server' inbox (wire ++ [⟨kind, server.request⟩]) := by
  cases h with
  | asked stage hpre hpost quiet =>
    obtain ⟨rfl, rfl⟩ := send_ready hs
    exact .asked stage hpre hpost (quiet.snoc _)
  | replying hin parts =>
    cases kind with
    | copyBoth => cases hs
    | readyForQuery =>
      cases hs
      exact .answered hin parts fun m hm => nomatch hm
    | other =>
      cases hs
      exact .replying hin (forall_snoc parts (.inl rfl))
    | _ =>
      cases hs
      exact .replying hin (forall_snoc parts (part_of_kind (by simp) (by simp)))
  | starting stage hin quiet =>
    subst stage
    cases kind with
    | other =>
      cases hs
      exact .starting rfl hin (quiet.snoc _)
    | copyBoth =>
      cases hs
      exact .copying (by decide) hin
        (forall_snoc (fun m hm => .inl (quiet m hm)) (.inr ⟨rfl, .inl rfl⟩))
    | errorResponse =>
      cases hs
      exact .replying hin
        (forall_snoc (fun m hm => .inl (quiet m hm)) (part_of_kind (by simp) (by simp)))
    | readyForQuery =>
      cases hs
      exact .answered hin (fun m hm => .inl (quiet m hm)) fun m hm => nomatch hm
    | _ => cases hs
  | copying stage hin parts =>
    have hold : ∀ m ∈ wire, Part n g m := fun m hm => (parts m hm).part stage
    cases kind with
    | other =>
      cases hs
      exact .copying stage hin (forall_snoc parts (.inl rfl))
    | copyData =>
      cases hs
      exact .copying stage hin (forall_snoc parts (.inr ⟨rfl, .inr (.inl rfl)⟩))
    | copyDone =>
      cases hs
      exact .copying stage hin (forall_snoc parts (.inr ⟨rfl, .inr (.inr rfl)⟩))
    | errorResponse =>
      cases hs
      exact .replying hin (forall_snoc hold (part_of_kind (by simp) (by simp)))
    | commandComplete =>
      cases hs
      exact .replying hin (forall_snoc hold (part_of_kind (by simp) (by simp)))
    | readyForQuery =>
      cases hs
      exact .answered hin hold fun m hm => nomatch hm
    | _ => cases hs
  | answered hin parts quiet =>
    obtain ⟨rfl, rfl⟩ := send_ready hs
    rw [List.append_assoc, List.cons_append]
    exact .answered hin parts (quiet.snoc _)

theorem send_copying (h : server.send kind = some (.copying n)) :
    server = .copying n ∨ server = .starting n := by
  cases server with
  | copying n' =>
    cases kind <;> cases h
    all_goals exact .inl rfl
  | starting n' =>
    cases kind <;> cases h
    exact .inr rfl
  | _ => cases kind <;> cases h

/-! ### Where the server is -/

theorem Owed.not_starting (h : Owed n .opened server inbox wire) (n' : Request) :
    server ≠ .starting n' := by
  cases h with
  | starting stage => cases stage
  | _ => nofun

theorem Owed.not_confused (h : Owed n g server inbox wire) : server ≠ .confused := by
  cases h <;> nofun

/-- A message that is none of a copy was sent after it. -/
theorem Owed.past_copy (h : Owed n g server inbox wire) (hm : m ∈ wire)
    (hk : m.kind = .commandComplete) (n' : Request) : server ≠ .copying n' := by
  cases h with
  | copying stage hin parts =>
    rcases parts m hm with h | ⟨-, h | h | h⟩ <;> exact absurd (hk.symm.trans h) (by decide)
  | _ => nofun

/-- Nothing but the answer and notices is on its way. -/
theorem Owed.parts (h : Owed n g server inbox wire) :
    ∀ m ∈ wire, m.kind = .other ∨ m.owner = n := by
  intro m hm
  cases h with
  | asked stage hpre hpost quiet => exact .inl (quiet m hm)
  | replying hin parts => exact (parts m hm).imp_right And.left
  | starting stage hin quiet => exact .inl (quiet m hm)
  | copying stage hin parts => exact (parts m hm).imp_right And.left
  | answered hin parts quiet =>
    rcases List.mem_append.mp hm with hm | hm
    · exact (parts m hm).imp_right And.left
    · rcases List.mem_cons.mp hm with rfl | hm
      · exact .inr rfl
      · exact .inl (quiet m hm)

/-- The end of a plain answer is on its way, or the server works on it, or has to read. -/
theorem Owed.plain_ends (h : Owed n .plain server inbox wire) :
    ⟨.readyForQuery, n⟩ ∈ wire ∨ server = .replying n ∨
      server = .ready ∧ .query n false ∈ inbox := by
  cases h with
  | @asked isStart pre post _ stage =>
    cases isStart with
    | false => exact .inr (.inr ⟨rfl, List.mem_append_right _ List.mem_cons_self⟩)
    | true => cases stage
  | replying => exact .inr (.inl rfl)
  | starting stage => cases stage
  | copying stage => exact absurd rfl stage
  | answered => exact .inl (List.mem_append_right _ List.mem_cons_self)

/-- The end of a stream's answer is on its way, or the server works on it, or copies still. -/
theorem Owed.opened_ends (h : Owed n .opened server inbox wire) :
    ⟨.readyForQuery, n⟩ ∈ wire ∨ server = .replying n ∨ server = .copying n := by
  cases h with
  | @asked isStart pre post _ stage => cases isStart <;> cases stage
  | replying => exact .inr (.inl rfl)
  | starting stage => cases stage
  | copying => exact .inr (.inr rfl)
  | answered => exact .inl (List.mem_append_right _ List.mem_cons_self)

end Minipg.Walsender
