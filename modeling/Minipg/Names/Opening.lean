import Minipg.Connection.Rewind
import Minipg.Names.Server

/-!
# What a task writes about its name

`Names` is what the connection knows about named statements: its three records, and the
names and texts of the tasks in flight.  `Opens` lists the ways in which a task joins the
pipeline, with the frames it writes and what the records say afterwards, and
`serialize_opens` shows that serialization takes one of them.
-/

namespace Minipg

structure Names where
  prepared : String → Option PreparedEntry
  stale : String → Bool
  parses : String → Option String
  running : List (Option String × String)

namespace Names

/-- The SQL of the youngest task in flight under a name. -/
def youngest (a : Names) (n : String) : Option String :=
  (a.running.filter fun r => r.1 = some n).getLast?.map (·.2)

/-- One more task in flight. -/
def add (a : Names) (k : Task) : Names := { a with running := a.running ++ [(k.name, k.sql)] }

/-- The Close messages for what a name may still hold, apart from a Parse in flight. -/
def leftovers (a : Names) (n : String) : List Frame :=
  (if (a.prepared n).isSome then [.close n] else []) ++ if a.stale n then [.close n] else []

/-- The Close for another Parse in flight. -/
def superseded (a : Names) (n : String) : List Frame :=
  if (a.parses n).isSome then [.close n] else []

/-- The records of a name once its leftovers are closed. -/
def free (a : Names) (n : String) : Names :=
  { a with prepared := Function.update a.prepared n none, stale := Function.update a.stale n false }

def setParse (a : Names) (n : String) (key : Option String) : Names :=
  { a with parses := Function.update a.parses n key }

/-- The ways to join the pipeline: the records before, the task, its frames, the records after. -/
inductive Opens (a : Names) (k : Task) : List Frame → Names → Prop
  | copy (hk : (k.copySource || k.copyOut) = true) : Opens a k [.query k.sql] (a.add k)
  | unnamed (hn : k.name = none) (oids : List Oid) (bytes : Bytes) (rf : List Nat) :
      Opens a k [.parse "" k.sql oids, .describe "", .bind "" bytes rf, .execute, .sync] (a.add k)
  | reuse {n : String} {e : PreparedEntry} (hn : k.name = some n) (he : a.prepared n = some e)
      (hq : e.sql = k.sql) {e' : PreparedEntry} (hq' : e'.sql = k.sql) (bytes : Bytes)
      (rf : List Nat) : Opens a k [.bind n bytes rf, .execute, .sync]
        ({ a with prepared := Function.update a.prepared n (some e') }.add k)
  | join {n : String} (hn : k.name = some n) (he : ∀ e, a.prepared n = some e → e.sql ≠ k.sql)
      (hm : a.parses n = some (parseKey k.toRequest)) (bytes : Bytes) (rf : List Nat) :
      Opens a k (a.leftovers n ++ [.describe n, .bind n bytes rf, .execute, .sync])
        ((a.free n).add k)
  | parse {n : String} (hn : k.name = some n) (he : ∀ e, a.prepared n = some e → e.sql ≠ k.sql)
      (hm : a.parses n ≠ some (parseKey k.toRequest)) (hz : hasNul k.sql = false)
      (oids : List Oid) (bytes : Bytes) (rf : List Nat) :
      Opens a k (a.leftovers n ++ (a.superseded n ++ [.parse n k.sql oids, .describe n,
        .bind n bytes rf, .execute, .sync])) (((a.free n).setParse n (parseKey k.toRequest)).add k)

end Names

/-- Code that did not throw ran to its end. -/
theorem Attempted.andThen_none {r : Attempted} {f : Conn → Attempted} (h : (r.andThen f).2 = none) :
    ∃ c, r = (c, none) ∧ (f c).2 = none ∧ (r.andThen f).1 = (f c).1 := by
  obtain ⟨c, err⟩ := r
  cases err with
  | none => exact ⟨c, rfl, h, rfl⟩
  | some e => cases h

namespace Conn

variable {cfg : Config}

def names (c : Conn) : Names :=
  ⟨c.prepared, c.staleStatements, c.parseInflight,
    c.inflight.map fun t => ((c.tasks t).name, (c.tasks t).sql)⟩

theorem youngest_eq (c : Conn) (n : String) : c.youngest n = c.names.youngest n := by
  unfold youngest Names.youngest names
  dsimp only
  rw [List.filter_map, List.filter_map, List.getLast?_map, List.getLast?_map, Option.map_map,
    Option.map_map]
  rfl

/-- The records of `c`, whatever the tasks are. -/
theorem names_of_tasks {c c' : Conn} (hp : c'.prepared = c.prepared)
    (hs : c'.staleStatements = c.staleStatements) (hi : c'.parseInflight = c.parseInflight)
    (hf : c'.inflight = c.inflight)
    (ht : ∀ t ∈ c.inflight, (c'.tasks t).name = (c.tasks t).name ∧
      (c'.tasks t).sql = (c.tasks t).sql) : c'.names = c.names := by
  unfold names
  rw [hp, hs, hi, hf]
  congr 1
  exact List.map_congr_left fun t hm => by rw [(ht t hm).1, (ht t hm).2]

/-! ### Serialization takes one of these ways -/

section Frames

variable (c : Conn) (t : TaskId)

/-- The frames of the task so far. -/
def writes (fs : List Frame) : List Packet := c.outbuf ++ fs.map (Packet.mk (.start t))

theorem closeRepointed_opens (n : String) : c.closeRepointed t n = { c with
    outbuf := c.writes t (if (c.prepared n).isSome then [.close n] else [])
    prepared := Function.update c.prepared n none } := by
  unfold closeRepointed
  split
  · rfl
  · rename_i h
    rw [Bool.not_eq_true, Option.isSome_eq_false_iff, Option.isNone_iff_eq_none] at h
    rw [update_eq_iff.mpr h]
    simp [writes]

theorem closeStale_opens (n : String) : c.closeStale t n = { c with
    outbuf := c.writes t (if c.staleStatements n then [.close n] else [])
    staleStatements := Function.update c.staleStatements n false } := by
  unfold closeStale
  split
  · rfl
  · rename_i h
    rw [Bool.not_eq_true] at h
    rw [update_eq_iff.mpr h]
    simp [writes]

theorem closeSuperseded_opens (n : String) : c.closeSuperseded t n = { c with
    outbuf := c.writes t (if (c.parseInflight n).isSome then [.close n] else [])
    parseInflight := Function.update c.parseInflight n none } := by
  unfold closeSuperseded
  split
  · rfl
  · rename_i h
    rw [Bool.not_eq_true, Option.isSome_eq_false_iff, Option.isNone_iff_eq_none] at h
    rw [update_eq_iff.mpr h]
    simp [writes]

/-- Bind, Execute and Sync, and nothing new in the records but a compiled plan. -/
theorem writeBind_opens {entry : Option PreparedEntry} (h : (c.writeBind cfg t entry).2 = none) :
    ∃ bytes rf prepared, (c.writeBind cfg t entry).1 = { c with
      outbuf := c.writes t [.bind ((c.tasks t).name.getD "") bytes rf, .execute, .sync]
      prepared := prepared } ∧
      (prepared = c.prepared ∨ ∃ e plan, entry = some e ∧ prepared =
        Function.update c.prepared ((c.tasks t).name.getD "") (some { e with plan := plan })) := by
  have hp : ∃ prepared, (c.paramPlan cfg (c.tasks t) entry).1 = { c with prepared := prepared } ∧
      (prepared = c.prepared ∨ ∃ e plan, entry = some e ∧ prepared =
        Function.update c.prepared ((c.tasks t).name.getD "") (some { e with plan := plan })) := by
    unfold paramPlan
    split
    · split
      · split
        · exact ⟨_, rfl, .inl rfl⟩
        · exact ⟨_, rfl, .inr ⟨_, _, rfl, rfl⟩⟩
      · exact ⟨_, rfl, .inl rfl⟩
    · exact ⟨_, rfl, .inl rfl⟩
  obtain ⟨prepared, hp, hpr⟩ := hp
  unfold writeBind at h ⊢
  dsimp only at h ⊢
  split at h
  · cases h
  · rename_i bytes hb
    refine ⟨bytes, (c.tasks t).resultFormat.getD [0], prepared, ?_, hpr⟩
    dsimp only
    rw [hp]
    rfl

/-- `r` is `c` after it has written the frames `fs`, with the records of `a`. -/
structure Ends (r : Conn) (fs : List Frame) (a : Names) : Prop where
  outbuf : r.outbuf = c.writes t fs
  prepared : r.prepared = a.prepared
  stale : r.staleStatements = a.stale
  parses : r.parseInflight = a.parses

theorem reuse_opens {n : String} {e : PreparedEntry} (hn : (c.tasks t).name = some n)
    (he : c.prepared n = some e) (hq : e.sql = (c.tasks t).sql)
    (h : ((c.reuseStatement cfg t e).andThen fun c => c.writeBind cfg t (some e)).2 = none) :
    ∃ fs a, Names.Opens c.names (c.tasks t) fs a ∧
      Ends c t ((c.reuseStatement cfg t e).andThen fun c => c.writeBind cfg t (some e)).1 fs a := by
  have hr := @reuseStatement_onlyTasks cfg c t e
  have hname := @reuseStatement_name cfg c t e
  generalize c.reuseStatement cfg t e = r at hr hname h ⊢
  obtain ⟨c', err⟩ := r
  obtain ⟨ts, rfl⟩ := hr
  cases err with
  | some err => cases h
  | none =>
    rw [Attempted.andThen_ok] at h ⊢
    obtain ⟨bytes, rf, prepared, hw, hp⟩ := writeBind_opens _ t h
    dsimp only at hname hp
    rw [hname, hn, Option.getD_some] at hp
    have hopen : ∃ e' : PreparedEntry, e'.sql = (c.tasks t).sql ∧
        prepared = Function.update c.prepared n (some e') := by
      rcases hp with hp | ⟨e', plan, he', hp⟩
      · exact ⟨e, hq, by rw [hp, update_eq_iff.mpr he]⟩
      · obtain rfl := Option.some.inj he'
        exact ⟨{ e with plan := plan }, hq, hp⟩
    obtain ⟨e', hq', hp⟩ := hopen
    refine ⟨_, _, .reuse hn he hq hq' bytes rf, ?_⟩
    rw [hw]
    exact {
      outbuf := by
        dsimp only
        rw [hname, hn]
        rfl
      prepared := hp
      stale := rfl
      parses := rfl }

/-- Parse and Describe, or Describe alone for a Parse that is on its way. -/
theorem openStatement_opens {n : String} (hn : (c.tasks t).name = some n) :
    ∃ ts, (∀ u, (ts u).name = (c.tasks u).name) ∧
      (c.parseInflight n = some (parseKey (c.tasks t).toRequest) ∧
        c.openStatement t = ({ c with
          outbuf := c.writes t ((if c.staleStatements n then [.close n] else []) ++ [.describe n])
          staleStatements := Function.update c.staleStatements n false
          tasks := ts }, none) ∨
      c.parseInflight n ≠ some (parseKey (c.tasks t).toRequest) ∧ hasNul (c.tasks t).sql = false ∧
        c.openStatement t = ({ c with
          outbuf := c.writes t ((if c.staleStatements n then [.close n] else []) ++
            (c.names.superseded n ++
              [.parse n (c.tasks t).sql ((c.tasks t).paramTypes.getD []), .describe n]))
          staleStatements := Function.update c.staleStatements n false
          parseInflight := Function.update c.parseInflight n none
          tasks := ts }, none) ∨
      ∃ r e, c.openStatement t = (r, some e)) := by
  have hup : ∀ u, (Function.update c.tasks t { c.tasks t with cacheName := some n } u).name =
      (c.tasks u).name := by
    intro u
    by_cases hu : u = t
    · subst hu
      rw [Function.update_self]
    · rw [Function.update_of_ne hu]
  refine ⟨_, hup, ?_⟩
  unfold openStatement
  dsimp only
  rw [hn]
  dsimp only
  rw [closeStale_opens]
  dsimp only
  split
  · rename_i hm
    refine .inl ⟨hm, ?_⟩
    simp [Conn.modTask, write, writes]
  · rename_i hm
    rw [closeSuperseded_opens]
    split
    · exact .inr (.inr ⟨_, _, rfl⟩)
    · rename_i hz
      rw [Bool.not_eq_true] at hz
      refine .inr (.inl ⟨hm, hz, ?_⟩)
      simp [Conn.modTask, write, writes, Names.superseded, names]
      rfl

theorem parse_opens {n : String} (hn : (c.tasks t).name = some n)
    (he : ∀ e, c.prepared n = some e → e.sql ≠ (c.tasks t).sql) {parsed : Option String}
    (hpa : parsed = if c.parseInflight n = some (parseKey (c.tasks t).toRequest) then none
      else some n)
    (h : ((((c.closeRepointed t n).openStatement t).andThen fun c =>
      c.writeBind cfg t none).andThen fun d =>
        (d.markParse parsed (parseKey (c.tasks t).toRequest), none)).2 = none) :
    ∃ fs a, Names.Opens c.names (c.tasks t) fs a ∧
      Ends c t ((((c.closeRepointed t n).openStatement t).andThen fun c =>
        c.writeBind cfg t none).andThen fun d =>
          (d.markParse parsed (parseKey (c.tasks t).toRequest), none)).1 fs a := by
  obtain ⟨d, hd, -, hr⟩ := Attempted.andThen_none h
  obtain ⟨c', ho, hw, hw'⟩ := Attempted.andThen_none (congrArg Prod.snd hd)
  have hb : (writeBind cfg c' t none).1 = d := hw'.symm.trans (congrArg Prod.fst hd)
  obtain ⟨bytes, rf, prepared, hbind, hp⟩ := writeBind_opens c' t hw
  have hp : prepared = c'.prepared := by
    rcases hp with hp | ⟨_, _, he, -⟩
    · exact hp
    · cases he
  rw [hb] at hbind
  rw [hr, hbind, hp]
  clear hr hbind hp hb hw' hw hd h
  rw [closeRepointed_opens] at ho
  obtain ⟨ts, hts, hopen⟩ := openStatement_opens { c with
    outbuf := c.writes t (if (c.prepared n).isSome then [.close n] else [])
    prepared := Function.update c.prepared n none } t hn
  dsimp only at hts hopen
  rcases hopen with ⟨hm, ho'⟩ | ⟨hm, hz, ho'⟩ | ⟨r, e, ho'⟩
  · rw [ho'] at ho
    obtain rfl := congrArg Prod.fst ho
    rw [if_pos hm] at hpa
    refine ⟨_, _, .join hn he hm bytes rf, ?_⟩
    rw [hpa]
    exact {
      outbuf := by
        simp [markParse, writes, hts, hn, Names.leftovers, names]
        rfl
      prepared := rfl
      stale := rfl
      parses := rfl }
  · rw [ho'] at ho
    obtain rfl := congrArg Prod.fst ho
    rw [if_neg hm] at hpa
    refine ⟨_, _, .parse hn he hm hz ((c.tasks t).paramTypes.getD []) bytes rf, ?_⟩
    rw [hpa]
    exact {
      outbuf := by
        simp [markParse, setParseInflight, writes, hts, hn, Names.leftovers, Names.superseded, names]
        rfl
      prepared := rfl
      stale := rfl
      parses := by
        simp [markParse, setParseInflight, Names.free, Names.setParse, Names.add, names] }
  · rw [ho'] at ho
    cases congrArg Prod.snd ho

theorem unnamed_opens (hn : (c.tasks t).name = none)
    (h : (((c.openStatement t).andThen fun c => c.writeBind cfg t none).andThen fun d =>
      (d.markParse none (parseKey (c.tasks t).toRequest), none)).2 = none) :
    ∃ fs a, Names.Opens c.names (c.tasks t) fs a ∧
      Ends c t (((c.openStatement t).andThen fun c => c.writeBind cfg t none).andThen fun d =>
        (d.markParse none (parseKey (c.tasks t).toRequest), none)).1 fs a := by
  obtain ⟨d, hd, -, hr⟩ := Attempted.andThen_none h
  obtain ⟨c', ho, hw, hw'⟩ := Attempted.andThen_none (congrArg Prod.snd hd)
  have hb : (writeBind cfg c' t none).1 = d := hw'.symm.trans (congrArg Prod.fst hd)
  obtain ⟨bytes, rf, prepared, hbind, hp⟩ := writeBind_opens c' t hw
  have hp : prepared = c'.prepared := by
    rcases hp with hp | ⟨_, _, he, -⟩
    · exact hp
    · cases he
  rw [hb] at hbind
  rw [hr, hbind, hp]
  clear hr hbind hp hb hw' hw hd h
  unfold openStatement at ho
  dsimp only at ho
  rw [hn] at ho
  dsimp only at ho
  split at ho
  · cases congrArg Prod.snd ho
  · obtain rfl := congrArg Prod.fst ho
    refine ⟨_, _, .unnamed hn ((c.tasks t).paramTypes.getD []) bytes rf, ?_⟩
    exact {
      outbuf := by
        simp [markParse, writes, write, hn]
      prepared := rfl
      stale := rfl
      parses := rfl }

/-- **A task joins the pipeline in one of the ways of `Opens`.** -/
theorem serialize_opens (h : (c.serialize cfg t).2 = none) :
    ∃ fs a, Names.Opens c.names (c.tasks t) fs a ∧ Ends c t (c.serialize cfg t).1 fs a := by
  unfold serialize at h ⊢
  dsimp only at h ⊢
  by_cases hk : ((c.tasks t).copySource || (c.tasks t).copyOut) = true
  · rw [if_pos hk] at h ⊢
    split at h
    · cases h
    · rename_i hz
      rw [if_neg hz]
      exact ⟨_, _, .copy hk, rfl, rfl, rfl, rfl⟩
  rw [if_neg hk] at h ⊢
  by_cases ha : (!(c.tasks t).params.isArray) = true
  · rw [if_pos ha] at h
    cases h
  rw [if_neg ha] at h ⊢
  cases hr : c.reusable (c.tasks t) with
  | some e =>
    rw [hr] at h
    dsimp only at h ⊢
    obtain ⟨hp, hq⟩ := reusable_entry hr
    cases hn : (c.tasks t).name with
    | none =>
      rw [hn] at hp
      cases hp
    | some n =>
      rw [hn, Option.bind_some] at hp
      exact reuse_opens c t hn hp hq h
  | none =>
    rw [hr] at h
    dsimp only at h ⊢
    cases hn : (c.tasks t).name with
    | none =>
      rw [hn] at h
      exact unnamed_opens c t hn h
    | some n =>
      rw [hn] at h
      refine parse_opens c t hn (fun e he hq => ?_) ?_ h
      · simp [reusable, hn, he, hq] at hr
      · rw [Option.filter_some]
        by_cases hm : c.parseInflight n = some (parseKey (c.tasks t).toRequest)
        · simp [hm]
        · simp [hm]

end Frames

end Conn

end Minipg
