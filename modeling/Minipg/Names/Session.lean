import Minipg.Names.Opening

/-!
# The records and the server

What the records say must fit what the server will know once it has read everything that
was written and is still on its way, however it reads it.  `Session` states this with
`Pending.wp`, for any relation `Good` between records and statements and any demand `ok` on
the state in which a frame is read.  `Tracks` is what the two have to satisfy: a fresh
session fits fresh records, a task that joins the pipeline takes a good state to a good
one, and so does each note the connection takes from a reply.

The records of a connection that is not ready are empty but for stale marks, and the
sockets that no task has written to still have a fresh session.
-/

namespace Minipg

/-- Frames that neither use nor change a statement. -/
def Frame.isIdle : Frame → Bool
  | .sync | .copyData _ | .copyDone | .copyFail _ | .terminate | .startup | .password => true
  | _ => false

/-- What the connection's records are based on: no throw after the death of the socket was
noticed, none that leaves a record behind, and no Describe answered while a younger task
in flight has another statement of that name. -/
def Moment.isTracked : Moment → Bool
  | .start k entry isStale marker hasThrown => !hasThrown || keepsRecords k entry isStale marker
  | .described k youngest => youngest == some k.sql
  | m => m.isClaimed

namespace Names

/-- Nothing is known to exist, and nothing is in flight. -/
structure Fresh (a : Names) : Prop where
  prepared : a.prepared = fun _ => none
  parses : a.parses = fun _ => none
  running : a.running = []

/-- What the connection notes while it reads replies. -/
inductive Notes (a : Names) : Names → Prop
  | described {n q : String} (hy : a.youngest n = some q) (fields : List Field)
      (oids : Option (List Oid)) : Notes a { a with
        prepared := Function.update a.prepared n (some { sql := q, fields := fields, paramOids := oids })
        parses := Function.update a.parses n none }
  | popped {r : Option String × String} {rest : List (Option String × String)}
      (hr : a.running = r :: rest) : Notes a { a with running := rest }
  | failed (n : String) {parses : String → Option String}
      (hp : parses = a.parses ∨ parses = Function.update a.parses n none) :
      Notes a { a with stale := Function.update a.stale n true, parses := parses }
  | invalid (n : String) : Notes a { a with
      prepared := Function.update a.prepared n none, stale := Function.update a.stale n true }
  | memo {n : String} {e : PreparedEntry} (he : a.prepared n = some e)
      (plan : Option (Option (List Oid))) : Notes a { a with
        prepared := Function.update a.prepared n (some { e with plan := plan }) }

/-- The moment at which a task is about to be serialized. -/
def moment (a : Names) (k : Task) (hasThrown : Bool) : Moment :=
  .start k (k.name.bind a.prepared) (k.name.any a.stale) (k.name.bind a.parses) hasThrown

end Names

/-- A name is not empty, and a COPY has none. -/
def Task.IsNamed (k : Task) : Prop :=
  k.name ≠ some "" ∧ ((k.copySource || k.copyOut) = true → k.name = none)

/-- The SQL of the task a packet belongs to. -/
def Conn.ownerSql (c : Conn) (p : Packet) : Option String :=
  match p.origin with
  | .start t => some (c.tasks t).sql
  | _ => none

/-- A demand on the reading of frames, for the frames of `c`. -/
def Conn.demand (c : Conn) (ok : Option String → Statements → Frame → Prop) :
    Statements → Packet → Prop :=
  fun st p => ok (c.ownerSql p) st p.frame

/-- A state between two cycles that fits the records. -/
def Fits (Good : Names → Statements → Prop) (a : Names) (st : Statements) : Prop :=
  st.isSkipping = false ∧ Good a st

/-- What `Session` needs to know about `ok` and `Good`; `asks` is the condition on the moments. -/
structure Tracks (asks : Moment → Bool) (ok : Option String → Statements → Frame → Prop)
    (Good : Names → Statements → Prop) : Prop where
  fresh : ∀ a, a.Fresh → Good a {}
  idle : ∀ q st f, f.isIdle = true → ok q st f
  notes : ∀ a a' st, Names.Notes a a' → Good a st → Good a' st
  opens : ∀ a a' k fs t st, Names.Opens a k fs a' → k.IsNamed →
    asks (a.moment k false) = true → Fits Good a st →
    Pending.wp Statements.serve (fun st p => ok (some k.sql) st p.frame)
      (fs.map (Packet.mk (.start t))) (Fits Good a') st

/-- A connection that may still become ready without losing a socket knows no statement. -/
def Conn.IsBlank (c : Conn) : Prop :=
  c.state ≠ .ready → (c.state = .closed → c.connectCalled = false) →
    c.prepared = (fun _ => none) ∧ c.parseInflight = fun _ => none

/-- A socket that has not been given out, or on which the handshake runs. -/
def Conn.IsRaw (c : Conn) (s : SocketId) : Prop :=
  c.nextSocket ≤ s ∨ c.connecting = true ∧ c.socket = some s

open Pending in
/-- **The records fit the servers**, now and after everything on its way has been read. -/
structure Session (ok : Option String → Statements → Frame → Prop)
    (Good : Names → Statements → Prop) (v : Served) : Prop where
  named : ∀ t < v.conn.nextTask, (v.conn.tasks t).IsNamed
  owned : ∀ s, ∀ p ∈ v.conn.sent s, ∀ t, p.origin = .start t → t < v.conn.nextTask
  batch : ∀ p ∈ v.conn.outbuf, ∀ t, p.origin = .start t → t < v.conn.nextTask
  taken : ∀ s, v.taken s ≤ (v.conn.sent s).length
  every : ∀ s, wp Statements.serve (v.conn.demand ok) (v.unread s) (fun _ => True) (v.session s)
  live : v.conn.state = .ready → ∀ s, v.conn.socket = some s → v.conn.destroyed s = false →
    wp Statements.serve (v.conn.demand ok) (v.unread s) (fun st => st.isSkipping = false ∧
      wp Statements.serve (v.conn.demand ok) v.conn.outbuf (Fits Good v.conn.names) st)
      (v.session s)
  raw : ∀ s, v.conn.IsRaw s → v.session s = {} ∧ ∀ p ∈ v.conn.sent s, p.frame.isIdle = true
  blank : v.conn.IsBlank

/-! ### Idle frames -/

theorem serve_idle {st : Statements} {p : Packet} (h : p.frame.isIdle = true)
    (hs : st.isSkipping = false) (x : Chance) : st.serve x p = st := by
  unfold Statements.serve
  unfold Frame.isIdle at h
  split at h
  · rename_i hf
    rw [hf]
    dsimp only
    rw [← hs]
  · rename_i hf
    rw [hf]
  · rename_i hf
    rw [hf]
  · rename_i hf
    rw [hf]
  · rename_i hf
    rw [hf]
  · rename_i hf
    rw [hf]
  · rename_i hf
    rw [hf]
  · cases h

/-! ### The frame rules -/

/-- Idle frames of no task. -/
def AreIdle (ps : List Packet) : Prop :=
  ∀ p ∈ ps, p.frame.isIdle = true ∧ ∀ t, p.origin ≠ .start t

theorem AreIdle.nil : AreIdle [] := by simp [AreIdle]

theorem Task.Persists.isNamed {k k' : Task} (h : k.Persists k') (hk : k.IsNamed) : k'.IsNamed := by
  unfold Task.IsNamed at hk ⊢
  rw [h.name, h.copySource, h.copyOut]
  exact hk

section Frames

open Pending

variable {ok : Option String → Statements → Frame → Prop} {Good : Names → Statements → Prop}
  {asks : Moment → Bool} {c c' : Conn} {tk : SocketId → Nat} {ss : SocketId → Statements}

/-- A task keeps its SQL, so the demand on its frames stays what it was. -/
theorem demand_persists (hp : Conn.Persists c c') {ps : List Packet}
    {Q : Statements → Prop} {st : Statements}
    (ho : ∀ p ∈ ps, ∀ t, p.origin = .start t → t < c.nextTask)
    (h : wp Statements.serve (c.demand ok) ps Q st) :
    wp Statements.serve (c'.demand ok) ps Q st := by
  refine wp_mono_ok h fun p hmem st hok => ?_
  unfold Conn.demand Conn.ownerSql at hok ⊢
  cases hor : p.origin with
  | start t =>
    rw [hor] at hok
    dsimp only at hok ⊢
    rwa [(hp.task (ho p hmem t hor)).sql]
  | pump | abort | link =>
    rw [hor] at hok
    exact hok

theorem AreIdle.demand (ht : Tracks asks ok Good) {ps : List Packet} (h : AreIdle ps) (c : Conn) :
    ∀ p ∈ ps, ∀ st, c.demand ok st p := fun p hp st => ht.idle _ st _ (h p hp).1

/-- Idle frames leave a session that does not skip as it is. -/
theorem AreIdle.wp (ht : Tracks asks ok Good) {ps : List Packet} (h : AreIdle ps) (c : Conn)
    {Q : Statements → Prop} {st : Statements} (hs : st.isSkipping = false) (hQ : Q st) :
    wp Statements.serve (c.demand ok) ps Q st :=
  wp_idle (fun p hmem => h.demand ht c p hmem st) (fun p hmem x => serve_idle (h p hmem).1 hs x) hQ

/-- What is on its way after more was written. -/
theorem unread_append (htk : ∀ s, tk s ≤ (c.sent s).length) {s : SocketId} {ps : List Packet}
    (hs : c'.sent s = c.sent s ++ ps) :
    Served.unread ⟨c', tk, ss⟩ s = Served.unread ⟨c, tk, ss⟩ s ++ ps := by
  unfold Served.unread
  dsimp only
  rw [hs, List.drop_append_of_le_length (htk s)]

/-- **The first frame rule of `Session`**: nothing but idle frames is written. -/
theorem Session.frame (ht : Tracks asks ok Good) (hv : Session ok Good ⟨c, tk, ss⟩)
    (hp : Conn.Persists c c')
    (hnew : ∀ t < c'.nextTask, c.nextTask ≤ t → (c'.tasks t).IsNamed)
    (hsent : ∀ s, ∃ ps, c'.sent s = c.sent s ++ ps ∧ AreIdle ps)
    (hout : c'.outbuf = c.outbuf ∨ c'.outbuf = [])
    (hraw : ∀ s, c'.IsRaw s → c.IsRaw s)
    (hblank : c'.IsBlank)
    (hlive : c'.state = .ready → ∀ s, c'.socket = some s → c'.destroyed s = false →
      wp Statements.serve (c.demand ok) (Served.unread ⟨c, tk, ss⟩ s) (fun st =>
        st.isSkipping = false ∧ wp Statements.serve (c'.demand ok) c'.outbuf
          (Fits Good c'.names) st) (ss s)) :
    Session ok Good ⟨c', tk, ss⟩ := by
  have howned : ∀ s, ∀ p ∈ Served.unread ⟨c, tk, ss⟩ s, ∀ t, p.origin = .start t →
      t < c.nextTask := fun s p hmem => hv.owned s p (List.mem_of_mem_drop hmem)
  exact {
    named := fun t hlt => by
      by_cases hle : c.nextTask ≤ t
      · exact hnew t hlt hle
      · have hlt' := Nat.lt_of_not_le hle
        exact (hp.task hlt').isNamed (hv.named t hlt')
    owned := fun s p hmem t ho => by
      obtain ⟨ps, hs, hi⟩ := hsent s
      dsimp only at hmem ⊢
      rw [hs, List.mem_append] at hmem
      rcases hmem with hmem | hmem
      · exact Nat.lt_of_lt_of_le (hv.owned s p hmem t ho) hp.1
      · exact absurd ho ((hi p hmem).2 t)
    batch := fun p hmem t ho => by
      dsimp only at hmem ⊢
      rcases hout with hout | hout
      · rw [hout] at hmem
        exact Nat.lt_of_lt_of_le (hv.batch p hmem t ho) hp.1
      · rw [hout] at hmem
        cases hmem
    taken := fun s => by
      obtain ⟨ps, hs, -⟩ := hsent s
      dsimp only
      rw [hs, List.length_append]
      exact Nat.le_add_right_of_le (hv.taken s)
    every := fun s => by
      obtain ⟨ps, hs, hi⟩ := hsent s
      rw [unread_append hv.taken hs, wp_append]
      refine wp_mono (demand_persists hp (howned s) (hv.every s)) fun st _ => ?_
      exact wp_true (hi.demand ht c')
    live := fun hr s hso hd => by
      obtain ⟨ps, hs, hi⟩ := hsent s
      rw [unread_append hv.taken hs, wp_append]
      refine wp_mono (demand_persists hp (howned s) (hlive hr s hso hd)) fun st hst => ?_
      exact hi.wp ht c' hst.1 hst
    raw := fun s hs => by
      obtain ⟨hr, hidle⟩ := hv.raw s (hraw s hs)
      refine ⟨hr, fun p hmem => ?_⟩
      obtain ⟨ps, hse, hi⟩ := hsent s
      dsimp only at hmem
      rw [hse, List.mem_append] at hmem
      rcases hmem with hmem | hmem
      · exact hidle p hmem
      · exact (hi p hmem).1
    blank := hblank }

/-- Where the connection stands, as far as the sessions are concerned. -/
def Conn.stand (c : Conn) : ConnState × Bool × Bool × Option SocketId × SocketId ×
    (SocketId → Bool) × List Packet :=
  (c.state, c.connecting, c.connectCalled, c.socket, c.nextSocket, c.destroyed, c.outbuf)

/-- **The second frame rule of `Session`**: the connection stands where it stood, and takes at
most one note. -/
theorem Session.keep (ht : Tracks asks ok Good) (hv : Session ok Good ⟨c, tk, ss⟩)
    (hp : Conn.Persists c c') (hn : c'.nextTask = c.nextTask)
    (hsent : ∀ s, ∃ ps, c'.sent s = c.sent s ++ ps ∧ AreIdle ps)
    (hs : c'.stand = c.stand) (hnames : c'.names = c.names ∨ Names.Notes c.names c'.names)
    (hblank : c.state ≠ .ready → c.prepared = (fun _ => none) →
      c.parseInflight = (fun _ => none) →
      c'.prepared = (fun _ => none) ∧ c'.parseInflight = fun _ => none) :
    Session ok Good ⟨c', tk, ss⟩ := by
  unfold Conn.stand at hs
  simp only [Prod.mk.injEq] at hs
  obtain ⟨hst, hco, hca, hso, hns, hde, hou⟩ := hs
  have hgood : ∀ st, Fits Good c.names st → Fits Good c'.names st := by
    intro st hst
    rcases hnames with hnames | hnames
    · rwa [hnames]
    · exact ⟨hst.1, ht.notes _ _ st hnames hst.2⟩
  refine hv.frame ht hp (fun t hlt hle => ?_) hsent (.inl hou) (fun s hr => ?_) ?_ ?_
  · rw [hn] at hlt
    exact absurd hle (Nat.not_le_of_lt hlt)
  · unfold Conn.IsRaw at hr ⊢
    rwa [hns, hco, hso] at hr
  · intro hr hc
    rw [hst] at hr hc
    rw [hca] at hc
    obtain ⟨h1, h2⟩ := hv.blank hr hc
    exact hblank hr h1 h2
  · intro hr s hsock hd
    rw [hst] at hr
    rw [hso] at hsock
    rw [hde] at hd
    refine wp_mono (hv.live hr s hsock hd) fun st h => ⟨h.1, ?_⟩
    rw [hou]
    exact wp_mono (demand_persists hp hv.batch h.2) hgood

end Frames

end Minipg
