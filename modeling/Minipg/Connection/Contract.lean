import Minipg.Connection.Attribution

/-!
# What the pipeline owes its callers

Every reply belongs to the oldest task in flight, a task that is neither queued nor in
flight has been settled, and a closed connection holds no task.  `contract` proves this of
every run in which no handler throws after the death of the socket was noticed.

Without the condition it fails.  The connection of `deadChunk` retires, which closes its
socket and starts a reconnect loop, while a BackendKeyData of the same chunk is still to be
read; it is too short, so its handler throws and a second loop starts.  The loop that comes
second gives up when the first has connected again and a query is in flight.
-/

namespace Minipg

namespace Conn

variable {cfg : Config}

/-- The contract of the pipelined connection. -/
structure Contract (cfg : Config) (c : Conn) : Prop where
  attributed : Attributed cfg c
  once : (c.inflight ++ c.queue).Nodup
  settled : ∀ t, t < c.nextTask → t ∉ c.queue → t ∉ c.inflight → ∃ o, (c.tasks t).outcome = some o
  first : ∀ t o e, t < c.nextTask → (c.tasks t).outcome = some o → c.enabled e = true →
    ((c.step cfg e).tasks t).outcome = some o
  closed : c.state = .closed → c.queue = [] ∧ c.inflight = []

/-- What holds in a run without throws after the death of the socket. -/
theorem reachable_live {ok : Conn → Event → Prop} {c : Conn}
    (h : (machine cfg).Reach ok (· = {}) c) (hh : ∀ m ∈ c.history, m.isClaimed = true) :
    Linked c.link ∧ Live (c, none) ∧ Attributed cfg c := by
  have hI := reachable_invariant
    (I := fun p => (∀ m ∈ p.1.history, m.isClaimed = true) →
      Linked p.1.link ∧ Live p ∧ Attributed cfg p.1) ?_ ?_ ?_ h
  · exact hI hh
  · exact fun _ => ⟨.fresh (.inl rfl), live_new, attributed_new⟩
  · intro c e hd hb ih hh
    obtain ⟨hl, hv, ha⟩ := ih fun m hmem => hh m ((dialing_history hd).subset hmem)
    exact ⟨dialing_linked hd hl, dialing_live hd hl hb hv, dialing_attributed hd ha⟩
  · rintro l ⟨c, h⟩ ⟨c', h'⟩ hb hm ih hh
    obtain ⟨hl, hv, ha⟩ := ih fun m hmem => hh m (hm.history.subset hmem)
    exact ⟨hm.linked hl hh, hm.live hl hb hv, hm.attributed hl hb hv ha⟩

/-- **The pipeline keeps its contract** in every run whose throws all come while the death of the
socket has not been noticed. -/
theorem contract {c : Conn} (h : Reachable cfg c) (hh : ∀ m ∈ c.history, m.isClaimed = true) :
    Contract cfg c := by
  have hb := reachable_basic h
  obtain ⟨-, hv, ha⟩ := reachable_live h hh
  exact {
    attributed := ha
    once := hb.nodup
    settled := fun t ht hq hi => by
      have hp : t ∉ places (c, none) := by
        simp only [places, Option.map_none, Option.toList_none, List.nil_append, List.mem_append]
        rintro (h | h)
        · exact hi h
        · exact hq h
      have hs := hv.settled t ht hp
      exact ⟨_, List.head?_eq_some_head hs⟩
    first := fun t o e ht ho he => by
      exact ((step_persists hb he).task ht).outcome ho
    closed := fun hc => by
      have hr : c.state ≠ .ready := by
        rw [hc]
        simp
      exact ⟨hv.closed hc, (hv.quiet hr).1⟩ }

/-! ### Where it fails -/

/-- A connection that tries once to reconnect. -/
def oneRetry : Config := { reconnect := true, maxRetries := some 1 }

def idleReady : BackendMsg := .readyForQuery (some 'I')

/-- A query is answered on a fresh connection. -/
def oneQuery : List Event :=
  [.connect, .dialed 0, .sockRoom 100, .data 0 [idleReady], .submit { sql := "SELECT 1" } none,
    .flush, .data 0 [.commandComplete "SELECT 1", idleReady]]

theorem contract_oneQuery : Contract oneRetry (run oneRetry oneQuery) :=
  contract (reachable_run (by decide)) (by decide)

/-- A chunk that takes the connection down twice. -/
def deadChunk : List Event :=
  [.connect, .dialed 0, .sockRoom 100, .data 0 [.backendKeyData (some ⟨1, 1⟩), idleReady],
    .submit { sql := "SELECT pg_sleep(9)", timeout := some 5 } none, .flush, .timeout 0,
    .cancelAnswered 0 false, .data 0 [.commandComplete "SELECT 1", idleReady, .backendKeyData none],
    .loopWake 0, .dialed 1, .data 1 [idleReady], .submit { sql := "SELECT 2" } none, .flush,
    .loopWake 1, .dialFailed 2 (jsError "connect ECONNREFUSED"), .loopCatch 1]

theorem contract_fails : ¬ ∀ c, Reachable oneRetry c → Contract oneRetry c := by
  intro h
  have hc := (h (run oneRetry deadChunk) (reachable_run (by decide))).closed (by decide)
  exact absurd hc.2 (by decide)

end Conn

end Minipg
