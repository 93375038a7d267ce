import Minipg.Connection.Serializing
import Minipg.Connection.Settling
import Minipg.Connection.Step

/-!
# What a callback is made of

Between the first effect of a callback and its end, every function of the connection makes
the same few kinds of moves: a task is created, queued, started, answered, settled; a batch
is flushed; a cancel record changes; an attempt begins or ends.  `Move` lists them once,
with the guards under which the code makes them, and the theorems `…_moves` take the
functions apart, up to `step_moves` for a whole callback.  An invariant is then checked
once per kind of move, not once per function.

A task that has left the queue or the pipeline and is not settled yet is in the hands of
the running callback: a `Point` is a connection together with that task and the state the
connection had when the callback took it.  A move that handles a backend message carries
it as its label, so that the messages along a path are those the callback has consumed.
-/

namespace Minipg

namespace Conn

/-- A connection in the middle of a callback. -/
abbrev Point := Conn × Option (TaskId × ConnState)

/-- `query` and its like have built a task. -/
def create (cfg : Config) (c : Conn) (r : Request) : Conn :=
  { c with
    nextTask := c.nextTask + 1
    tasks := Function.update c.tasks c.nextTask { toRequest := { r with name := keptName cfg r } } }

/-- The caller is settled before its query ends. -/
def quit (c : Conn) (t : TaskId) (e : JsError) : Conn :=
  (c.modTask t fun k => { k with settled := true, timer := false }).rejectTask t e

/-- A ReadyForQuery has ended an attempt. -/
def attemptDone (c : Conn) (status : Char) : Conn :=
  { c with
    txStatus := status
    connecting := false
    everConnected := true
    state := .ready }.clearConnTimer.resolveAttempt

/-- A message that changes nothing but the records of the head. -/
def listen (cfg : Config) (c : Conn) (m : BackendMsg) : Conn :=
  (c.receive m).hearHead cfg m

/-- A CopyInResponse has reached its task. -/
def noteCopyIn (cfg : Config) (c : Conn) (t : TaskId) : Conn :=
  (c.listen cfg .copyInResponse).note (.copyIn ((c.receive .copyInResponse).tasks t)
    (c.receive .copyInResponse).isPassed)

/-- A new pump, before it looks at its task. -/
def openPump (c : Conn) (t : TaskId) : Conn :=
  { c with
    pumps := Function.update c.pumps c.nextPump { task := t, phase := .awaiting }
    nextPump := c.nextPump + 1 }.modTask t fun k => { k with stopCopy := some c.nextPump }

/-- The frames a pump writes. -/
def isCopyFrame : Frame → Bool
  | .copyData _ | .copyDone | .copyFail _ => true
  | _ => false

/-- The moves that no invariant looks at: the flush gate, timers, the cancel key. -/
inductive GateMove (c : Conn) : Conn → Prop
  | gate (b : Bool) (ws : List SocketId) :
      GateMove c { c with writeBackedUp := b, drainWaiters := ws }
  | schedule (b : Bool) : GateMove c { c with flushScheduled := b }
  | room (n : Nat) : GateMove c { c with sockRoom := n }
  | backendKey (k : BackendKey) : GateMove c { c with backendKey := some k }
  | timers (dials armed : List DialId) (hd : dials.Sublist c.dials) :
      GateMove c { c with dials := dials, armedTimers := armed }

/-- The moves on the cancel records, with the task in the callback's hands. -/
inductive CancelMove (cfg : Config) (c : Conn) : Option (TaskId × ConnState) → Conn → Prop
  | sendCancel {h} (t : TaskId) (hi : c.current = some t) (hs : (c.tasks t).settled = true)
      (hk : (c.tasks t).copySource = false) : CancelMove cfg c h (c.sendCancelRequest cfg t)
  | answered {h} (p : CancelId) (b : Bool) (hc : (c.cancels p).isConfirmed = false)
      (hf : (c.cancels p).hasFailed = false) : CancelMove cfg c h (c.setCancel p fun r => r.answer b)
  | cancelTimer {h} (p : CancelId) (b : Bool) :
      CancelMove cfg c h (c.setCancel p fun r => { r with timer := b })
  | noteSuspects {t st} (p : CancelId) (hp : c.pendingCancel = some p)
      (hh : (c.cancels p).head = some t) : CancelMove cfg c (some (t, st)) (c.noteSuspects t p)
  | checkLate {t st} (late : LateCancel) (hl : c.lateCancel = some late) (ht : t ∈ late.suspects) :
      CancelMove cfg c (some (t, st)) (c.checkLateCancel t late)
  | clearStopped {t st} (p : CancelId) (hp : c.pendingCancel = some p)
      (hh : (c.cancels p).head = none) (he : (c.tasks t).errorCode = some "57014")
      (hr : c.isRetiring = false) : CancelMove cfg c (some (t, st)) c.clearPendingCancel
  | clearConfirmed {h} (p : CancelId) (hp : c.pendingCancel = some p)
      (hh : (c.cancels p).head = none) (hc : (c.cancels p).isConfirmed = true)
      (hr : c.isRetiring = false) : CancelMove cfg c h c.clearPendingCancel
  | retiring {h} : CancelMove cfg c h { c with isRetiring := true }

/-- The moves of COPY pumps. -/
inductive PumpMove (c : Conn) : Conn → Prop
  | pumpAwait (p : PumpId) (hp : (c.pumps p).phase = .awaiting ∨ (c.pumps p).phase = .resumed false)
      (ht : (c.tasks (c.pumps p).task).settled = false) :
      PumpMove c (c.modPump p fun q => { q with phase := .awaiting })
  | pumpTake (p : PumpId) (b : Bytes) (hp : (c.pumps p).phase = .awaiting) :
      PumpMove c (c.modPump p fun q => { q with pending := q.pending ++ b })
  | pumpFlush (p : PumpId) (fs : List Frame) (isLast : Bool)
      (hp : (c.pumps p).phase = .awaiting ∨ (c.pumps p).phase = .resumed false)
      (hf : ∀ f ∈ fs, isCopyFrame f = true) : PumpMove c (c.pumpFlush p fs isLast)
  | pumpEnd (p : PumpId) (hp : (c.pumps p).phase = .resumed true) :
      PumpMove c (c.modPump p fun q => { q with phase := .ended })
  | pumpCatch (p : PumpId) (e : JsError)
      (hp : (c.pumps p).phase = .awaiting ∨ ∃ e, (c.pumps p).phase = .failed e) :
      PumpMove c (c.pumpCatch p e)
  | drained (s : SocketId) : PumpMove c (c.wakePumps s .resumed)
  | undrained (s : SocketId) (hs : c.destroyed s = true) :
      PumpMove c (c.wakePumps s fun _ => .failed socketClosedError)

/-- The ends of attempts, and the deaths of sockets. -/
inductive LinkMove (cfg : Config) (c : Conn) : Conn → Prop
  | destroy (s : SocketId) (hs : s < c.nextSocket ∨ c.socket = some s) :
      LinkMove cfg c (c.destroy s)
  | connectCatch : LinkMove cfg c c.connectCatch
  | loopCatch (l : LoopId) : LinkMove cfg c (c.loopCatch cfg l)
  | endConn : LinkMove cfg c c.endConn
  | failAttempt (e : JsError) : LinkMove cfg c (c.failAttempt e)
  | retire (e : JsError) (hs : c.state = .ready) (hr : c.isRetiring = true)
      (hi : c.inflight = []) : LinkMove cfg c (c.onSocketDown cfg e)
  | socketDown (e : JsError) (s : SocketId) (hs : c.socket = some s) :
      LinkMove cfg c (c.onSocketDown cfg e)
  | takeDown (e : JsError) : LinkMove cfg c (c.takeDown cfg e)

/-- One move.  `P` says which steps of COPY pumps count as moves. -/
inductive Move (cfg : Config) (P : Conn → Conn → Prop) :
    Option BackendMsg → Point → Point → Prop
  | gate {c c' h} (hm : GateMove c c') : Move cfg P none (c, h) (c', h)
  | cancel {c c' h} (hm : CancelMove cfg c h c') : Move cfg P none (c, h) (c', h)
  | pump {c c' h} (hm : P c c') : Move cfg P none (c, h) (c', h)
  | link {c c' h} (hm : LinkMove cfg c c') : Move cfg P none (c, h) (c', h)
  -- sockets
  | emit {c h} (s : SocketId) (f : Frame) (hs : c.socket = some s)
      (hf : f = .terminate ∨ f = .password) : Move cfg P none (c, h) (c.writeTo s [⟨.link, f⟩], h)
  -- tasks
  | settles {c c' h} (hs : Settles c c') : Move cfg P none (c, h) (c', h)
  | refuse {c h} (r : Request) (hc : c.state = .closed) :
      Move cfg P none (c, h) ((c.create cfg r).settle c.nextTask (.rejected closedError), h)
  | create {c} (r : Request) (hc : c.state ≠ .closed) :
      Move cfg P none (c, none) (c.create cfg r, some (c.nextTask, c.state))
  | quit {c h} (t : TaskId) (e : JsError) : Move cfg P none (c, h) (c.quit t e, h)
  | discard {c h} (t : TaskId) :
      Move cfg P none (c, h) (c.modTask t fun k => { k with cancelled := true }, h)
  | release {c t st} (hs : (c.tasks t).settlements ≠ []) :
      Move cfg P none (c, some (t, st)) (c, none)
  | dequeue {c h} (t : TaskId) (hs : (c.tasks t).settlements ≠ []) :
      Move cfg P none (c, h) ({ c with queue := c.queue.erase t }, h)
  | enqueue {c t st} (hs : c.state = st) (hh : (c.tasks t).heard = []) :
      Move cfg P none (c, some (t, st)) ({ c with queue := c.queue ++ [t] }, none)
  | requeue {c t st} (hs : c.state = st) (hr : c.retries (c.tasks t) = true) :
      Move cfg P none (c, some (t, st)) (c.requeue t, none)
  | finish {c t st} (hr : c.retries (c.tasks t) = false) :
      Move cfg P none (c, some (t, st)) ((c.clearTimers t).settleFinished t, none)
  -- dispatching
  | start {c h} (t : TaskId) (rest : List TaskId) (hq : c.queue = t :: rest)
      (hs : c.state = .ready) (hr : c.isRetiring = false) (hd : c.canDispatch cfg t = true) :
      Move cfg P none (c, h) ({ c with queue := rest }.startTask cfg t, h)
  | flush {c h} : Move cfg P none (c, h) (c.flushWrites, h)
  -- replies
  | listen {c h} (m : BackendMsg) (hz : ∀ s, m ≠ .readyForQuery s) (hg : m ≠ .copyInResponse) :
      Move cfg P (some m) (c, h) (c.listen cfg m, h)
  | miss {c h} (m : BackendMsg) (hz : ∀ s, m ≠ .readyForQuery s) (hg : m ≠ .copyInResponse) :
      Move cfg P (some m) (c, h) (c.receive m, h)
  | cache {c h} : Move cfg P none (c, h) (c.cacheCurrent, h)
  | attemptDone {c} (status : Option Char) (hc : c.connecting = true) :
      Move cfg P (some (.readyForQuery status)) (c, none)
        ((c.receive (.readyForQuery status)).attemptDone (status.getD 'I'), none)
  | idle {c} (status : Option Char) (hc : c.connecting = false) (hi : c.inflight = []) :
      Move cfg P (some (.readyForQuery status)) (c, none)
        ({ c.receive (.readyForQuery status) with txStatus := status.getD 'I' }, none)
  | pop {c} (status : Option Char) (t : TaskId) (rest : List TaskId) (hc : c.connecting = false)
      (hi : c.inflight = t :: rest) :
      Move cfg P (some (.readyForQuery status)) (c, none)
        ({ c.receive (.readyForQuery status) with txStatus := status.getD 'I' }.popHead t rest,
          some (t, c.state))
  | copyNone {c h} (hi : c.inflight = []) :
      Move cfg P (some .copyInResponse) (c, h) ((c.receive .copyInResponse).writeSocket
        [⟨.abort none, .copyFail copyFromReason⟩, ⟨.abort none, .sync⟩], h)
  | copyPlain {c h} (t : TaskId) (hi : c.current = some t) (hk : (c.tasks t).copySource = false) :
      Move cfg P (some .copyInResponse) (c, h) ((c.noteCopyIn cfg t).writeSocket
        [⟨.abort (some t), .copyFail copyFromReason⟩, ⟨.abort (some t), .sync⟩], h)
  | copyPump {c h} (t : TaskId) (hi : c.current = some t) (hk : (c.tasks t).copySource = true) :
      Move cfg P (some .copyInResponse) (c, h) ((c.noteCopyIn cfg t).openPump t, h)
  | copyBoth {c h} : Move cfg P (some .copyBothResponse) (c, h)
      ((c.listen cfg .copyBothResponse).writeSocket
        [⟨.abort c.current, .copyFail copyBothReason⟩, ⟨.abort c.current, .sync⟩], h)
  | parseFailed {c t st} : Move cfg P none (c, some (t, st)) (c.noteParseFailure t, some (t, st))
  | invalidated {c t st} : Move cfg P none (c, some (t, st)) (c.dropInvalidated t, some (t, st))

/-- Any number of moves, with the messages they consume. -/
inductive Moves (cfg : Config) (P : Conn → Conn → Prop) :
    List BackendMsg → Point → Point → Prop
  | refl {p} : Moves cfg P [] p p
  | tail {ms l p q r} : Moves cfg P ms p q → Move cfg P l q r → Moves cfg P (ms ++ l.toList) p r

variable {cfg : Config} {P : Conn → Conn → Prop}

theorem Move.moves {l : Option BackendMsg} {p q : Point} (h : Move cfg P l p q) :
    Moves cfg P l.toList p q := by
  have := Moves.tail .refl h
  rwa [List.nil_append] at this

theorem Moves.trans {ms ms' : List BackendMsg} {p q r : Point} (h : Moves cfg P ms p q)
    (g : Moves cfg P ms' q r) : Moves cfg P (ms ++ ms') p r := by
  induction g with
  | refl => rwa [List.append_nil]
  | tail _ hm ih =>
    rw [← List.append_assoc]
    exact (ih h).tail hm

/-- One more move that consumes nothing. -/
theorem Moves.then {ms : List BackendMsg} {p q r : Point} (h : Moves cfg P ms p q)
    (g : Move cfg P none q r) : Moves cfg P ms p r := by
  have := h.tail g
  rwa [Option.toList_none, List.append_nil] at this

/-- Silent moves after others. -/
theorem Moves.silent {ms : List BackendMsg} {p q r : Point} (h : Moves cfg P ms p q)
    (g : Moves cfg P [] q r) : Moves cfg P ms p r := by
  have := h.trans g
  rwa [List.append_nil] at this

/-- A path stays one when more steps of pumps count as moves. -/
theorem Moves.mono {P' : Conn → Conn → Prop} (hP : ∀ c c', P c c' → P' c c')
    {ms : List BackendMsg} {p q : Point} (h : Moves cfg P ms p q) : Moves cfg P' ms p q := by
  induction h with
  | refl => exact .refl
  | tail _ hm ih =>
    refine ih.tail ?_
    cases hm with
    | pump hm => exact .pump (hP _ _ hm)
    | gate hm => exact .gate hm
    | cancel hm => exact .cancel hm
    | link hm => exact .link hm
    | emit s f hs hf => exact .emit s f hs hf
    | settles hs => exact .settles hs
    | refuse r hc => exact .refuse r hc
    | create r hc => exact .create r hc
    | quit t e => exact .quit t e
    | discard t => exact .discard t
    | release hs => exact .release hs
    | dequeue t hs => exact .dequeue t hs
    | enqueue hs hh => exact .enqueue hs hh
    | requeue hs hr => exact .requeue hs hr
    | finish hr => exact .finish hr
    | start t rest hq hs hr hd => exact .start t rest hq hs hr hd
    | flush => exact .flush
    | listen m hz hg => exact .listen m hz hg
    | miss m hz hg => exact .miss m hz hg
    | cache => exact .cache
    | attemptDone status hc => exact .attemptDone status hc
    | idle status hc hi => exact .idle status hc hi
    | pop status t rest hc hi => exact .pop status t rest hc hi
    | copyNone hi => exact .copyNone hi
    | copyPlain t hi hk => exact .copyPlain t hi hk
    | copyPump t hi hk => exact .copyPump t hi hk
    | copyBoth => exact .copyBoth
    | parseFailed => exact .parseFailed
    | invalidated => exact .invalidated

/-- **The invariant rule for moves.** -/
theorem Moves.keep {I : Point → Prop} (hI : ∀ l p q, Move cfg P l p q → I p → I q)
    {ms : List BackendMsg} {p q : Point} (h : Moves cfg P ms p q) (hp : I p) : I q := by
  induction h with
  | refl => exact hp
  | tail _ hm ih => exact hI _ _ _ hm (ih hp)

theorem Settles.moves {c c' : Conn} {h} (hs : Settles c c') : Moves cfg P [] (c, h) (c', h) :=
  (Move.settles hs).moves

/-! ### Dispatching -/

section Dispatching

variable {h : Option (TaskId × ConnState)}

/-- A dispatched task leaves the state and the retiring mark alone. -/
theorem startTask_control (c : Conn) (t : TaskId) :
    (c.startTask cfg t).state = c.state ∧ (c.startTask cfg t).isRetiring = c.isRetiring := by
  obtain ⟨_, _, _, _, _, _, _, _, hw⟩ := serialize_writes cfg c t
  cases hs : (c.serialize cfg t).2 with
  | none =>
    rw [startTask_of_ok hs, hw]
    exact ⟨rfl, rfl⟩
  | some e =>
    rw [startTask_of_throw hs, hw]
    obtain ⟨_, _, hr, -, -⟩ := rejectTask_settles _ t e
    rw [hr]
    exact ⟨rfl, rfl⟩

theorem writeTo_control (c : Conn) (s : SocketId) (ps : List Packet) :
    (c.writeTo s ps).state = c.state ∧ (c.writeTo s ps).isRetiring = c.isRetiring := by
  unfold writeTo
  split
  · exact ⟨rfl, rfl⟩
  · exact ⟨rfl, rfl⟩

theorem flushWrites_control (c : Conn) :
    c.flushWrites.state = c.state ∧ c.flushWrites.isRetiring = c.isRetiring := by
  unfold flushWrites
  split
  · exact ⟨rfl, rfl⟩
  · dsimp only
    split
    · exact ⟨rfl, rfl⟩
    · unfold writeChecked
      split
      · split
        · exact ⟨rfl, rfl⟩
        · exact ⟨rfl, rfl⟩
      · split
        · exact writeTo_control _ _ _
        · exact writeTo_control _ _ _

theorem dispatchLoop_moves (n : Nat) : ∀ c : Conn, c.state = .ready → c.isRetiring = false →
    Moves cfg P [] (c, h) (dispatchLoop cfg n c, h) := by
  induction n with
  | zero => exact fun c _ _ => .refl
  | succ n ih =>
    intro c hs hr
    unfold dispatchLoop
    split
    · exact .refl
    · rename_i t rest hq
      split
      · rename_i hd
        obtain ⟨hs', hr'⟩ := @startTask_control cfg { c with queue := rest } t
        have hstart : Moves cfg P [] (c, h) ({ c with queue := rest }.startTask cfg t, h) :=
          (Move.start t rest hq hs hr hd).moves
        unfold dispatchOne
        dsimp only
        split
        · obtain ⟨hs'', hr''⟩ := flushWrites_control ({ c with queue := rest }.startTask cfg t)
          exact (hstart.then .flush).silent
            (ih _ (hs''.trans (hs'.trans hs)) (hr''.trans (hr'.trans hr)))
        · exact hstart.silent (ih _ (hs'.trans hs) (hr'.trans hr))
      · exact .refl

theorem flushSoon_moves (c : Conn) : Moves cfg P [] (c, h) (c.flushSoon cfg, h) := by
  unfold flushSoon
  split
  · exact (Move.gate (.schedule true)).moves
  · exact Move.flush.moves

theorem writeSocket_moves (c : Conn) {f : Frame} (hf : f = .terminate ∨ f = .password) :
    Moves cfg P [] (c, h) (c.writeSocket [⟨.link, f⟩], h) := by
  unfold writeSocket
  split
  · exact .refl
  · rename_i s hs
    exact (Move.emit s f hs hf).moves

theorem writeSocket_fields (c : Conn) (ps : List Packet) :
    (c.writeSocket ps).state = c.state ∧ (c.writeSocket ps).isRetiring = c.isRetiring ∧
      (c.writeSocket ps).inflight = c.inflight := by
  unfold writeSocket
  split
  · exact ⟨rfl, rfl, rfl⟩
  · unfold writeTo
    split
    · exact ⟨rfl, rfl, rfl⟩
    · exact ⟨rfl, rfl, rfl⟩

theorem processQueue_moves (c : Conn) : Moves cfg P [] (c, h) (c.processQueue cfg, h) := by
  unfold processQueue
  split
  · exact .refl
  · rename_i hs
    rw [not_not] at hs
    split
    · rename_i hr
      split
      · rename_i hi
        rw [List.isEmpty_iff] at hi
        obtain ⟨hs', hr', hi'⟩ := writeSocket_fields c [⟨.link, .terminate⟩]
        exact (writeSocket_moves c (.inl rfl)).then
          (.link (.retire _ (hs'.trans hs) (hr'.trans hr) (hi'.trans hi)))
      · exact .refl
    · rename_i hr
      rw [Bool.not_eq_true] at hr
      exact (dispatchLoop_moves _ c hs hr).silent (flushSoon_moves _)

theorem resumeOnce_moves (c : Conn) : Moves cfg P [] (c, h) (c.resumeOnce cfg, h) := by
  unfold resumeOnce
  split
  · exact (Move.gate (.gate false c.drainWaiters)).moves.silent (processQueue_moves _)
  · exact .refl

theorem resumeWrites_moves (c : Conn) (s : SocketId) :
    Moves cfg P [] (c, h) (c.resumeWrites cfg s, h) := by
  have hloop : ∀ n c, Moves cfg P [] (c, h) ((resumeOnce cfg)^[n] c, h) := by
    intro n
    induction n with
    | zero => exact fun c => .refl
    | succ n ih => exact fun c => (resumeOnce_moves c).silent (ih _)
  exact (Move.gate (.gate c.writeBackedUp _)).moves.silent (hloop _ _)

theorem stopWrites_moves (c : Conn) (s : SocketId) :
    Moves cfg P [] (c, h) (c.stopWrites s, h) := by
  unfold stopWrites
  split
  · exact (Move.gate (.gate false _)).moves
  · exact .refl

end Dispatching

/-! ### Submitting and canceling -/

section Canceling

variable {h : Option (TaskId × ConnState)}

theorem quit_task (c : Conn) (t : TaskId) (e : JsError) :
    (((c.quit t e).tasks t).settled = true) ∧
      ((c.quit t e).tasks t).settlements = (c.tasks t).settlements ++ [.rejected e] := by
  simp [quit, rejectTask, settle, Conn.modTask]

/-- A queued task that is canceled leaves the queue before its promise is called; the order of
the two does not show. -/
theorem quit_queued (c : Conn) (t : TaskId) (e : JsError) :
    (({ c.modTask t fun k => { k with settled := true, timer := false } with
        queue := c.queue.erase t }.modTask t fun k => { k with listening := false }).rejectTask t e) =
      { c.quit t e with queue := (c.quit t e).queue.erase t }.modTask t fun k =>
        { k with listening := false } := by
  simp only [quit, rejectTask, stopCopy, settle, Conn.modTask, Function.update_self]
  split
  · simp
  · simp

theorem cancelTask_moves (c : Conn) (t : TaskId) (e : JsError) :
    Moves cfg P [] (c, h) (c.cancelTask cfg t e, h) := by
  have hquit : Moves cfg P [] (c, h) (c.quit t e, h) := (Move.quit t e).moves
  obtain ⟨hs, hse⟩ := quit_task c t e
  unfold cancelTask
  dsimp only
  split
  · exact .refl
  · split
    · change Moves cfg P [] (c, h) (ite ((c.quit t e).current = some t) _ (c.quit t e), h)
      split
      · rename_i hi
        have hgrace : ∀ c' : Conn, Settles c' (c'.modTask t fun k => { k with graceTimer := true }) :=
          fun c' => Settles.modTask
            ⟨(c'.tasks t).timer, true, (c'.tasks t).listening, [], by simp⟩
        split
        · exact hquit.silent (hgrace _).moves
        · rename_i hk
          rw [Bool.not_eq_true] at hk
          exact (hquit.then (.cancel (.sendCancel t hi hs hk))).silent (hgrace _).moves
      · exact hquit
    · have heq := quit_queued c t e
      dsimp only [Conn.modTask] at heq ⊢
      rw [heq]
      exact (hquit.then (.dequeue t (by rw [hse]; simp))).silent (stopListening_settles _ t).moves

theorem submit_moves (c : Conn) (r : Request) (aborted : Option JsError) :
    Moves cfg P [] (c, none) (c.submit cfg r aborted, none) := by
  unfold submit
  dsimp only
  change Moves cfg P [] (c, none) (ite ((c.create cfg r).state = .closed) _ _, none)
  split
  · rename_i hc
    exact (Move.refuse (c := c) r hc).moves
  · rename_i hc
    have hc : c.state ≠ .closed := hc
    have hnew : Moves cfg P [] (c, none) (c.create cfg r, some (c.nextTask, c.state)) :=
      (Move.create r hc).moves
    split
    · rename_i reason
      have hq : ((c.create cfg r).modTask c.nextTask fun k => { k with settled := true }).rejectTask
          c.nextTask reason = (c.create cfg r).quit c.nextTask reason := by
        simp [quit, rejectTask, stopCopy, settle, Conn.modTask, create]
      change Moves cfg P [] (c, none) (((c.create cfg r).modTask c.nextTask _).rejectTask _ _, none)
      rw [hq]
      refine (hnew.then (.quit c.nextTask reason)).then (.release ?_)
      rw [(quit_task _ _ _).2]
      simp
    · have hl : Settles (c.create cfg r) ((c.create cfg r).modTask c.nextTask fun k =>
          { k with listening := r.signal }) :=
        Settles.modTask ⟨((c.create cfg r).tasks c.nextTask).timer,
          ((c.create cfg r).tasks c.nextTask).graceTimer, r.signal, [], by simp⟩
      refine ((hnew.then (.settles hl)).then (.enqueue rfl ?_)).silent (processQueue_moves _)
      simp [Conn.modTask, create]

theorem resolveCanceledHead_moves {c : Conn} {p : CancelId} (hp : c.pendingCancel = some p)
    (hh : (c.cancels p).head = none) : Moves cfg P [] (c, h) (c.resolveCanceledHead cfg p, h) := by
  unfold resolveCanceledHead
  split
  · exact .refl
  · rename_i hr
    rw [Bool.not_eq_true] at hr
    split
    · exact (Move.cancel .retiring).moves.silent (processQueue_moves _)
    · split
      · rename_i hc
        exact (Move.cancel (.clearConfirmed p hp hh hc hr)).moves.silent (processQueue_moves _)
      · exact .refl

theorem noteSuspects_cancel (c : Conn) (t : TaskId) {p : CancelId} (hp : c.pendingCancel = some p) :
    (c.noteSuspects t p).pendingCancel = some p ∧ ((c.noteSuspects t p).cancels p).head = none ∧
      (c.noteSuspects t p).tasks = c.tasks := by
  unfold noteSuspects
  dsimp only
  split
  · exact ⟨hp, by simp [setCancel], rfl⟩
  · exact ⟨hp, by simp [setCancel], rfl⟩

theorem endCanceledHead_moves {c : Conn} {t : TaskId} {st : ConnState} {p : CancelId}
    (hp : c.pendingCancel = some p) (hh : (c.cancels p).head = some t) :
    Moves cfg P [] (c, some (t, st)) (c.endCanceledHead cfg t p, some (t, st)) := by
  have hnote : Moves cfg P [] (c, some (t, st)) (c.noteSuspects t p, some (t, st)) :=
    (Move.cancel (.noteSuspects p hp hh)).moves
  obtain ⟨hp', hh', -⟩ := noteSuspects_cancel c t hp
  unfold endCanceledHead
  dsimp only
  split
  · exact hnote
  · rename_i hr
    rw [Bool.not_eq_true] at hr
    split
    · rename_i he
      exact hnote.then (.cancel (.clearStopped p hp' hh' he hr))
    · have hres := hnote.silent (resolveCanceledHead_moves (h := some (t, st)) hp' hh')
      split
      · exact hres.then (.cancel (.cancelTimer p true))
      · exact hres

theorem noteLate_moves (c : Conn) (t : TaskId) (st : ConnState) :
    Moves cfg P [] (c, some (t, st)) (c.noteLate t, some (t, st)) := by
  unfold noteLate
  split
  · rename_i late hl
    split
    · rename_i ht
      exact (Move.cancel (.checkLate late hl ht)).moves
    · exact .refl
  · exact .refl

theorem noteEnded_moves (c : Conn) (t : TaskId) (st : ConnState) :
    Moves cfg P [] (c, some (t, st)) (c.noteEnded cfg t, some (t, st)) := by
  have hlate := @noteLate_moves cfg P c t st
  unfold noteEnded
  dsimp only
  split
  · rename_i p hp
    split
    · rename_i hh
      exact hlate.silent (endCanceledHead_moves hp hh)
    · exact hlate
  · exact hlate

theorem cancelAnswered_moves {c : Conn} {p : CancelId} (b : Bool)
    (hc : (c.cancels p).isConfirmed = false) (hf : (c.cancels p).hasFailed = false) :
    Moves cfg P [] (c, h) (c.cancelAnswered cfg p b, h) := by
  have ha : Moves cfg P [] (c, h) (c.setCancel p fun r => r.answer b, h) :=
    (Move.cancel (.answered p b hc hf)).moves
  unfold cancelAnswered
  dsimp only
  split
  · rename_i hp
    exact ha.silent (resolveCanceledHead_moves hp.1 hp.2)
  · exact ha

theorem cancelTimeout_moves (c : Conn) (p : CancelId) :
    Moves cfg P [] (c, h) (c.cancelTimeout cfg p, h) := by
  have ht : Moves cfg P [] (c, h) (c.setCancel p fun r => { r with timer := false }, h) :=
    (Move.cancel (.cancelTimer p false)).moves
  unfold cancelTimeout
  dsimp only
  split
  · exact (ht.then (.cancel .retiring)).silent (processQueue_moves _)
  · exact ht

end Canceling

/-! ### Pumps -/

section Pumps

variable {h : Option (TaskId × ConnState)}

theorem pumpFinish_moves {c : Conn} {p : PumpId}
    (hp : (c.pumps p).phase = .awaiting ∨ (c.pumps p).phase = .resumed false) :
    Moves cfg PumpMove [] (c, h) (c.pumpFinish p, h) := by
  unfold pumpFinish
  dsimp only
  split
  · exact (Move.pump (.pumpFlush p _ true hp (by simp [isCopyFrame]))).moves
  · split
    · exact (Move.pump (.pumpFlush p _ true hp (by simp [isCopyFrame]))).moves
    · exact (Move.pump (.pumpFlush p _ true hp (by simp [isCopyFrame]))).moves

theorem pumpLoop_moves {c : Conn} {p : PumpId}
    (hp : (c.pumps p).phase = .awaiting ∨ (c.pumps p).phase = .resumed false) :
    Moves cfg PumpMove [] (c, h) (c.pumpLoop p, h) := by
  unfold pumpLoop
  split
  · exact pumpFinish_moves hp
  · rename_i ht
    rw [Bool.not_eq_true] at ht
    exact (Move.pump (.pumpAwait p hp ht)).moves

theorem pumpNext_moves {c : Conn} {p : PumpId} (step : SourceStep)
    (hp : (c.pumps p).phase = .awaiting) : Moves cfg PumpMove [] (c, h) (c.pumpNext p step, h) := by
  unfold pumpNext
  dsimp only
  split
  · exact (Move.pump (.pumpCatch p _ (.inl hp))).moves
  · exact pumpFinish_moves (.inl hp)
  · exact pumpFinish_moves (.inl hp)
  · rename_i b
    split
    · exact pumpFinish_moves (.inl hp)
    · split
      · exact pumpLoop_moves (.inl hp)
      · have htake : Moves cfg PumpMove [] (c, h)
            (c.modPump p fun q => { q with pending := q.pending ++ b }, h) :=
          (Move.pump (.pumpTake p b hp)).moves
        have hp' : ((c.modPump p fun q => { q with pending := q.pending ++ b }).pumps p).phase =
            .awaiting := by simp [modPump, hp]
        split
        · split
          · exact htake.then (.pump (.pumpCatch p _ (.inl hp')))
          · exact htake.then (.pump (.pumpFlush p _ false (.inl hp') (by simp [isCopyFrame])))
        · exact htake.silent (pumpLoop_moves (.inl hp'))

theorem pumpResume_moves (c : Conn) (p : PumpId) : Moves cfg PumpMove [] (c, h) (c.pumpResume p, h) := by
  unfold pumpResume
  split
  · rename_i hp
    exact pumpLoop_moves (.inr hp)
  · rename_i hp
    exact (Move.pump (.pumpEnd p hp)).moves
  · rename_i e hp
    exact (Move.pump (.pumpCatch p e (.inr ⟨e, hp⟩))).moves
  · exact .refl

end Pumps

end Conn

end Minipg
