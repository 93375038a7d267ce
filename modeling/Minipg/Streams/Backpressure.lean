import Minipg.Streams.Relay

/-!
# Backpressure does not deadlock

`Relaying` is what a run keeps in which no call of `next()` overtakes another: the calls that have
an answer, then at most one that waits.  A paused relay holds something back, so that the next call
takes from the buffer, and with a positive half of `highWaterMark` the call that takes the last row
resumes the socket.
-/

namespace Minipg.Streams

open Js (Double)

variable {α ω : Type}

/-- What the answers delivered. -/
def deliveries (parts : α → List ω) (answered : List (Promise α)) : List ω :=
  answered.flatMap (Promise.delivered parts)

@[simp] theorem deliveries_concat (parts : α → List ω) (answered : List (Promise α))
    (p : Promise α) :
    deliveries parts (answered ++ [p]) = deliveries parts answered ++ p.delivered parts := by
  simp [deliveries]

theorem Promise.delivered_isLast (parts : α → List ω) {p : Promise α} (h : p.isLast = true) :
    p.delivered parts = [] := by
  cases p with
  | pending => rfl
  | value v => cases h
  | finished => rfl
  | rejected e => rfl

/-- The stream has ended. -/
def Relay.IsClosed (s : Relay α) : Prop := s.done = true ∨ s.err ≠ none

/-- The answers that say so: nothing is delivered after them, and all that arrived before a
`finished` that no `return()` brought about. -/
structure Lasts (parts : α → List ω) (answered : List (Promise α)) (s : Relay α) : Prop where
  closed : ∀ c ∈ answered, c.isLast = true → s.buf = [] ∧ s.IsClosed
  finished : .finished ∈ answered → s.done = true
  after : ∀ before c after, answered = before ++ c :: after → c.isLast = true →
    deliveries parts after = []
  before : s.cancelled = false → ∀ before after, answered = before ++ .finished :: after →
    deliveries parts before = s.arrived.flatMap parts

/-- The invariant; `answered` are the calls that have an answer, and `drains` holds if a relay is
paused. -/
structure Relaying (parts : α → List ω) (drains : Prop) (answered : List (Promise α))
    (s : Relay α) : Prop where
  slot : s.waiting = none ∧ s.calls = answered ∨
    s.waiting = some answered.length ∧ s.calls = answered ++ [.pending] ∧ s.buf = [] ∧
      s.err = none ∧ s.isOver = false
  answers : .pending ∉ answered
  socket : s.isSocketPaused = true → s.paused = true
  filled : s.paused = true → s.buf ≠ [] ∧ drains
  settled : s.settled = true → s.err ≠ none
  isOver : s.isOver = true → s.IsClosed
  closed : s.IsClosed → s.isOver = true ∨ s.settled = true ∨ s.cancelled = true
  ended : s.done = true → s.cancelled = false → s.isOver = true
  order : deliveries parts answered ++ s.buf.flatMap parts <+: s.arrived.flatMap parts
  whole : s.cancelled = false → s.done = true ∨ s.error = none ∧ s.settled = false →
    deliveries parts answered ++ s.buf.flatMap parts = s.arrived.flatMap parts
  lasts : Lasts parts answered s

namespace Relaying

variable {parts : α → List ω} {drains : Prop} {answered : List (Promise α)} {s : Relay α}

theorem start (h : IsStart s) : Relaying parts drains [] s := by
  have hlasts : Lasts parts [] s := by
    refine ⟨nofun, nofun, fun before c after heq => ?_, fun _ before after heq => ?_⟩
    · cases before <;> cases heq
    · cases before <;> cases heq
  obtain ⟨hasSocket, rfl | ⟨e, rfl⟩⟩ := h
  · exact ⟨.inl ⟨rfl, rfl⟩, nofun, nofun, nofun, nofun, nofun, fun hc => hc.elim nofun (absurd rfl),
      nofun, List.prefix_rfl, fun _ _ => rfl, hlasts⟩
  · exact ⟨.inl ⟨rfl, rfl⟩, nofun, nofun, nofun, nofun, fun _ => .inr nofun, fun _ => .inl rfl,
      nofun, List.prefix_rfl, fun _ _ => rfl, hlasts⟩

/-- In this state nothing that arrives is dropped. -/
theorem not_closed (h : Relaying parts drains answered s) (haccepts : s.accepts = true)
    (hover : s.isOver = false) : ¬s.IsClosed := by
  intro hclosed
  simp only [Relay.accepts, Bool.and_eq_true, Bool.not_eq_true'] at haccepts
  rcases h.closed hclosed with ho | hs | hc
  · exact nomatch hover.symm.trans ho
  · exact nomatch haccepts.2.symm.trans hs
  · exact nomatch haccepts.1.1.symm.trans hc

/-- As long as the stream is open, or something is buffered, no answer was the last. -/
theorem none_last (h : Relaying parts drains answered s) (hopen : s.buf ≠ [] ∨ ¬s.IsClosed) :
    ∀ c ∈ answered, c.isLast = false := by
  intro c hc
  by_contra hlast
  obtain ⟨hbuf, hclosed⟩ := h.lasts.closed c hc ((Bool.not_eq_false _).mp hlast)
  exact hopen.elim (fun hne => hne hbuf) fun hno => hno hclosed

end Relaying

namespace Lasts

variable {parts : α → List ω} {answered : List (Promise α)} {s : Relay α}

/-- No answer was the last. -/
theorem of_none (h : ∀ c ∈ answered, c.isLast = false) : Lasts parts answered s where
  closed c hc hlast := nomatch (h c hc).symm.trans hlast
  finished hf := nomatch h _ hf
  after before c after heq hlast := by
    have hc := h c (heq ▸ by simp)
    exact nomatch hc.symm.trans hlast
  before _ before after heq := by
    have hc := h .finished (heq ▸ by simp)
    cases hc

/-- One more answer that is the last. -/
theorem concat {p : Promise α} (h : Lasts parts answered s) (hlast : p.isLast = true)
    (hbuf : s.buf = []) (hclosed : s.IsClosed) (hdone : p = .finished → s.done = true)
    (hall : p = .finished → s.cancelled = false →
      deliveries parts answered = s.arrived.flatMap parts) :
    Lasts parts (answered ++ [p]) s where
  closed _ _ _ := ⟨hbuf, hclosed⟩
  finished hf := by
    rcases List.mem_append.mp hf with hf | hf
    · exact h.finished hf
    · exact hdone (List.mem_singleton.mp hf).symm
  after before c after heq hc := by
    rcases List.eq_nil_or_concat after with rfl | ⟨after', p', rfl⟩
    · rfl
    · rw [List.concat_eq_append, ← List.cons_append, ← List.append_assoc] at heq
      obtain ⟨hrest, hp⟩ := List.append_inj' heq rfl
      obtain rfl : p = p' := List.singleton_inj.mp hp
      rw [List.concat_eq_append, deliveries_concat, h.after before c after' hrest hc,
        p.delivered_isLast parts hlast]
      rfl
  before hcancelled before after heq := by
    rcases List.eq_nil_or_concat after with rfl | ⟨after', p', rfl⟩
    · obtain ⟨hrest, hp⟩ := List.append_inj' heq rfl
      rw [← hrest]
      exact hall (List.singleton_inj.mp hp) hcancelled
    · rw [List.concat_eq_append, ← List.cons_append, ← List.append_assoc] at heq
      obtain ⟨hrest, -⟩ := List.append_inj' heq rfl
      exact h.before hcancelled before after' hrest

end Lasts

/-! ### The slot -/

theorem Relay.settle_none {s : Relay α} (h : s.waiting = none) (p : Promise α) :
    s.settle p = s := by
  rw [Relay.settle, h]

theorem Relay.settle_some {s : Relay α} {answered : List (Promise α)}
    (h : s.waiting = some answered.length) (hcalls : s.calls = answered ++ [.pending])
    (p : Promise α) : s.settle p = { s with waiting := none, calls := answered ++ [p] } := by
  have hset : s.calls.set answered.length p = answered ++ [p] := by
    rw [hcalls, List.set_append_right _ _ (Nat.le_refl _), Nat.sub_self]
    rfl
  rw [Relay.settle, h, ← hset]

namespace Relaying

variable {parts : α → List ω} {drains : Prop} {answered : List (Promise α)} {s : Relay α}

theorem calls_of_none (h : Relaying parts drains answered s) (hw : s.waiting = none) :
    s.calls = answered := by
  rcases h.slot with hnone | hsome
  · exact hnone.2
  · cases hw.symm.trans hsome.1

theorem answers_concat (h : Relaying parts drains answered s) {p : Promise α} (hp : p ≠ .pending) :
    .pending ∉ answered ++ [p] := by
  intro hmem
  rcases List.mem_append.mp hmem with hmem | hmem
  · exact h.answers hmem
  · exact hp (List.mem_singleton.mp hmem).symm

/-- A call is told the end or the error. -/
theorem tell (h : Relaying parts drains answered s) (hw : s.waiting = none) {p : Promise α}
    (hlast : p.isLast = true) (hbuf : s.buf = []) (hclosed : s.IsClosed)
    (hdone : p = .finished → s.done = true) :
    Relaying parts drains (answered ++ [p]) (s.answer p) := by
  have hne : p ≠ .pending := by
    rintro rfl
    cases hlast
  have hsame : deliveries parts (answered ++ [p]) = deliveries parts answered := by
    rw [deliveries_concat, p.delivered_isLast parts hlast, List.append_nil]
  have hlasts : Lasts parts (answered ++ [p]) s := by
    refine h.lasts.concat hlast hbuf hclosed hdone fun hp hcancelled => ?_
    have hwhole := h.whole hcancelled (.inl (hdone hp))
    rwa [hbuf, List.flatMap_nil, List.append_nil] at hwhole
  refine ⟨.inl ⟨hw, ?_⟩, h.answers_concat hne, h.socket, h.filled, h.settled, h.isOver, h.closed,
    h.ended, ?_, ?_, hlasts.closed, hlasts.finished, hlasts.after, hlasts.before⟩
  · show s.calls ++ [p] = answered ++ [p]
    rw [h.calls_of_none hw]
  · rw [hsame]
    exact h.order
  · rw [hsame]
    exact h.whole

/-- `next()` when nothing is buffered. -/
theorem onEmpty (h : Relaying parts drains answered s) (hw : s.waiting = none) (hbuf : s.buf = []) :
    ∃ answered', Relaying parts drains answered' s.onEmpty := by
  have hcalls := h.calls_of_none hw
  cases herr : s.err with
  | some e =>
    have heq : s.onEmpty = s.answer (.rejected e) := by rw [Relay.onEmpty, herr]
    have hclosed : s.IsClosed := .inr (by simp [herr])
    rw [heq]
    exact ⟨_, h.tell hw rfl hbuf hclosed nofun⟩
  | none =>
    cases hdone : s.done with
    | true =>
      have heq : s.onEmpty = s.answer .finished := by simp [Relay.onEmpty, herr, hdone]
      rw [heq]
      exact ⟨_, h.tell hw rfl hbuf (.inl hdone) fun _ => hdone⟩
    | false =>
      have heq : s.onEmpty = { s with
          waiting := some answered.length, calls := answered ++ [.pending] } := by
        simp [Relay.onEmpty, herr, hdone, hcalls]
      have hover : s.isOver = false := by
        by_contra hover
        rcases h.isOver ((Bool.not_eq_false _).mp hover) with hd | he
        · cases hdone.symm.trans hd
        · exact he herr
      rw [heq]
      exact ⟨answered, .inr ⟨rfl, rfl, hbuf, herr, hover⟩, h.answers, h.socket, h.filled, h.settled,
        h.isOver, h.closed, h.ended, h.order, h.whole, h.lasts.closed, h.lasts.finished,
        h.lasts.after, h.lasts.before⟩

/-- The stream ends, and a call that waits is told so. -/
theorem close (h : Relaying parts drains answered s) {d o t : Bool} {e : Option JsError}
    {p : Promise α} (hlast : p.isLast = true) (hd : s.done = true → d = true)
    (ht : s.settled = true → t = true)
    (hclosed : d = true ∨ e ≠ none) (hfinished : p = .finished → d = true)
    (hsettled : t = true → e ≠ none) (hgone : o = true ∨ t = true)
    (hdone : d = true → s.cancelled = false →
      o = true ∧ (s.done = true ∨ s.error = none ∧ s.settled = false)) :
    ∃ answered', Relaying parts drains answered'
      ({ s with done := d, err := e, isOver := o, settled := t }.settle p) := by
  have hmid : Relaying parts drains answered { s with
      done := d, err := e, isOver := o, settled := t, waiting := none, calls := answered } := by
    refine ⟨.inl ⟨rfl, rfl⟩, h.answers, h.socket, h.filled, hsettled, fun _ => hclosed,
      fun _ => hgone.imp_right .inl, fun hd hc => (hdone hd hc).1, h.order, fun hc hwhole => ?_,
      fun c hc hl => ⟨(h.lasts.closed c hc hl).1, hclosed⟩, fun hf => hd (h.lasts.finished hf),
      h.lasts.after, h.lasts.before⟩
    rcases hwhole with hd | ⟨herror, ht'⟩
    · exact h.whole hc (hdone hd hc).2
    · refine h.whole hc (.inr ⟨herror, ?_⟩)
      exact Bool.eq_false_iff.mpr fun hs => nomatch ht'.symm.trans (ht hs)
  rcases h.slot with ⟨hw, hcalls⟩ | ⟨hw, hcalls, hbuf, -, -⟩
  · rw [Relay.settle_none (s := { s with done := d, err := e, isOver := o, settled := t }) hw]
    exact ⟨answered, .inl ⟨hw, hcalls⟩, hmid.answers, hmid.socket, hmid.filled, hmid.settled,
      hmid.isOver, hmid.closed, hmid.ended, hmid.order, hmid.whole, hmid.lasts.closed,
      hmid.lasts.finished, hmid.lasts.after, hmid.lasts.before⟩
  · rw [Relay.settle_some (s := { s with done := d, err := e, isOver := o, settled := t }) hw
      hcalls]
    exact ⟨_, hmid.tell rfl hlast hbuf hclosed hfinished⟩

theorem cancelTask (h : Relaying parts drains answered s) (reason : JsError) :
    ∃ answered', Relaying parts drains answered' (s.cancelTask reason) := by
  rw [Relay.cancelTask]
  cases hs : s.settled with
  | true => exact ⟨_, h⟩
  | false =>
    refine h.close rfl id (fun _ => rfl) (.inr nofun) nofun (fun _ => nofun) (.inr rfl) ?_
    exact fun hd hc => ⟨h.ended hd hc, .inl hd⟩

/-- The task of a call that has its answer leaves the connection. -/
theorem leave (h : Relaying parts drains answered s) (hs : s.settled = true) :
    Relaying parts drains answered { s with isOver := true } := by
  have herr : s.err ≠ none := h.settled hs
  have hw : s.waiting = none := h.slot.elim And.left fun hsome => absurd hsome.2.2.2.1 herr
  exact ⟨.inl ⟨hw, h.calls_of_none hw⟩, h.answers, h.socket, h.filled, h.settled,
    fun _ => .inr herr, fun _ => .inl rfl, fun _ _ => rfl, h.order, h.whole, h.lasts.closed,
    h.lasts.finished, h.lasts.after, h.lasts.before⟩

theorem finishTask (h : Relaying parts drains answered s) :
    ∃ answered', Relaying parts drains answered' s.finishTask := by
  by_cases hs : s.settled = true
  · have heq : s.finishTask = { s with isOver := true } := if_pos hs
    rw [heq]
    exact ⟨answered, h.leave hs⟩
  · cases he : s.error with
    | some e =>
      have heq : s.finishTask = { s with isOver := true, err := some e }.settle (.rejected e) := by
        rw [Relay.finishTask, if_neg hs]
        simp only [he]
        rfl
      rw [heq]
      refine h.close rfl (fun hd => hd) (fun hs => hs) (.inr nofun) nofun (fun _ => nofun)
        (.inl rfl) ?_
      exact fun hd _ => ⟨rfl, .inl hd⟩
    | none =>
      have heq : s.finishTask = { s with isOver := true, done := true }.settle .finished := by
        rw [Relay.finishTask, if_neg hs]
        simp only [he]
        rfl
      rw [heq]
      refine h.close rfl (fun _ => rfl) (fun hs => hs) (.inl rfl) (fun _ => rfl) h.settled
        (.inl rfl) ?_
      exact fun _ _ => ⟨rfl, .inr ⟨he, Bool.eq_false_iff.mpr hs⟩⟩

theorem rejectTask (h : Relaying parts drains answered s) (e : JsError) :
    ∃ answered', Relaying parts drains answered' (s.rejectTask e) := by
  by_cases hs : s.settled = true
  · have heq : s.rejectTask e = { s with isOver := true } := if_pos hs
    rw [heq]
    exact ⟨answered, h.leave hs⟩
  · have heq : s.rejectTask e = { s with isOver := true, err := some (s.error.getD e) }.settle
        (.rejected (s.error.getD e)) := if_neg hs
    rw [heq]
    refine h.close rfl (fun hd => hd) (fun hs => hs) (.inr nofun) nofun (fun _ => nofun)
      (.inl rfl) ?_
    exact fun hd _ => ⟨rfl, .inl hd⟩

/-! ### Arrivals -/

/-- What arrives after an error or a cancel is dropped. -/
theorem drop (h : Relaying parts drains answered s) (hover : s.isOver = false)
    (haccepts : s.accepts = false) (v : α) :
    Relaying parts drains answered { s with arrived := s.arrived ++ [v] } := by
  have hopen : s.cancelled = false → s.done = false := fun hc =>
    Bool.eq_false_iff.mpr fun hd => nomatch hover.symm.trans (h.ended hd hc)
  refine ⟨h.slot, h.answers, h.socket, h.filled, h.settled, h.isOver, h.closed, h.ended, ?_,
    fun hc hwhole => ?_, h.lasts.closed, h.lasts.finished, h.lasts.after,
    fun hc before after heq => ?_⟩
  · rw [List.flatMap_append]
    exact h.order.trans (List.prefix_append _ _)
  · rcases hwhole with hd | ⟨he, hs⟩
    · cases (hopen hc).symm.trans hd
    · have hc : s.cancelled = false := hc
      have he : s.error = none := he
      have hs : s.settled = false := hs
      simp [Relay.accepts, hc, he, hs] at haccepts
  · have hdone := h.lasts.finished (heq ▸ by simp)
    cases (hopen hc).symm.trans hdone

/-- What is accepted goes to the buffer, or to the call that waits. -/
theorem whole_of_accepts (h : Relaying parts drains answered s) (haccepts : s.accepts = true) :
    deliveries parts answered ++ s.buf.flatMap parts = s.arrived.flatMap parts := by
  simp only [Relay.accepts, Bool.and_eq_true, Bool.not_eq_true', Option.isNone_iff_eq_none]
    at haccepts
  exact h.whole haccepts.1.1 (.inr ⟨haccepts.1.2, haccepts.2⟩)

theorem pass (h : Relaying parts drains answered s) (hover : s.isOver = false)
    (haccepts : s.accepts = true) {i : Nat} (hw : s.waiting = some i) (v : α) :
    ∃ answered', Relaying parts drains answered'
      ({ s with buf := [], arrived := s.arrived ++ [v] }.settle (.value v)) := by
  have hopen := h.not_closed haccepts hover
  rcases h.slot with ⟨hnone, -⟩ | ⟨hw', hcalls, hbuf, -, -⟩
  · cases hnone.symm.trans hw
  · rw [Relay.settle_some (s := { s with buf := [], arrived := s.arrived ++ [v] }) hw' hcalls]
    have hall : deliveries parts (answered ++ [.value v]) ++ [].flatMap parts =
        (s.arrived ++ [v]).flatMap parts := by
      have hwhole := h.whole_of_accepts haccepts
      rw [hbuf, List.flatMap_nil, List.append_nil] at hwhole
      rw [deliveries_concat, hwhole]
      simp [Promise.delivered]
    have hlasts : Lasts parts (answered ++ [.value v]) s := by
      refine .of_none fun c hc => ?_
      rcases List.mem_append.mp hc with hc | hc
      · exact h.none_last (.inr hopen) c hc
      · rw [List.mem_singleton.mp hc]
        rfl
    refine ⟨answered ++ [.value v], .inl ⟨rfl, rfl⟩, h.answers_concat nofun, h.socket, fun hp => ?_,
      h.settled, h.isOver, h.closed, h.ended, ?_, fun _ _ => hall, fun c hc hl => ?_, hlasts.finished,
      hlasts.after, fun hc before after heq => ?_⟩
    · exact absurd hbuf (h.filled hp).1
    · rw [← hall]
    · exact ⟨rfl, (hlasts.closed c hc hl).2⟩
    · exact absurd (.inl (hlasts.finished (heq ▸ by simp))) hopen

theorem hold (h : Relaying parts drains answered s) (hover : s.isOver = false)
    (haccepts : s.accepts = true) (hw : s.waiting = none) (v : α) {n : Nat} :
    Relaying parts drains answered
      { s with buf := s.buf ++ [v], buffered := n, arrived := s.arrived ++ [v] } := by
  have hopen := h.not_closed haccepts hover
  have hlasts : Lasts parts answered s := .of_none (h.none_last (.inr hopen))
  have hall : deliveries parts answered ++ (s.buf ++ [v]).flatMap parts =
      (s.arrived ++ [v]).flatMap parts := by
    rw [List.flatMap_append, List.flatMap_append, ← List.append_assoc,
      h.whole_of_accepts haccepts]
  refine ⟨.inl ⟨hw, h.calls_of_none hw⟩, h.answers, h.socket, fun hp => ?_, h.settled, h.isOver,
    h.closed, h.ended, ?_, fun _ _ => hall, fun c hc hl => ?_, hlasts.finished, hlasts.after,
    fun hc before after heq => ?_⟩
  · exact ⟨by simp, (h.filled hp).2⟩
  · rw [← hall]
  · exact nomatch (h.none_last (.inr hopen) c hc).symm.trans hl
  · exact absurd (.inl (hlasts.finished (heq ▸ by simp))) hopen

theorem pause (h : Relaying parts drains answered s) (hbuf : s.buf ≠ []) (hdrains : drains) :
    Relaying parts drains answered s.pause :=
  ⟨h.slot, h.answers, fun _ => rfl, fun _ => ⟨hbuf, hdrains⟩, h.settled, h.isOver, h.closed, h.ended,
    h.order, h.whole, h.lasts.closed, h.lasts.finished, h.lasts.after, h.lasts.before⟩

/-! ### What a consumer does -/

/-- A call takes something from the buffer; the socket is resumed if nothing remains. -/
theorem take (h : Relaying parts drains answered s) (hw : s.waiting = none) (hne : s.buf ≠ [])
    {v : α} {buf : List α} (hbuf : parts v ++ buf.flatMap parts = s.buf.flatMap parts) {n : Nat}
    {paused isSocketPaused : Bool}
    (hpaused : paused = true → s.paused = true ∧ buf ≠ [])
    (hsocket : isSocketPaused = true → paused = true) :
    Relaying parts drains (answered ++ [.value v]) { s with
      buf := buf, buffered := n, paused := paused, isSocketPaused := isSocketPaused
      calls := s.calls ++ [.value v] } := by
  have hlasts : Lasts parts (answered ++ [.value v]) s := by
    refine .of_none fun c hc => ?_
    rcases List.mem_append.mp hc with hc | hc
    · exact h.none_last (.inl hne) c hc
    · rw [List.mem_singleton.mp hc]
      rfl
  have hsame : deliveries parts (answered ++ [.value v]) ++ buf.flatMap parts =
      deliveries parts answered ++ s.buf.flatMap parts := by
    rw [deliveries_concat, List.append_assoc, ← hbuf]
    rfl
  refine ⟨.inl ⟨hw, by rw [h.calls_of_none hw]⟩, h.answers_concat nofun, hsocket, fun hp => ?_,
    h.settled, h.isOver, h.closed, h.ended, ?_, ?_, fun c hc hl => ?_, hlasts.finished, hlasts.after,
    hlasts.before⟩
  · obtain ⟨hwas, hsome⟩ := hpaused hp
    exact ⟨hsome, (h.filled hwas).2⟩
  · rw [hsame]
    exact h.order
  · rw [hsame]
    exact h.whole
  · exact absurd (hlasts.closed c hc hl).1 hne

theorem resume (h : Relaying parts drains answered s) : Relaying parts drains answered s.resume :=
  ⟨h.slot, h.answers, nofun, nofun, h.settled, h.isOver, h.closed, h.ended,
    h.order, h.whole, h.lasts.closed, h.lasts.finished, h.lasts.after, h.lasts.before⟩

/-- `t.cancelled = true` -/
theorem cancel (h : Relaying parts drains answered s) :
    Relaying parts drains answered { s with cancelled := true } :=
  ⟨h.slot, h.answers, h.socket, h.filled, h.settled, h.isOver, fun _ => .inr (.inr rfl), nofun,
    h.order, nofun, h.lasts.closed, h.lasts.finished, h.lasts.after, nofun⟩

/-- A `return()` that drops what is buffered and ends the iterator. -/
theorem clear (h : Relaying parts drains answered s) {n : Nat} :
    Relaying parts drains answered { s with
      cancelled := true, buf := [], buffered := n, paused := false, isSocketPaused := false
      done := true } := by
  refine ⟨?_, h.answers, nofun, nofun, h.settled, fun _ => .inl rfl, fun _ => .inr (.inr rfl),
    nofun, ?_, nofun, fun _ _ _ => ⟨rfl, .inl rfl⟩, fun _ => rfl, h.lasts.after, nofun⟩
  · rcases h.slot with hnone | ⟨hw, hcalls, -, herr, hover⟩
    · exact .inl hnone
    · exact .inr ⟨hw, hcalls, rfl, herr, hover⟩
  · rw [List.flatMap_nil, List.append_nil]
    exact (List.prefix_append _ _).trans h.order

/-! ### Steps -/

/-- The steps that `stream` and `copyTo` share, and the three that they do not. -/
theorem step {next : Relay α → Relay α} {closeEarly : Bool → Relay α → Relay α}
    {onArrival : α → Relay α → Relay α} {e : RelayEvent α}
    (h : Relaying parts drains answered s) (he : s.enabled e = true)
    (hnext : e = .next → ∃ answered', Relaying parts drains answered' (next s))
    (hclose : ∀ inTransaction, ∃ answered',
      Relaying parts drains answered' (closeEarly inTransaction s))
    (harrive : ∀ v, e = .arrive v → s.isOver = false → s.accepts = true → ∃ answered',
      Relaying parts drains answered' (onArrival v { s with arrived := s.arrived ++ [v] })) :
    ∃ answered', Relaying parts drains answered' (s.step next closeEarly onArrival e) := by
  cases e with
  | next => exact hnext rfl
  | closeEarly inTransaction => exact hclose inTransaction
  | arrive v =>
    have hover : s.isOver = false := by
      simp only [Relay.enabled, Bool.and_eq_true, Bool.not_eq_true'] at he
      exact he.2
    cases haccepts : s.accepts with
    | true =>
      simp only [Relay.step, haccepts, if_true]
      exact harrive v rfl hover haccepts
    | false =>
      simp only [Relay.step, haccepts]
      exact ⟨answered, h.drop hover haccepts v⟩
  | fail e =>
    have hover : s.isOver = false := by
      simp only [Relay.enabled, Bool.and_eq_true, Bool.not_eq_true'] at he
      exact he.2
    refine ⟨answered, h.slot, h.answers, h.socket, h.filled, h.settled, h.isOver, h.closed, h.ended,
      h.order, fun hc hwhole => ?_, h.lasts.closed, h.lasts.finished, h.lasts.after,
      h.lasts.before⟩
    exact hwhole.elim (fun hd => h.whole hc (.inl hd)) fun hnone => nomatch hnone.1
  | finishTask => exact h.finishTask
  | rejectTask e => exact h.rejectTask e
  | cancelTask reason => exact h.cancelTask reason
  | socketLost =>
    exact ⟨answered, h.slot, h.answers, nofun, h.filled, h.settled, h.isOver, h.closed, h.ended,
      h.order, h.whole, h.lasts.closed, h.lasts.finished, h.lasts.after, h.lasts.before⟩
  | socketBack =>
    exact ⟨answered, h.slot, h.answers, h.socket, h.filled, h.settled, h.isOver, h.closed, h.ended,
      h.order, h.whole, h.lasts.closed, h.lasts.finished, h.lasts.after, h.lasts.before⟩
  | socketResumed =>
    exact ⟨answered, h.slot, h.answers, nofun, h.filled, h.settled, h.isOver, h.closed, h.ended,
      h.order, h.whole, h.lasts.closed, h.lasts.finished, h.lasts.after, h.lasts.before⟩

/-- What the invariant is for. -/
theorem relays (h : Relaying parts drains answered s) : Relays parts s := by
  have hcalls : s.calls.flatMap (Promise.delivered parts) = deliveries parts answered := by
    rcases h.slot with ⟨-, hcalls⟩ | ⟨-, hcalls, -⟩
    · rw [hcalls, deliveries]
    · rw [hcalls]
      exact (deliveries_concat parts answered .pending).trans (List.append_nil _)
  have hwaits : .pending ∈ s.calls → s.waiting ≠ none := fun hmem hw =>
    h.answers (h.calls_of_none hw ▸ hmem)
  -- A call that waits is the last one and tells nothing.
  have hsplit : ∀ before c after, s.calls = before ++ c :: after → c.isLast = true →
      ∃ after', answered = before ++ c :: after' ∧
        after.flatMap (Promise.delivered parts) = deliveries parts after' := by
    intro before c after heq hlast
    rcases h.slot with ⟨-, hnone⟩ | ⟨-, hsome, -⟩
    · exact ⟨after, hnone ▸ heq, rfl⟩
    · rcases List.eq_nil_or_concat after with rfl | ⟨after', p, rfl⟩
      · rw [hsome] at heq
        obtain ⟨-, hp⟩ := List.append_inj' heq rfl
        rw [← List.singleton_inj.mp hp] at hlast
        cases hlast
      · rw [hsome, List.concat_eq_append, ← List.cons_append, ← List.append_assoc] at heq
        obtain ⟨hrest, hp⟩ := List.append_inj' heq rfl
        refine ⟨after', hrest, ?_⟩
        rw [← List.singleton_inj.mp hp, List.concat_eq_append]
        exact (deliveries_concat parts after' .pending).trans (List.append_nil _)
  refine ⟨fun _ hbuf hmem => ?_, fun hended hmem => ?_, ?_, fun haccepts => ?_,
    fun hc before after heq => ?_, fun before c after heq hlast => ?_⟩
  · by_contra hsocket
    exact (h.filled (h.socket ((Bool.not_eq_false _).mp hsocket))).1 hbuf
  · rcases h.slot with ⟨hnone, -⟩ | ⟨-, -, -, herr, hover⟩
    · exact hwaits hmem hnone
    · rcases hended with hended | hended
      · cases hover.symm.trans hended
      · exact hended herr
  · rw [hcalls]
    exact (List.prefix_append _ _).trans h.order
  · rw [hcalls]
    exact h.whole_of_accepts haccepts
  · obtain ⟨after', heq', -⟩ := hsplit _ _ _ heq rfl
    exact h.lasts.before hc before after' heq'
  · obtain ⟨after', heq', hsame⟩ := hsplit _ _ _ heq hlast
    rw [hsame]
    exact h.lasts.after before c after' heq' hlast

/-- Nothing is buffered while a call waits. -/
theorem buf_of_some (h : Relaying parts drains answered s) {i : Nat} (hw : s.waiting = some i) :
    s.buf = [] := by
  rcases h.slot with ⟨hnone, -⟩ | ⟨-, -, hbuf, -⟩
  · cases hnone.symm.trans hw
  · exact hbuf

end Relaying

/-! ### `stream` -/

namespace Rows

variable {Row : Type} {highWaterMark : Option Double} {answered : List (Promise Row)}
  {s : Relay Row}

/-- Of a row, the row itself. -/
def parts (row : Row) : List Row := [row]

theorem relaying_onRow {hwm : Double} (h : Relaying parts (Drains hwm) answered s) (row : Row)
    (hover : s.isOver = false) (haccepts : s.accepts = true)
    (hok : s.waiting = none → hwm.isNaN = true ∨ Drains hwm) :
    ∃ answered', Relaying parts (Drains hwm) answered'
      (onRow hwm row { s with arrived := s.arrived ++ [row] }) := by
  rcases Option.eq_none_or_eq_some s.waiting with hw | ⟨i, hw⟩
  · have hheld := h.hold hover haccepts hw row (n := s.buffered)
    rw [hw] at hheld
    simp only [Rows.onRow, hw]
    split
    next hpause =>
      simp only [Bool.and_eq_true] at hpause
      have hdrains : Drains hwm := by
        refine (hok hw).resolve_left fun hnan => ?_
        rw [Double.lt, hnan, Bool.true_or, if_pos rfl] at hpause
        exact nomatch hpause.1.1
      exact ⟨_, hheld.pause (by simp) hdrains⟩
    next =>
      exact ⟨_, hheld⟩
  · have heq : Rows.onRow hwm row { s with arrived := s.arrived ++ [row] } =
        { s with buf := [], arrived := s.arrived ++ [row] }.settle (.value row) := by
      simp only [Rows.onRow, hw, h.buf_of_some hw]
      rfl
    rw [heq]
    exact h.pass hover haccepts hw row

theorem relaying_next {hwm : Double} (h : Relaying parts (Drains hwm) answered s)
    (hw : s.waiting = none) : ∃ answered', Relaying parts (Drains hwm) answered' (next hwm s) := by
  rw [Rows.next]
  cases hbuf : s.buf with
  | nil => exact h.onEmpty hw hbuf
  | cons v buf =>
    have hne : s.buf ≠ [] := by simp [hbuf]
    have hparts : parts v ++ buf.flatMap parts = s.buf.flatMap parts := by
      rw [hbuf, List.flatMap_cons]
    dsimp only
    split
    next => exact ⟨_, h.take hw hne hparts nofun nofun⟩
    next hkeep =>
      refine ⟨_, h.take hw hne hparts (fun hp => ⟨hp, ?_⟩) h.socket⟩
      rintro rfl
      have hdrains : Drains hwm := (h.filled hp).2
      exact hkeep (by rw [Bool.and_eq_true]; exact ⟨hp, hdrains⟩)

theorem relaying_closeEarly {drains : Prop} (h : Relaying parts drains answered s)
    (inTransaction : Bool) :
    ∃ answered', Relaying parts drains answered' (closeEarly inTransaction s) := by
  have hresume : ∀ {answered} {t : Relay Row}, Relaying parts drains answered t →
      ∃ answered', Relaying parts drains answered' (if t.paused then t.resume else t) := by
    intro answered t ht
    split
    · exact ⟨_, ht.resume⟩
    · exact ⟨_, ht⟩
  rw [Rows.closeEarly]
  dsimp only
  split
  · obtain ⟨answered', h'⟩ := h.cancel.cancelTask closedEarly
    exact hresume h'
  · exact hresume h.cancel

theorem relaying (h : (machine highWaterMark).Reach (IsOrderly highWaterMark) IsStart s) :
    ∃ answered, Relaying parts (Drains (highWaterMark.getD (.ofInt 200))) answered s := by
  refine h.invariant (I := fun s => ∃ answered, Relaying parts _ answered s)
    (fun s hs => ⟨[], .start hs⟩) ?_
  rintro s e ⟨answered, hs⟩ he hok
  refine hs.step he ?_ (relaying_closeEarly hs) ?_
  · rintro rfl
    exact relaying_next hs hok
  · rintro v rfl hover haccepts
    exact relaying_onRow hs v hover haccepts (hok haccepts)

end Rows

/-! ### `copyTo` -/

namespace Copy

variable {highWaterMark : Option Double} {answered : List (Promise Chunk)} {s : Relay Chunk}

theorem relaying_onCopyData (hwm : Double) (h : Relaying id True answered s) (chunk : Chunk)
    (hover : s.isOver = false) (haccepts : s.accepts = true) :
    ∃ answered', Relaying id True answered'
      (onCopyData hwm chunk { s with arrived := s.arrived ++ [chunk] }) := by
  rcases Option.eq_none_or_eq_some s.waiting with hw | ⟨i, hw⟩
  · have hheld := h.hold hover haccepts hw chunk (n := s.buffered + chunk.length)
    rw [hw] at hheld
    simp only [Copy.onCopyData, hw]
    split
    next =>
      exact ⟨_, hheld.pause (by simp) trivial⟩
    next =>
      exact ⟨_, hheld⟩
  · have heq : Copy.onCopyData hwm chunk { s with arrived := s.arrived ++ [chunk] } =
        { s with buf := [], arrived := s.arrived ++ [chunk] }.settle (.value chunk) := by
      simp only [Copy.onCopyData, hw]
      rw [← h.buf_of_some hw, ← hw]
    rw [heq]
    exact h.pass hover haccepts hw chunk

/-- A resumed relay is not paused, whether `resume` had to do something or not. -/
theorem resume_eq (h : s.isSocketPaused = true → s.paused = true) :
    resume s = { s with paused := false, isSocketPaused := false } := by
  rw [resume]
  split
  next => rfl
  next hp =>
    have hpaused : s.paused = false := Bool.eq_false_iff.mpr hp
    have hsocket : s.isSocketPaused = false := Bool.eq_false_iff.mpr fun hs => hp (h hs)
    cases s
    simp_all

theorem relaying_next (h : Relaying id True answered s) (hw : s.waiting = none) :
    ∃ answered', Relaying id True answered' (next s) := by
  rw [Copy.next]
  cases hbuf : s.buf with
  | nil => exact h.onEmpty hw hbuf
  | cons chunk chunks =>
    have hne : s.buf ≠ [] := by simp [hbuf]
    have hall : (drain s).1 ++ [].flatMap id = s.buf.flatMap id := by
      rw [drain, List.flatMap_nil, List.append_nil, List.flatMap_id]
      dsimp only
      split
      next heq => rw [heq]; simp
      next => rfl
    have hrest : (drain s).2 = { s with
        buf := [], buffered := 0, paused := false, isSocketPaused := false } :=
      resume_eq (s := { s with buf := [], buffered := 0 }) h.socket
    dsimp only
    rw [hrest]
    exact ⟨_, h.take hw hne hall nofun nofun⟩

theorem relaying_closeEarly (h : Relaying id True answered s) (inTransaction : Bool) :
    ∃ answered', Relaying id True answered' (closeEarly inTransaction s) := by
  have hcleared : { resume { s with cancelled := true, buf := [], buffered := 0 } with
      done := true } = { s with
        cancelled := true, buf := [], buffered := 0, paused := false, isSocketPaused := false
        done := true } := by
    rw [resume_eq (s := { s with cancelled := true, buf := [], buffered := 0 }) h.socket]
  rw [Copy.closeEarly, hcleared]
  split
  · exact h.clear.cancelTask closedEarly
  · exact ⟨_, h.clear⟩

theorem relaying (h : (machine highWaterMark).Reach IsSequential IsStart s) :
    ∃ answered, Relaying id True answered s := by
  refine h.invariant (I := fun s => ∃ answered, Relaying id True answered s)
    (fun s hs => ⟨[], .start hs⟩) ?_
  rintro s e ⟨answered, hs⟩ he hok
  refine hs.step he ?_ (relaying_closeEarly hs) ?_
  · rintro rfl
    exact relaying_next hs hok
  · rintro v rfl hover haccepts
    exact relaying_onCopyData _ hs v hover haccepts

end Copy

instance (s : Relay α) (e : RelayEvent α) : Decidable (IsSequential s e) := by
  unfold IsSequential
  split <;> infer_instance

instance (hwm : Double) : Decidable (Rows.Drains hwm) := inferInstanceAs (Decidable (_ = true))

instance {Row : Type} (highWaterMark : Option Double) (s : Relay Row) (e : RelayEvent Row) :
    Decidable (Rows.IsOrderly highWaterMark s e) := by
  unfold Rows.IsOrderly
  split <;> infer_instance

/-- A row that is waited for, three that are buffered, and calls until the end. -/
def fourRows : List (RelayEvent Nat) :=
  [.next, .arrive 1, .arrive 2, .arrive 3, .arrive 4, .next, .next, .next, .next, .finishTask]

/-- Two chunks of which one is buffered. -/
def twoChunks : List (RelayEvent Copy.Chunk) :=
  [.next, .arrive [1, 2], .arrive [3, 4, 5], .next, .finishTask, .next]

theorem isStart_queued : IsStart (Relay.queued true : Relay α) := ⟨true, .inl rfl⟩

end Minipg.Streams
