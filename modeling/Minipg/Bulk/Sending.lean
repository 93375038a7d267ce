import Minipg.Bulk.Batches
import Mathlib.Data.List.Nodup
import Mathlib.Data.List.Perm.Basic

/-!
# Runs of a bulk operation

What `runBulk` issues, merges and reports on each of its ways: one chunk after the other
(`sequential_issued`, `sequential_ok`), or all at once with answers in any order (`runAll_issued`,
`runAll_ok`).  The progress goes up (`Steady`).
-/

namespace Minipg.Bulk

open Js Slices

variable {ρ κ : Type}

/-! ### Statements -/

section
variable (make : Metas → List Row → Chunk × Metas)

/-- The statements of pieces of the rows. -/
def chunksOf (metas : Metas) : List (List Row) → List Chunk
  | [] => []
  | piece :: pieces => (make metas piece).1 :: chunksOf (make metas piece).2 pieces

/-- The names of the statements stay apart. -/
theorem Form.numbering (form : Form) (metas : Metas) {now : Metas} (h : Numbering now.valuesMeta)
    (rows : List Row) : Numbering ((form.maker metas).1 now rows).2.valuesMeta := by
  cases form with
  | unnest c name => exact h
  | values v => exact (h.named _).1

variable {make} {rows : List Row} {run : Run ρ κ} {opts : Options}
  {answer : Nat → Except JsError (QueryResult ρ κ)} {nChunks : Nat}

theorem report_issued (totalRows chunkRows : Nat) (r : QueryResult ρ κ) (chunks : Nat) :
    (run.report opts totalRows chunkRows r chunks).issued = run.issued := by
  unfold Run.report
  split <;> rfl

theorem report_settled (totalRows chunkRows : Nat) (r : QueryResult ρ κ) (chunks : Nat) :
    (run.report opts totalRows chunkRows r chunks).settled = run.settled := by
  unfold Run.report
  split <;> rfl

theorem report_rs (totalRows chunkRows : Nat) (r : QueryResult ρ κ) (chunks : Nat) :
    (run.report opts totalRows chunkRows r chunks).rs = run.rs := by
  unfold Run.report
  split <;> rfl

theorem report_metas (totalRows chunkRows : Nat) (r : QueryResult ρ κ) (chunks : Nat) :
    (run.report opts totalRows chunkRows r chunks).metas = run.metas := by
  unfold Run.report
  split <;> rfl

theorem report_track (h : opts.onProgress) (totalRows chunkRows : Nat) (r : QueryResult ρ κ)
    (chunks : Nat) : (run.report opts totalRows chunkRows r chunks).track.rows =
      run.track.rows + chunkRows := by
  rw [Run.report, if_pos h]

variable (opts make rows answer nChunks) in
/-- One after the other: some of the statements, or all. -/
theorem sequential_issued : ∀ (ranges : List (Nat × Nat)) (k : Nat) (run : Run ρ κ),
    ∃ j ≤ ranges.length, (sequential opts make rows answer nChunks ranges k run).issued =
      run.issued ++ chunksOf make run.metas ((ranges.take j).map (slice rows)) ∧
      ∀ r, (sequential opts make rows answer nChunks ranges k run).settled = some (.ok r) →
        j = ranges.length
  | [], k, run => ⟨0, Nat.le_refl 0, (List.append_nil _).symm, fun r _ => rfl⟩
  | range :: rest, k, run => by
    cases ha : answer k with
    | error e =>
      refine ⟨1, Nat.succ_le_succ (Nat.zero_le _), ?_, fun r hr => ?_⟩
      · simp [sequential, ha, Run.issue, chunksOf]
      · simp [sequential, ha] at hr
    | ok r =>
      let next := ({ run.issue make rows range with
        rs := run.rs ++ [r], done := run.done + r.rowCount.getD 0 } : Run ρ κ).report opts
          rows.length (range.2 - range.1) r nChunks
      have hnext : sequential opts make rows answer nChunks (range :: rest) k run =
          sequential opts make rows answer nChunks rest (k + 1) next := by
        simp only [sequential, ha]
        rfl
      obtain ⟨j, hj, hissued, hok⟩ := sequential_issued rest (k + 1) next
      have hmetas : next.metas = (make run.metas (slice rows range)).2 := report_metas ..
      have hsent : next.issued = run.issued ++ [(make run.metas (slice rows range)).1] :=
        report_issued ..
      refine ⟨j + 1, Nat.succ_le_succ hj, ?_, fun r hr => ?_⟩
      · rw [hnext, hissued, hmetas, hsent, List.append_assoc]
        rfl
      · rw [hnext] at hr
        rw [hok r hr, List.length_cons]

theorem sequential_ok : ∀ (ranges : List (Nat × Nat)) (k : Nat) (run : Run ρ κ)
    (result : QueryResult ρ κ),
    (sequential opts make rows answer nChunks ranges k run).settled = some (.ok result) →
      (∃ rs, (List.range' k ranges.length).map answer = rs.map .ok ∧
        result = mergeResults (run.rs ++ rs)) ∧
      (opts.onProgress → (sequential opts make rows answer nChunks ranges k run).track.rows =
        run.track.rows + (ranges.map fun r => r.2 - r.1).sum)
  | [], k, run, result, h => by
    cases Except.ok.inj (Option.some.inj h)
    exact ⟨⟨[], rfl, by rw [List.append_nil]⟩, fun _ => rfl⟩
  | range :: rest, k, run, result, h => by
    cases ha : answer k with
    | error e => simp [sequential, ha] at h
    | ok r =>
      let next := ({ run.issue make rows range with
        rs := run.rs ++ [r], done := run.done + r.rowCount.getD 0 } : Run ρ κ).report opts
          rows.length (range.2 - range.1) r nChunks
      have hnext : sequential opts make rows answer nChunks (range :: rest) k run =
          sequential opts make rows answer nChunks rest (k + 1) next := by
        simp only [sequential, ha]
        rfl
      rw [hnext] at h
      obtain ⟨⟨rs, hrs, hresult⟩, htrack⟩ := sequential_ok rest (k + 1) next result h
      have hnrs : next.rs = run.rs ++ [r] := report_rs ..
      refine ⟨⟨r :: rs, ?_, ?_⟩, fun hp => ?_⟩
      · rw [List.length_cons, List.range'_succ, List.map_cons, ha, hrs, List.map_cons]
      · rw [hresult, hnrs, List.append_assoc]
        rfl
      · have hhere : next.track.rows = run.track.rows + (range.2 - range.1) :=
          report_track hp ..
        rw [hnext, htrack hp, hhere, List.map_cons, List.sum_cons, Nat.add_assoc]

variable (make rows) in
theorem issue_all : ∀ (ranges : List (Nat × Nat)) (run : Run ρ κ),
    (ranges.foldl (fun run range => run.issue make rows range) run).issued =
      run.issued ++ chunksOf make run.metas (ranges.map (slice rows))
  | [], run => (List.append_nil _).symm
  | range :: rest, run => by
    rw [List.foldl_cons, issue_all rest, Run.issue]
    simp [chunksOf]

variable (make rows) in
theorem issue_rest : ∀ (ranges : List (Nat × Nat)) (run : Run ρ κ),
    let after := ranges.foldl (fun run range => run.issue make rows range) run
    after.settled = run.settled ∧ after.track = run.track ∧ after.reports = run.reports
  | [], _ => ⟨rfl, rfl, rfl⟩
  | range :: rest, run => issue_rest rest (run.issue make rows range)

variable (opts rows answer nChunks) in
/-- All at once: the answers add nothing to what is issued. -/
theorem settle_issued (ranges : List (Nat × Nat)) : ∀ (order : List Nat) (run : Run ρ κ),
    (order.foldl (fun run k => run.settle opts rows answer nChunks ranges k) run).issued =
      run.issued
  | [], run => rfl
  | k :: order, run => by
    rw [List.foldl_cons, settle_issued ranges order]
    unfold Run.settle
    split
    · rfl
    · split
      · exact report_issued ..
      · rfl

/-- The rows of a chunk. -/
def sizeAt (ranges : List (Nat × Nat)) (k : Nat) : Nat :=
  (ranges[k]?.map fun r => r.2 - r.1).getD 0

variable (opts rows answer nChunks) in
theorem settle_cases (ranges : List (Nat × Nat)) (run : Run ρ κ) (k : Nat) :
    (ranges[k]? = none ∧ run.settle opts rows answer nChunks ranges k = run) ∨
    (∃ range r, ranges[k]? = some range ∧ answer k = .ok r ∧
      run.settle opts rows answer nChunks ranges k =
        run.report opts rows.length (range.2 - range.1) r nChunks) ∨
    ∃ e, answer k = .error e ∧ run.settle opts rows answer nChunks ranges k =
      { run with settled := run.settled.or (some (.error ⟨e, none⟩)) } := by
  unfold Run.settle
  cases hr : ranges[k]? with
  | none => exact .inl ⟨rfl, rfl⟩
  | some range =>
    cases ha : answer k with
    | ok r => exact .inr (.inl ⟨range, r, rfl, rfl, rfl⟩)
    | error e => exact .inr (.inr ⟨e, rfl, rfl⟩)

variable (opts rows answer nChunks) in
/-- Only failures settle a run on the way. -/
theorem settle_not_ok (ranges : List (Nat × Nat)) : ∀ (order : List Nat) (run : Run ρ κ),
    (∀ r, run.settled ≠ some (.ok r)) → ∀ r,
      (order.foldl (fun run k => run.settle opts rows answer nChunks ranges k) run).settled ≠
        some (.ok r)
  | [], run, h => h
  | k :: order, run, h => by
    rw [List.foldl_cons]
    apply settle_not_ok ranges order
    intro r hr
    rcases settle_cases rows opts answer nChunks ranges run k with
      ⟨-, he⟩ | ⟨range, r', -, -, he⟩ | ⟨e, -, he⟩
    · rw [he] at hr
      exact h r hr
    · rw [he, report_settled] at hr
      exact h r hr
    · rw [he] at hr
      cases hs : run.settled with
      | none => simp [hs] at hr
      | some x =>
        simp only [hs, Option.some_or] at hr
        exact h r (hs.trans hr)

theorem settle_keeps (ranges : List (Nat × Nat)) (x : Except Failure (QueryResult ρ κ)) :
    ∀ (order : List Nat) (run : Run ρ κ), run.settled = some x →
      (order.foldl (fun run k => run.settle opts rows answer nChunks ranges k) run).settled =
        some x
  | [], run, h => h
  | k :: order, run, h => by
    rw [List.foldl_cons]
    apply settle_keeps ranges x order
    rcases settle_cases rows opts answer nChunks ranges run k with
      ⟨-, he⟩ | ⟨range, r', -, -, he⟩ | ⟨e, -, he⟩
    · rw [he, h]
    · rw [he, report_settled, h]
    · rw [he]
      simp [h]

/-- Without a failure each chunk is answered and counted. -/
theorem settle_open (ranges : List (Nat × Nat)) : ∀ (order : List Nat) (run : Run ρ κ),
    (order.foldl (fun run k => run.settle opts rows answer nChunks ranges k) run).settled = none →
      (∀ k ∈ order, k < ranges.length → ∃ r, answer k = .ok r) ∧
      (opts.onProgress →
        (order.foldl (fun run k => run.settle opts rows answer nChunks ranges k) run).track.rows =
          run.track.rows + (order.map (sizeAt ranges)).sum)
  | [], _, _ => ⟨fun k hk => (nomatch hk), fun _ => rfl⟩
  | k :: order, run, h => by
    rw [List.foldl_cons] at h ⊢
    obtain ⟨hall, htrack⟩ := settle_open ranges order _ h
    rcases settle_cases rows opts answer nChunks ranges run k with
      ⟨hnone, he⟩ | ⟨range, r, hsome, ha, he⟩ | ⟨e, -, he⟩
    · refine ⟨fun i hi hlt => ?_, fun hp => ?_⟩
      · rcases List.mem_cons.mp hi with rfl | hi
        · exact absurd (List.getElem?_eq_none_iff.mp hnone) (Nat.not_le.mpr hlt)
        · exact hall i hi hlt
      · rw [htrack hp, he, List.map_cons, List.sum_cons, sizeAt, hnone]
        simp
    · refine ⟨fun i hi hlt => ?_, fun hp => ?_⟩
      · rcases List.mem_cons.mp hi with rfl | hi
        · exact ⟨r, ha⟩
        · exact hall i hi hlt
      · rw [htrack hp, he, report_track hp, List.map_cons, List.sum_cons, sizeAt, hsome,
          Nat.add_assoc]
        rfl
    · have hset : (run.settle opts rows answer nChunks ranges k).settled ≠ none := by
        rw [he]
        cases hs : run.settled with
        | none => simp
        | some x => simp
      obtain ⟨x, hx⟩ := Option.ne_none_iff_exists'.mp hset
      rw [settle_keeps ranges x order _ hx] at h
      cases h

theorem runAll_issued (ranges : List (Nat × Nat)) (order : List Nat) (run : Run ρ κ) :
    (runAll opts make rows answer nChunks ranges order run).issued =
      run.issued ++ chunksOf make run.metas (ranges.map (slice rows)) := by
  have hissued := (settle_issued rows opts answer nChunks ranges order _).trans
    (issue_all make rows ranges run)
  unfold runAll
  dsimp only
  split
  · exact hissued
  · split
    · exact hissued
    · exact hissued

theorem sum_filter {f : Nat → Nat} {p : Nat → Bool} (h : ∀ k, p k = false → f k = 0) :
    ∀ l : List Nat, ((l.filter p).map f).sum = (l.map f).sum
  | [] => rfl
  | k :: l => by
    cases hp : p k with
    | true => rw [List.filter_cons_of_pos hp, List.map_cons, List.sum_cons, sum_filter h l,
        List.map_cons, List.sum_cons]
    | false =>
      rw [List.filter_cons_of_neg (by simp [hp]), sum_filter h l, List.map_cons, List.sum_cons,
        h k hp, Nat.zero_add]

/-- In whatever order, the chunks have all rows. -/
theorem sizes_sum {ranges : List (Nat × Nat)} {order : List Nat} (hnd : order.Nodup)
    (hall : ∀ k < ranges.length, k ∈ order) :
    (order.map (sizeAt ranges)).sum = (ranges.map fun r => r.2 - r.1).sum := by
  have hout : ∀ k, decide (k < ranges.length) = false → sizeAt ranges k = 0 := by
    intro k hk
    rw [sizeAt, List.getElem?_eq_none (by simpa using hk)]
    rfl
  have hperm : (order.filter fun k => decide (k < ranges.length)).Perm
      (List.range ranges.length) := by
    rw [List.perm_ext_iff_of_nodup (hnd.filter _) List.nodup_range]
    intro k
    simp only [List.mem_filter, decide_eq_true_eq, List.mem_range]
    exact ⟨fun h => h.2, fun h => ⟨hall k h, h⟩⟩
  have hrange : (List.range ranges.length).map (sizeAt ranges) =
      ranges.map fun r => r.2 - r.1 := by
    apply List.ext_getElem
    · simp
    · intro k hk hk'
      have hlt : k < ranges.length := by simpa using hk'
      simp [sizeAt, hlt]
  rw [← sum_filter hout order, (hperm.map _).sum_eq, hrange]

theorem map_answers : ∀ {l : List Nat}, (∀ k ∈ l, ∃ r, answer k = .ok r) →
    l.map answer = (l.filterMap fun k => (answer k).toOption).map .ok
  | [], _ => rfl
  | k :: l, h => by
    obtain ⟨r, hr⟩ := h k List.mem_cons_self
    have hl := map_answers fun i hi => h i (List.mem_cons_of_mem k hi)
    rw [List.map_cons, hl, hr, List.filterMap_cons_some (b := r) (by rw [hr]; rfl), List.map_cons]

theorem runAll_ok {ranges : List (Nat × Nat)} {order : List Nat} {run : Run ρ κ}
    (hrun : run.settled = none) (hnd : order.Nodup) {result : QueryResult ρ κ}
    (h : (runAll opts make rows answer nChunks ranges order run).settled = some (.ok result)) :
    (∃ rs, (List.range ranges.length).map answer = rs.map .ok ∧ result = mergeResults rs) ∧
    (opts.onProgress → (runAll opts make rows answer nChunks ranges order run).track.rows =
      run.track.rows + (ranges.map fun r => r.2 - r.1).sum) := by
  obtain ⟨hopen, htrack, -⟩ := issue_rest make rows ranges run
  have hnot := settle_not_ok rows opts answer nChunks ranges order
    (ranges.foldl (fun run range => run.issue make rows range) run) (by simp [hopen, hrun])
  unfold runAll at h ⊢
  dsimp only at h ⊢
  cases hs : (order.foldl (fun run k => run.settle opts rows answer nChunks ranges k)
      (ranges.foldl (fun run range => run.issue make rows range) run)).settled with
  | some x =>
    rw [hs] at h
    exact absurd (hs.trans (hs.symm.trans h)) (hnot result)
  | none =>
    obtain ⟨hanswers, hsum⟩ := settle_open ranges order _ hs
    rw [hs] at h
    dsimp only at h ⊢
    by_cases hc : (List.range ranges.length).all (· ∈ order)
    · have hall : ∀ k < ranges.length, k ∈ order := by
        intro k hk
        simpa using List.all_eq_true.mp hc k (List.mem_range.mpr hk)
      rw [if_pos hc] at h ⊢
      cases Except.ok.inj (Option.some.inj h)
      refine ⟨⟨_, map_answers fun k hk => ?_, rfl⟩, fun hp => ?_⟩
      · have hlt := List.mem_range.mp hk
        exact hanswers k (hall k hlt) hlt
      · dsimp only
        rw [hsum hp, htrack, sizes_sum hnd hall]
    · rw [if_neg hc, hs] at h
      cases h

/-! ### Progress -/

/-- The reports go up to what is tracked. -/
structure Steady (run : Run ρ κ) : Prop where
  pairwise : run.reports.Pairwise fun p q => p.rows ≤ q.rows
  below : ∀ p ∈ run.reports, p.rows ≤ run.track.rows
  last : (run.reports.getLast?.map (·.rows)).getD 0 = run.track.rows

theorem Steady.of_eq {run run' : Run ρ κ} (h : Steady run) (hreports : run'.reports = run.reports)
    (htrack : run'.track = run.track) : Steady run' := by
  refine ⟨?_, ?_, ?_⟩
  · rw [hreports]
    exact h.pairwise
  · rw [hreports, htrack]
    exact h.below
  · rw [hreports, htrack]
    exact h.last

theorem Steady.report {run : Run ρ κ} (h : Steady run) (totalRows chunkRows : Nat)
    (r : QueryResult ρ κ) (chunks : Nat) :
    Steady (run.report opts totalRows chunkRows r chunks) := by
  unfold Run.report
  split
  · refine ⟨?_, ?_, ?_⟩
    · rw [List.pairwise_append]
      refine ⟨h.pairwise, List.pairwise_singleton _ _, fun p hp q hq => ?_⟩
      cases List.mem_singleton.mp hq
      exact Nat.le_trans (h.below p hp) (Nat.le_add_right _ _)
    · intro p hp
      rcases List.mem_append.mp hp with hp | hp
      · exact Nat.le_trans (h.below p hp) (Nat.le_add_right _ _)
      · cases List.mem_singleton.mp hp
        exact Nat.le_refl _
    · simp
  · exact h

theorem Steady.sequential : ∀ (ranges : List (Nat × Nat)) (k : Nat) (run : Run ρ κ), Steady run →
    Steady (sequential opts make rows answer nChunks ranges k run)
  | [], k, run, h => h.of_eq rfl rfl
  | range :: rest, k, run, h => by
    cases ha : answer k with
    | error e =>
      simp only [Bulk.sequential, ha]
      exact h.of_eq rfl rfl
    | ok r =>
      simp only [Bulk.sequential, ha]
      apply Steady.sequential rest
      apply Steady.report
      exact h.of_eq rfl rfl

theorem Steady.settle (ranges : List (Nat × Nat)) : ∀ (order : List Nat) (run : Run ρ κ),
    Steady run →
      Steady (order.foldl (fun run k => run.settle opts rows answer nChunks ranges k) run)
  | [], _, h => h
  | k :: order, run, h => by
    rw [List.foldl_cons]
    apply Steady.settle ranges order
    rcases settle_cases rows opts answer nChunks ranges run k with
      ⟨-, he⟩ | ⟨range, r', -, -, he⟩ | ⟨e, -, he⟩
    · rw [he]
      exact h
    · rw [he]
      exact h.report _ _ _ _
    · rw [he]
      exact h.of_eq rfl rfl

theorem Steady.runAll (ranges : List (Nat × Nat)) (order : List Nat) {run : Run ρ κ}
    (h : Steady run) : Steady (runAll opts make rows answer nChunks ranges order run) := by
  obtain ⟨-, htrack, hreports⟩ := issue_rest make rows ranges run
  have hsettled : Steady (order.foldl
      (fun run k => run.settle opts rows answer nChunks ranges k)
      (ranges.foldl (fun run range => run.issue make rows range) run)) :=
    Steady.settle ranges order _ (h.of_eq hreports htrack)
  unfold Bulk.runAll
  dsimp only
  split
  · exact hsettled
  · split
    · exact hsettled.of_eq rfl rfl
    · exact hsettled

theorem Steady.ends {run : Run ρ κ} (h : Steady run) {n : Nat} (hn : run.track.rows = n)
    (hpos : 0 < n) : ∃ p, run.reports.getLast? = some p ∧ p.rows = n := by
  have hlast := h.last
  rw [hn] at hlast
  cases hp : run.reports.getLast? with
  | none =>
    rw [hp] at hlast
    exact absurd hlast (Nat.ne_of_lt hpos)
  | some p =>
    rw [hp] at hlast
    exact ⟨p, rfl, hlast⟩

end

end Minipg.Bulk
