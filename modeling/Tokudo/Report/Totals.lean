import Tokudo.Report.Savings

/-!
# Replays: the totals, in any order of the rows

`replay.rs`.  A total of a run is a sum over its calls, up to the maximum of a `u64`, whenever the
counter reached it.  The savings are computed twice: for each row, and from the two runs.

* `totals_of_rows`   the counters of the two runs of a replay;
* `usdSaved_of_rows` the savings of the runs are the sum of those of the rows;
* `quality_of_rows`  the quality of a replay is the mean over the rows with both outputs;
* `replay_totals`    **so none of these depends on the order of the rows.**
-/

namespace Tokudo

/-! ## clamped sums -/

def clampedSum (l : List Nat) : Nat := min l.sum u64Max

theorem clampedSum_snoc (l : List Nat) (a : Nat) :
    saturatingAdd (clampedSum l) a = clampedSum (l ++ [a]) := by
  unfold clampedSum
  rw [saturatingAdd_min, List.sum_append, List.sum_singleton]

theorem clampedSum_perm {l l' : List Nat} (h : l.Perm l') : clampedSum l = clampedSum l' := by
  unfold clampedSum
  rw [h.sum_eq]

/-- the counters of a run are the clamped sums over its calls -/
structure Totals (calls : List ReplayCallStats) (run : RunStats) : Prop where
  requests : run.requests = clampedSum (calls.map fun _ => 1)
  promptTokens : run.promptTokens = clampedSum (calls.map ReplayCallStats.promptTokens)
  completionTokens : run.completionTokens = clampedSum (calls.map ReplayCallStats.completionTokens)
  wallMs : run.wallMs = clampedSum (calls.map ReplayCallStats.wallMs)
  providerCachedInputTokens : run.providerCachedInputTokens =
    clampedSum (calls.map ReplayCallStats.providerCachedInputTokens)
  providerCacheWriteTokens : run.providerCacheWriteTokens =
    clampedSum (calls.map ReplayCallStats.providerCacheWriteTokens)

structure RunStats.SameTotals (run run' : RunStats) : Prop where
  requests : run.requests = run'.requests
  promptTokens : run.promptTokens = run'.promptTokens
  completionTokens : run.completionTokens = run'.completionTokens
  wallMs : run.wallMs = run'.wallMs
  providerCachedInputTokens : run.providerCachedInputTokens = run'.providerCachedInputTokens
  providerCacheWriteTokens : run.providerCacheWriteTokens = run'.providerCacheWriteTokens

section
variable {calls calls' : List ReplayCallStats} {run run' : RunStats}

theorem totals_nil : Totals [] default := ⟨rfl, rfl, rfl, rfl, rfl, rfl⟩

theorem Totals.accumulate (h : Totals calls run) (stats : ReplayCallStats) :
    Totals (calls ++ [stats]) (stats.accumulateInto run) := by
  unfold ReplayCallStats.accumulateInto
  constructor
  · rw [h.requests, clampedSum_snoc, List.map_append]
    rfl
  · rw [h.promptTokens, clampedSum_snoc, List.map_append]
    rfl
  · rw [h.completionTokens, clampedSum_snoc, List.map_append]
    rfl
  · rw [h.wallMs, clampedSum_snoc, List.map_append]
    rfl
  · rw [h.providerCachedInputTokens, clampedSum_snoc, List.map_append]
    rfl
  · rw [h.providerCacheWriteTokens, clampedSum_snoc, List.map_append]
    rfl

/-- the route counters are not among them -/
theorem Totals.route (h : Totals calls run) (provenance : Provenance) :
    Totals calls (accumulateRoute provenance run) := by
  obtain ⟨h₁, h₂, h₃, h₄, h₅, h₆⟩ := h
  unfold accumulateRoute
  cases provenance.routerChoice with
  | cacheHit => exact ⟨h₁, h₂, h₃, h₄, h₅, h₆⟩
  | cheap => exact ⟨h₁, h₂, h₃, h₄, h₅, h₆⟩
  | strong => exact ⟨h₁, h₂, h₃, h₄, h₅, h₆⟩
  | passThrough => exact ⟨h₁, h₂, h₃, h₄, h₅, h₆⟩

theorem Totals.same_of_perm (h : Totals calls run) (h' : Totals calls' run')
    (hperm : calls.Perm calls') : run.SameTotals run' := by
  have hsum : ∀ f : ReplayCallStats → Nat, clampedSum (calls.map f) = clampedSum (calls'.map f) :=
    fun f => clampedSum_perm (hperm.map f)
  constructor
  · rw [h.requests, h'.requests, hsum]
  · rw [h.promptTokens, h'.promptTokens, hsum]
  · rw [h.completionTokens, h'.completionTokens, hsum]
  · rw [h.wallMs, h'.wallMs, hsum]
  · rw [h.providerCachedInputTokens, h'.providerCachedInputTokens, hsum]
  · rw [h.providerCacheWriteTokens, h'.providerCacheWriteTokens, hsum]

end

/-- **The counters of the two runs of a replay.** -/
theorem totals_of_rows (rows : List ReplayRow) :
    Totals (rows.map ReplayRow.baseline) (replayRows rows).baseline ∧
      Totals (rows.map ReplayRow.tokudo) (replayRows rows).tokudo := by
  induction rows using List.reverseRecOn with
  | nil => exact ⟨totals_nil, totals_nil⟩
  | append_singleton rows row ih =>
    rw [replayRows_append, List.map_append, List.map_append]
    exact ⟨ih.1.accumulate row.baseline, (ih.2.accumulate row.tokudo).route row.provenance⟩

/-! ## savings -/

/-- the scores of a metric -/
def ReplayReport.scores (report : ReplayReport) (metric : String) : List F64 :=
  ((report.metrics.filter fun m => m.metric = metric).flatMap MetricReport.perQuery).map Prod.snd

theorem ReplayRow.saved_eq (row : ReplayRow) :
    row.saved = row.baseline.undiscounted - row.tokudo.undiscounted := by
  unfold ReplayRow.saved ReplayCallStats.undiscounted
  ring

theorem usdSaved_rows (rows : List ReplayRow) :
    (replayRows rows).usdSaved = rows.map fun row => (row.queryId, row.saved) := by
  induction rows using List.reverseRecOn with
  | nil => rfl
  | append_singleton rows row ih =>
    rw [replayRows_append, List.map_append, ← ih]
    rfl

theorem sum_saved (rows : List ReplayRow) :
    (rows.map ReplayRow.saved).sum = (rows.map fun row => row.baseline.undiscounted).sum -
      (rows.map fun row => row.tokudo.undiscounted).sum := by
  induction rows with
  | nil => exact (sub_zero 0).symm
  | cons row rows ih =>
    rw [List.map_cons, List.map_cons, List.map_cons, List.sum_cons, List.sum_cons, List.sum_cons, ih,
      row.saved_eq]
    ring

theorem scores_usdSaved (rows : List ReplayRow) (savings : Report) :
    (⟨savings, (replayRows rows).metrics⟩ : ReplayReport).scores "tokudo.usd_saved" =
      rows.map ReplayRow.saved := by
  have hmap : rows.map ReplayRow.saved = (replayRows rows).usdSaved.map Prod.snd := by
    rw [usdSaved_rows, List.map_map]
    rfl
  rw [hmap]
  unfold ReplayReport.scores Replayed.metrics
  split <;> simp

/-- **The savings of the runs are the sum of those of the rows.** -/
theorem usdSaved_of_rows (rows : List ReplayRow) (qualityScore : Option F64) :
    (Report.fromRuns (replayRows rows).baseline (replayRows rows).tokudo qualityScore).deltas.usdSaved =
      (rows.map ReplayRow.saved).sum := by
  obtain ⟨hbaseline, htokudo⟩ := undiscounted_of_rows rows
  rw [sum_saved, ← hbaseline, ← htokudo]
  exact usdSaved_eq _ _ _

/-! ## quality -/

/-- both outputs, if they were recorded: the one to be scored first -/
def ReplayRow.outputs (row : ReplayRow) : Option (String × String) :=
  match row.tokudoOutput, row.baselineOutput with
  | some candidate, some reference => some (candidate, reference)
  | _, _ => none

/-- the score of a pair of texts -/
def scoreOf (pair : String × String) : F64 := (rougeL pair.1 pair.2).f1

theorem foldl_addScore (pairs : List (String × String)) :
    pairs.foldl addScore (0, 0) =
      (clampedSum (pairs.map fun _ => 1), (pairs.map scoreOf).sum) := by
  induction pairs using List.reverseRecOn with
  | nil => rfl
  | append_singleton pairs pair ih =>
    rw [List.foldl_append, ih, List.map_append, List.map_append, List.sum_append]
    show (saturatingAdd _ 1, _ + scoreOf pair) = _
    rw [clampedSum_snoc, List.map_singleton, List.map_singleton, List.sum_singleton]

theorem clampedSum_ones {l : List (String × String)} (h : l.length < 2 ^ 64) :
    clampedSum (l.map fun _ => 1) = l.length := by
  unfold clampedSum u64Max
  rw [List.map_const', List.sum_replicate_nat, Nat.mul_one]
  omega

theorem meanRougeLF1_eq {pairs : List (String × String)} (h : pairs.length < 2 ^ 64) :
    meanRougeLF1 pairs =
      if pairs.isEmpty then none else some ((pairs.map scoreOf).sum / (pairs.length : ℚ)) := by
  unfold meanRougeLF1
  rw [foldl_addScore, clampedSum_ones h]
  cases pairs with
  | nil => rfl
  | cons pair pairs => rfl

theorem rouge_rows (rows : List ReplayRow) :
    (replayRows rows).rouge.map Prod.snd = (rows.filterMap ReplayRow.outputs).map scoreOf := by
  induction rows using List.reverseRecOn with
  | nil => rfl
  | append_singleton rows row ih =>
    rw [replayRows_append, List.filterMap_append, List.map_append, ← ih]
    show ((replayRows rows).rouge ++ row.rouge).map Prod.snd = _
    rw [List.map_append, List.filterMap_cons, List.filterMap_nil]
    unfold ReplayRow.rouge ReplayRow.outputs
    cases row.tokudoOutput with
    | none => rfl
    | some candidate =>
      cases row.baselineOutput with
      | none => rfl
      | some reference => rfl

/-- the mean over the rows with both outputs -/
theorem qualityScore_eq (rows : List ReplayRow) :
    (replayRows rows).qualityScore =
      if (rows.filterMap ReplayRow.outputs).isEmpty then none
      else some (((rows.filterMap ReplayRow.outputs).map scoreOf).sum /
        ((rows.filterMap ReplayRow.outputs).length : ℚ)) := by
  have hrouge := rouge_rows rows
  have hlen : (replayRows rows).rouge.length = (rows.filterMap ReplayRow.outputs).length := by
    have hmap := congrArg List.length hrouge
    rw [List.length_map, List.length_map] at hmap
    exact hmap
  have hempty : (replayRows rows).rouge.isEmpty = (rows.filterMap ReplayRow.outputs).isEmpty := by
    rw [Bool.eq_iff_iff, List.isEmpty_iff_length_eq_zero, List.isEmpty_iff_length_eq_zero, hlen]
  unfold Replayed.qualityScore
  rw [hempty, hrouge, hlen]

/-! ## main result -/

/-- what the totals of a report have to do with its rows -/
structure ReplayTotals (rows : List ReplayRow) (report : ReplayReport) : Prop where
  baseline : Totals (rows.map ReplayRow.baseline) report.savings.baseline
  tokudo : Totals (rows.map ReplayRow.tokudo) report.savings.tokudo
  usdSaved : report.savings.deltas.usdSaved = (report.scores "tokudo.usd_saved").sum
  /-- a slice has fewer than `2 ^ 64` rows -/
  quality : rows.length < 2 ^ 64 →
    report.savings.deltas.qualityScore = meanRougeLF1 (rows.filterMap ReplayRow.outputs)
  quality_none : report.savings.deltas.qualityScore = none ↔ ∀ row ∈ rows, row.outputs = none

structure ReplayReport.SameTotals (report report' : ReplayReport) : Prop where
  baseline : report.savings.baseline.SameTotals report'.savings.baseline
  tokudo : report.savings.tokudo.SameTotals report'.savings.tokudo
  usdSaved : report.savings.deltas.usdSaved = report'.savings.deltas.usdSaved
  quality : report.savings.deltas.qualityScore = report'.savings.deltas.qualityScore

section
variable {rows rows' : List ReplayRow}

/-- the report of some rows -/
def reportOf (rows : List ReplayRow) : ReplayReport :=
  ⟨.fromRuns (replayRows rows).baseline (replayRows rows).tokudo (replayRows rows).qualityScore,
    (replayRows rows).metrics⟩

variable (rows) in
theorem reportOf_totals : ReplayTotals rows (reportOf rows) where
  baseline := (totals_of_rows rows).1
  tokudo := (totals_of_rows rows).2
  usdSaved := by
    rw [reportOf, scores_usdSaved]
    exact usdSaved_of_rows rows _
  quality hlen := by
    rw [meanRougeLF1_eq (Nat.lt_of_le_of_lt (List.length_filterMap_le _ rows) hlen)]
    exact qualityScore_eq rows
  quality_none := by
    show (replayRows rows).qualityScore = none ↔ _
    rw [qualityScore_eq, ← List.filterMap_eq_nil_iff]
    cases rows.filterMap ReplayRow.outputs with
    | nil => exact iff_of_true rfl rfl
    | cons pair pairs => exact iff_of_false (fun h => by cases h) (List.cons_ne_nil _ _)

theorem reportOf_perm (h : rows.Perm rows') : (reportOf rows).SameTotals (reportOf rows') where
  baseline := (totals_of_rows rows).1.same_of_perm (totals_of_rows rows').1 (h.map _)
  tokudo := (totals_of_rows rows).2.same_of_perm (totals_of_rows rows').2 (h.map _)
  usdSaved := by
    have hsum : (rows.map ReplayRow.saved).sum = (rows'.map ReplayRow.saved).sum :=
      (h.map ReplayRow.saved).sum_eq
    rw [reportOf, reportOf, usdSaved_of_rows, usdSaved_of_rows, hsum]
  quality := by
    show (replayRows rows).qualityScore = (replayRows rows').qualityScore
    have houtputs := h.filterMap ReplayRow.outputs
    have hempty : (rows.filterMap ReplayRow.outputs).isEmpty =
        (rows'.filterMap ReplayRow.outputs).isEmpty := by
      rw [Bool.eq_iff_iff, List.isEmpty_iff_length_eq_zero, List.isEmpty_iff_length_eq_zero,
        houtputs.length_eq]
    rw [qualityScore_eq, qualityScore_eq, hempty, (houtputs.map scoreOf).sum_eq, houtputs.length_eq]

end

/-- **The totals of a replay are the sums over its rows, in any order.** -/
theorem replay_totals (rows : List ReplayRow) (hne : rows ≠ []) :
    ∃ report, replayReport rows = .ok report ∧ ReplayTotals rows report ∧
      ∀ rows' : List ReplayRow, rows.Perm rows' →
        ∃ report', replayReport rows' = .ok report' ∧ report.SameTotals report' := by
  refine ⟨reportOf rows, replayReport_eq_ok.mpr ⟨hne, rfl⟩, reportOf_totals rows, ?_⟩
  intro rows' hperm
  have hne' : rows' ≠ [] := fun hnil => hne (List.perm_nil.mp (hnil ▸ hperm))
  exact ⟨reportOf rows', replayReport_eq_ok.mpr ⟨hne', rfl⟩, reportOf_perm hperm⟩

/-! ### two rows -/

/-- a row with more tokens than fit into one counter with another such row -/
def fullRow (queryId : String) : ReplayRow :=
  { queryId := queryId
    baseline := { promptTokens := u64Max }
    tokudo := {}
    provenance := .passThrough }

theorem full_rows_totals :
    ∃ report, replayReport [fullRow "q1", fullRow "q2"] = .ok report ∧
      report.savings.baseline.promptTokens = u64Max ∧
      ∃ report', replayReport [fullRow "q2", fullRow "q1"] = .ok report' ∧
        report.SameTotals report' := by
  obtain ⟨report, hreport, htotals, hsame⟩ :=
    replay_totals [fullRow "q1", fullRow "q2"] (List.cons_ne_nil _ _)
  refine ⟨report, hreport, ?_, hsame _ (List.Perm.swap _ _ _)⟩
  rw [htotals.baseline.promptTokens]
  rfl

end Tokudo
