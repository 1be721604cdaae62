import Tokudo.Report.Totals

/-!
# The gate on a report

`report.rs`: `Report::evaluate` compares the rates, the savings and the quality of a report with
thresholds; the benchmark fails when one of them is missed.

* `criteria_of_replay`   **what a replay has to contain to pass each criterion**, counted in its rows;
                         one that is all hits has no cheap share and fails any positive threshold for
                         it;
* `allPassed_of_atMost`  lower thresholds are passed by what passes higher ones.
-/

namespace Tokudo

structure Thresholds where
  minUsdSavedPct : F64
  minCacheHitRate : F64
  minCheapModelShare : F64
  minQualityScore : Option F64

instance : Inhabited Thresholds :=
  ⟨{ minUsdSavedPct := 40 / 100, minCacheHitRate := 30 / 100, minCheapModelShare := 50 / 100
     minQualityScore := none }⟩

structure EvaluationOutcome where
  usdSavedPct : Bool
  cacheHitRate : Bool
  cheapShare : Bool
  quality : Bool

def EvaluationOutcome.allPassed (self : EvaluationOutcome) : Bool :=
  self.usdSavedPct && self.cacheHitRate && self.cheapShare && self.quality

def Report.evaluate (self : Report) (thresholds : Thresholds) : EvaluationOutcome where
  usdSavedPct := decide (thresholds.minUsdSavedPct ≤ self.deltas.usdSavedPct)
  cacheHitRate := decide (thresholds.minCacheHitRate ≤ self.deltas.cacheHitRate)
  cheapShare := decide (thresholds.minCheapModelShare ≤ self.deltas.cheapModelShare)
  quality :=
    match self.deltas.qualityScore, thresholds.minQualityScore with
    | some actual, some min => decide (min ≤ actual)
    | none, some _ => false
    | _, _ => true

/-! ## the criteria, for any report -/

section
variable {self : Report} {T T' : Thresholds}

theorem quality_iff : (self.evaluate T).quality = true ↔
    ∀ min, T.minQualityScore = some min → ∃ q, self.deltas.qualityScore = some q ∧ min ≤ q := by
  unfold Report.evaluate
  cases self.deltas.qualityScore <;> cases T.minQualityScore <;> simp

theorem allPassed_iff : (self.evaluate T).allPassed = true ↔
    T.minUsdSavedPct ≤ self.deltas.usdSavedPct ∧ T.minCacheHitRate ≤ self.deltas.cacheHitRate ∧
      T.minCheapModelShare ≤ self.deltas.cheapModelShare ∧
      ∀ min, T.minQualityScore = some min → ∃ q, self.deltas.qualityScore = some q ∧ min ≤ q := by
  rw [← quality_iff]
  show (decide _ && decide _ && decide _ && (self.evaluate T).quality) = true ↔ _
  rw [Bool.and_eq_true, Bool.and_eq_true, Bool.and_eq_true, decide_eq_true_eq, decide_eq_true_eq,
    decide_eq_true_eq, and_assoc, and_assoc]

/-- no threshold is higher -/
structure Thresholds.AtMost (T' T : Thresholds) : Prop where
  minUsdSavedPct : T'.minUsdSavedPct ≤ T.minUsdSavedPct
  minCacheHitRate : T'.minCacheHitRate ≤ T.minCacheHitRate
  minCheapModelShare : T'.minCheapModelShare ≤ T.minCheapModelShare
  minQualityScore : ∀ min', T'.minQualityScore = some min' →
    ∃ min, T.minQualityScore = some min ∧ min' ≤ min

theorem allPassed_of_atMost (h : T'.AtMost T) (hT : (self.evaluate T).allPassed = true) :
    (self.evaluate T').allPassed = true := by
  obtain ⟨husd, hhit, hcheap, hquality⟩ := allPassed_iff.mp hT
  refine allPassed_iff.mpr ⟨h.minUsdSavedPct.trans husd, h.minCacheHitRate.trans hhit,
    h.minCheapModelShare.trans hcheap, ?_⟩
  intro min' hmin'
  obtain ⟨min, hmin, hle⟩ := h.minQualityScore min' hmin'
  obtain ⟨q, hq, hminq⟩ := hquality min hmin
  exact ⟨q, hq, hle.trans hminq⟩

end

/-! ## the criteria, for a replay -/

theorem le_clamp_iff {t q : ℚ} : t ≤ clamp (-1) 1 q ↔ t ≤ -1 ∨ t ≤ 1 ∧ t ≤ q := by
  unfold clamp
  rw [le_max_iff, le_min_iff]

theorem le_fraction_iff {t : ℚ} {part whole : Nat} (h : whole ≠ 0) :
    t ≤ (part : ℚ) / (whole : ℚ) ↔ t * whole ≤ part :=
  le_div_iff₀ (Nat.cast_pos.mpr (Nat.pos_of_ne_zero h))

/-- what the baseline calls have cost -/
def baselineUsd (rows : List ReplayRow) : F64 := (rows.map fun row => row.baseline.usd).sum

/-- what the rows have saved, provider discounts apart -/
def savedUsd (rows : List ReplayRow) : F64 := (rows.map ReplayRow.saved).sum

/-- the pairs of outputs that are scored -/
def scoredOutputs (rows : List ReplayRow) : List (String × String) :=
  rows.filterMap ReplayRow.outputs

theorem usd_baseline (rows : List ReplayRow) :
    (replayRows rows).baseline.usd = baselineUsd rows := by
  unfold baselineUsd
  induction rows using List.reverseRecOn with
  | nil => rfl
  | append_singleton rows row ih =>
    rw [replayRows_append, List.map_append, List.sum_append, ← ih, List.map_singleton,
      List.sum_singleton]
    rfl

theorem usdSavedPct_replay (rows : List ReplayRow) (qualityScore : Option F64) :
    (Report.fromRuns (replayRows rows).baseline (replayRows rows).tokudo
        qualityScore).deltas.usdSavedPct =
      if 0 < baselineUsd rows then clamp (-1) 1 (savedUsd rows / baselineUsd rows) else 0 := by
  have hsaved := usdSaved_of_rows rows qualityScore
  rw [← usd_baseline]
  show (if 0 < (replayRows rows).baseline.usd then clamp (-1) 1 ((Report.fromRuns
    (replayRows rows).baseline (replayRows rows).tokudo qualityScore).deltas.usdSaved /
      (replayRows rows).baseline.usd) else 0) = _
  rw [hsaved]
  rfl

/-- **What the rows have to contain**, criterion by criterion -/
structure Criteria (rows : List ReplayRow) (T : Thresholds) (outcome : EvaluationOutcome) : Prop where
  usdSavedPct : outcome.usdSavedPct = true ↔
    if 0 < baselineUsd rows then T.minUsdSavedPct ≤ -1 ∨
      T.minUsdSavedPct ≤ 1 ∧ T.minUsdSavedPct * baselineUsd rows ≤ savedUsd rows
    else T.minUsdSavedPct ≤ 0
  cacheHitRate : outcome.cacheHitRate = true ↔
    T.minCacheHitRate * rows.length ≤ routed .cacheHit rows
  /-- the share among the requests that are no hits -/
  cheapShare : outcome.cheapShare = true ↔
    if routed .cacheHit rows = rows.length then T.minCheapModelShare ≤ 0
    else T.minCheapModelShare * (rows.length - routed .cacheHit rows : Nat) ≤ routed .cheap rows
  quality : outcome.quality = true ↔ ∀ min, T.minQualityScore = some min →
    scoredOutputs rows ≠ [] ∧
      min * (scoredOutputs rows).length ≤ ((scoredOutputs rows).map scoreOf).sum

/-- **When a replay passes the gate**, and that it then passes every lower one. -/
theorem criteria_of_replay {rows : List ReplayRow} (hlen : rows.length < 2 ^ 64)
    {report : ReplayReport} (h : replayReport rows = .ok report) (T : Thresholds) :
    Criteria rows T (report.savings.evaluate T) ∧
      ∀ T', T'.AtMost T → (report.savings.evaluate T).allPassed = true →
        (report.savings.evaluate T').allPassed = true := by
  obtain ⟨hne, rfl⟩ := replayReport_eq_ok.mp h
  have hcounted := counted_of_rows hlen
  have hsum := routed_sum rows
  have hpos : rows.length ≠ 0 := (List.length_pos_iff.mpr hne).ne'
  refine ⟨⟨?_, ?_, ?_, ?_⟩, fun T' hT' => allPassed_of_atMost hT'⟩
  · show decide (T.minUsdSavedPct ≤ (Report.fromRuns _ _ _).deltas.usdSavedPct) = true ↔ _
    rw [decide_eq_true_eq, usdSavedPct_replay]
    by_cases hbase : 0 < baselineUsd rows
    · rw [if_pos hbase, if_pos hbase, le_clamp_iff, le_div_iff₀ hbase]
    · rw [if_neg hbase, if_neg hbase]
  · show decide (T.minCacheHitRate ≤ (replayRows rows).tokudo.cacheHitRate) = true ↔ _
    unfold RunStats.cacheHitRate
    rw [decide_eq_true_eq, hcounted.requests, hcounted.cacheHits, if_neg hpos, le_fraction_iff hpos]
  · show decide (T.minCheapModelShare ≤ (replayRows rows).tokudo.cheapShare) = true ↔ _
    unfold RunStats.cheapShare
    dsimp only
    rw [decide_eq_true_eq, hcounted.requests, hcounted.cacheHits, hcounted.cheapCalls]
    by_cases hall : routed .cacheHit rows = rows.length
    · rw [if_pos hall, if_pos (by omega)]
    · have hdispatched : rows.length - routed .cacheHit rows ≠ 0 := by omega
      rw [if_neg hall, if_neg hdispatched, le_fraction_iff hdispatched]
  · rw [quality_iff]
    show (∀ min, T.minQualityScore = some min →
      ∃ q, (replayRows rows).qualityScore = some q ∧ min ≤ q) ↔ _
    rw [qualityScore_eq]
    apply forall₂_congr
    intro min hmin
    show (∃ q, (if (scoredOutputs rows).isEmpty then none
      else some (((scoredOutputs rows).map scoreOf).sum / ((scoredOutputs rows).length : ℚ))) =
        some q ∧ min ≤ q) ↔ _
    cases hscored : scoredOutputs rows with
    | nil => simp
    | cons pair pairs =>
      have hcount : (pair :: pairs).length ≠ 0 := Nat.succ_ne_zero _
      rw [if_neg (by simp)]
      constructor
      · rintro ⟨q, hq, hle⟩
        obtain rfl := Option.some.inj hq
        exact ⟨List.cons_ne_nil _ _,
          (le_div_iff₀ (Nat.cast_pos.mpr (Nat.pos_of_ne_zero hcount))).mp hle⟩
      · rintro ⟨-, hle⟩
        exact ⟨_, rfl, (le_div_iff₀ (Nat.cast_pos.mpr (Nat.pos_of_ne_zero hcount))).mpr hle⟩

def hitRow : ReplayRow where
  queryId := "q"
  baseline := {}
  tokudo := {}
  provenance := { Provenance.passThrough with cacheHit := true, routerChoice := .cacheHit }

/-- a replay that is all hits misses the default threshold for the cheap share -/
theorem all_hits_miss : ∃ report, replayReport [hitRow] = .ok report ∧
    (report.savings.evaluate default).cacheHitRate = true ∧
    (report.savings.evaluate default).allPassed = false := by
  have hreport : ∃ report, replayReport [hitRow] = .ok report := ⟨_, rfl⟩
  obtain ⟨report, h⟩ := hreport
  obtain ⟨hcriteria, -⟩ := criteria_of_replay (by decide) h default
  have hhits : routed .cacheHit [hitRow] = 1 := rfl
  have hhalf : (default : Thresholds).minCheapModelShare = 1 / 2 := by
    show (50 / 100 : ℚ) = 1 / 2
    norm_num
  have hcheap : (report.savings.evaluate default).cheapShare = false := by
    apply Bool.eq_false_of_not_eq_true
    rw [hcriteria.cheapShare, hhits, if_pos (show 1 = [hitRow].length from rfl), hhalf]
    norm_num
  refine ⟨report, h, ?_, ?_⟩
  · rw [hcriteria.cacheHitRate, hhits]
    show (30 / 100 : ℚ) * ((1 : Nat) : ℚ) ≤ ((1 : Nat) : ℚ)
    norm_num
  · unfold EvaluationOutcome.allPassed
    rw [hcheap, Bool.and_false, Bool.false_and]

end Tokudo
