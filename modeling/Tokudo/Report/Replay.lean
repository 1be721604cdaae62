import Tokudo.Report.Stats
import Tokudo.Report.Quality
import Tokudo.Call.Routing
import Tokudo.Call.Sequential
import Mathlib.Data.List.Induction

/-!
# Replays: what the recorded calls add up to

`replay.rs`.  `replayReport` goes over the rows once; `Replayed` is what it has so far.

* `counted_of_rows`         the counters and the scores of a replay, read off its rows;
* `queries_of_metric`       every metric but the quality scores every row, in their order;
* `hit_iff_of_live`         in the provenance of a call the flag and the route agree on hits;
* `live_replay_consistent`  **so in a replay of calls the counters add up, and agree with the
                            scores.**
-/

namespace Tokudo
open Effect

structure ReplayCallStats where
  promptTokens : Nat := 0
  completionTokens : Nat := 0
  wallMs : Nat := 0
  usd : F64 := 0
  providerCachedInputTokens : Nat := 0
  providerCacheWriteTokens : Nat := 0
  providerCacheUsdDelta : F64 := 0

def ReplayCallStats.accumulateInto (self : ReplayCallStats) (run : RunStats) : RunStats :=
  { run with
    requests := saturatingAdd run.requests 1
    promptTokens := saturatingAdd run.promptTokens self.promptTokens
    completionTokens := saturatingAdd run.completionTokens self.completionTokens
    wallMs := saturatingAdd run.wallMs self.wallMs
    usd := run.usd + self.usd
    providerCachedInputTokens :=
      saturatingAdd run.providerCachedInputTokens self.providerCachedInputTokens
    providerCacheWriteTokens :=
      saturatingAdd run.providerCacheWriteTokens self.providerCacheWriteTokens
    providerCacheUsdDelta := run.providerCacheUsdDelta + self.providerCacheUsdDelta }

structure ReplayRow where
  queryId : String
  baseline : ReplayCallStats
  tokudo : ReplayCallStats
  provenance : Provenance
  baselineOutput : Option String := none
  tokudoOutput : Option String := none

/-- what `replay_report` hands to `MetricReport::from_per_query` of `rig-retrieval-evals`, not that
crate's type: the name of the metric and the scores, each with its query -/
structure MetricReport where
  metric : String
  perQuery : List (String × F64)

structure ReplayReport where
  savings : Report
  metrics : List MetricReport

def accumulateRoute (provenance : Provenance) (run : RunStats) : RunStats :=
  match provenance.routerChoice with
  | .cacheHit => { run with cacheHits := saturatingAdd run.cacheHits 1 }
  | .cheap => { run with cheapCalls := saturatingAdd run.cheapCalls 1 }
  | .strong => { run with strongCalls := saturatingAdd run.strongCalls 1 }
  | .passThrough => { run with strongCalls := saturatingAdd run.strongCalls 1 }

def routeScore (actual expected : RouterChoice) : F64 := if actual = expected then 1 else 0

def savedPct (saved baselineUsd : F64) : F64 :=
  if 0 < baselineUsd then clamp (-1) 1 (saved / baselineUsd) else 0

namespace ReplayRow
variable (row : ReplayRow)

def cacheScore : F64 := if row.provenance.cacheHit then 1 else 0

def saved : F64 :=
  (row.baseline.usd - row.tokudo.usd) -
    (row.tokudo.providerCacheUsdDelta - row.baseline.providerCacheUsdDelta)

/-- the score of the output, if both outputs were recorded -/
def rouge : List (String × F64) :=
  match row.tokudoOutput, row.baselineOutput with
  | some candidate, some reference => [(row.queryId, (rougeL candidate reference).f1)]
  | _, _ => []

end ReplayRow

/-! ## the loop -/

/-- what the loop over the rows has so far -/
structure Replayed where
  baseline : RunStats := default
  tokudo : RunStats := default
  cacheHit : List (String × F64) := []
  cheapRoute : List (String × F64) := []
  strongRoute : List (String × F64) := []
  usdSaved : List (String × F64) := []
  usdSavedPct : List (String × F64) := []
  rouge : List (String × F64) := []

def Replayed.add (s : Replayed) (row : ReplayRow) : Replayed where
  baseline := row.baseline.accumulateInto s.baseline
  tokudo := accumulateRoute row.provenance (row.tokudo.accumulateInto s.tokudo)
  cacheHit := s.cacheHit ++ [(row.queryId, row.cacheScore)]
  cheapRoute := s.cheapRoute ++ [(row.queryId, routeScore row.provenance.routerChoice .cheap)]
  strongRoute := s.strongRoute ++ [(row.queryId, routeScore row.provenance.routerChoice .strong)]
  usdSaved := s.usdSaved ++ [(row.queryId, row.saved)]
  usdSavedPct := s.usdSavedPct ++ [(row.queryId, savedPct row.saved row.baseline.usd)]
  rouge := s.rouge ++ row.rouge

def replayRows (rows : List ReplayRow) : Replayed := rows.foldl Replayed.add {}

def Replayed.qualityScore (s : Replayed) : Option F64 :=
  if s.rouge.isEmpty then none
  else some ((s.rouge.map Prod.snd).sum / (s.rouge.length : ℚ))

def Replayed.metrics (s : Replayed) : List MetricReport :=
  [⟨"tokudo.cache_hit", s.cacheHit⟩, ⟨"tokudo.route.cheap", s.cheapRoute⟩,
    ⟨"tokudo.route.strong", s.strongRoute⟩, ⟨"tokudo.usd_saved", s.usdSaved⟩,
    ⟨"tokudo.usd_saved_pct", s.usdSavedPct⟩] ++
  if s.rouge.isEmpty then [] else [⟨"quality.rouge_l_f1", s.rouge⟩]

def replayReport (rows : List ReplayRow) : Result ReplayReport :=
  if rows.isEmpty then .error (.config "replay requires at least one row")
  else
    let s := replayRows rows
    .ok { savings := .fromRuns s.baseline s.tokudo s.qualityScore
          metrics := s.metrics }

theorem replayRows_append (rows : List ReplayRow) (row : ReplayRow) :
    replayRows (rows ++ [row]) = (replayRows rows).add row := by
  unfold replayRows
  rw [List.foldl_append]
  rfl

theorem replayReport_eq_ok {rows : List ReplayRow} {report : ReplayReport} :
    replayReport rows = .ok report ↔ rows ≠ [] ∧
      report = ⟨.fromRuns (replayRows rows).baseline (replayRows rows).tokudo
        (replayRows rows).qualityScore, (replayRows rows).metrics⟩ := by
  unfold replayReport
  cases rows with
  | nil => simp
  | cons row rows =>
    rw [if_neg (by simp)]
    constructor
    · intro h
      exact ⟨List.cons_ne_nil _ _, (Except.ok.inj h).symm⟩
    · rintro ⟨-, rfl⟩
      rfl

/-! ## counters -/

/-- the rows with this route -/
def routed (choice : RouterChoice) (rows : List ReplayRow) : Nat :=
  rows.countP fun row => row.provenance.routerChoice = choice

/-- the counters and scores of a replay -/
structure Counted (rows : List ReplayRow) (s : Replayed) : Prop where
  requests : s.tokudo.requests = rows.length
  cacheHits : s.tokudo.cacheHits = routed .cacheHit rows
  cheapCalls : s.tokudo.cheapCalls = routed .cheap rows
  strongCalls : s.tokudo.strongCalls = routed .strong rows + routed .passThrough rows
  hitScores : s.cacheHit = rows.map fun row => (row.queryId, row.cacheScore)
  cheapScores : s.cheapRoute =
    rows.map fun row => (row.queryId, routeScore row.provenance.routerChoice .cheap)

theorem saturatingAdd_of_le {a b : Nat} (h : a + b ≤ u64Max) : saturatingAdd a b = a + b :=
  Nat.min_eq_left h

theorem routed_append (choice : RouterChoice) (rows : List ReplayRow) (row : ReplayRow) :
    routed choice (rows ++ [row]) =
      routed choice rows + if row.provenance.routerChoice = choice then 1 else 0 := by
  unfold routed
  rw [List.countP_append, List.countP_singleton]
  simp

/-- every row has one route -/
theorem routed_sum (rows : List ReplayRow) :
    routed .cacheHit rows + routed .cheap rows + (routed .strong rows + routed .passThrough rows) =
      rows.length := by
  induction rows using List.reverseRecOn with
  | nil => rfl
  | append_singleton rows row ih =>
    rw [routed_append, routed_append, routed_append, routed_append, List.length_append]
    cases row.provenance.routerChoice <;> simp <;> omega

theorem Counted.add {rows : List ReplayRow} {s : Replayed} (h : Counted rows s)
    (hlen : rows.length < u64Max) (row : ReplayRow) : Counted (rows ++ [row]) (s.add row) := by
  obtain ⟨hreq, hhits, hcheap, hstrong, hscores, hcheaps⟩ := h
  have hsum := routed_sum rows
  have hone : ∀ {n : Nat}, n ≤ rows.length → saturatingAdd n 1 = n + 1 := by
    intro n hn
    exact saturatingAdd_of_le (by omega)
  have hreq' : saturatingAdd rows.length 1 = rows.length + 1 := hone (le_refl _)
  have hhits' := hone (n := routed .cacheHit rows) (by omega)
  have hcheap' := hone (n := routed .cheap rows) (by omega)
  have hstrong' := hone (n := routed .strong rows + routed .passThrough rows) (by omega)
  constructor
  case hitScores => simp [Replayed.add, hscores]
  case cheapScores => simp [Replayed.add, hcheaps]
  all_goals
    simp only [Replayed.add, accumulateRoute, ReplayCallStats.accumulateInto, routed_append,
      List.length_append, List.length_singleton]
    cases row.provenance.routerChoice <;>
      simp [hreq, hhits, hcheap, hstrong, hreq', hhits', hcheap', hstrong'] <;> omega

/-- **The counters and scores of a replay**, of fewer than `2^64` rows. -/
theorem counted_of_rows {rows : List ReplayRow} (hlen : rows.length < 2 ^ 64) :
    Counted rows (replayRows rows) := by
  induction rows using List.reverseRecOn with
  | nil => exact ⟨rfl, rfl, rfl, rfl, rfl, rfl⟩
  | append_singleton rows row ih =>
    have hlen' : rows.length < u64Max := by
      rw [List.length_append, List.length_singleton] at hlen
      unfold u64Max
      omega
    rw [replayRows_append]
    exact (ih (by unfold u64Max at hlen'; omega)).add hlen' row

/-- the metrics that score every row -/
def Replayed.rowScores (s : Replayed) : List (List (String × F64)) :=
  [s.cacheHit, s.cheapRoute, s.strongRoute, s.usdSaved, s.usdSavedPct]

theorem queries_of_rowScores (rows : List ReplayRow) :
    ∀ scores ∈ (replayRows rows).rowScores, scores.map Prod.fst = rows.map ReplayRow.queryId := by
  induction rows using List.reverseRecOn with
  | nil => simp [replayRows, Replayed.rowScores]
  | append_singleton rows row ih =>
    rw [replayRows_append]
    simp only [Replayed.rowScores, List.forall_mem_cons] at ih ⊢
    obtain ⟨hhit, hcheap, hstrong, husd, hpct, -⟩ := ih
    simp [Replayed.add, hhit, hcheap, hstrong, husd, hpct]

/-- **Every metric but the quality has one score for every row**, in their order. -/
theorem queries_of_metric {rows : List ReplayRow} {m : MetricReport}
    (hm : m ∈ (replayRows rows).metrics) (hquality : m.metric ≠ "quality.rouge_l_f1") :
    m.perQuery.map Prod.fst = rows.map ReplayRow.queryId := by
  refine queries_of_rowScores rows _ ?_
  unfold Replayed.metrics at hm
  rcases List.mem_append.mp hm with hm | hm
  · simp only [List.mem_cons, List.not_mem_nil, or_false] at hm
    rcases hm with rfl | rfl | rfl | rfl | rfl <;> simp [Replayed.rowScores]
  · split at hm
    · cases hm
    · rw [List.mem_singleton.mp hm] at hquality
      exact absurd rfl hquality

/-! ## replays of calls -/

/-- the provenance of a call that returned `Ok`, with a shipped router and dispatcher -/
inductive Live : Provenance → Prop where
  | plain {R : Type} (self : OptimizedModel (PlainModel R) R) (router : ShippedRouter)
      (hrouter : self.router = router.toRouter) {request : CompletionRequest}
      {options : TokudoOptions} {es : List (Event (Eff Unit (Completion R)))}
      {n : NormalizedResponse (CompletionResponse R)}
      (h : Does (self.complete request options) es (.ok n)) : Live n.provenance
  | cascade {R : Type} (self : OptimizedModel (StaticCascade R) R) (router : ShippedRouter)
      (hrouter : self.router = router.toRouter) {request : CompletionRequest}
      {options : TokudoOptions} {es : List (Event (Eff Leg (Completion R)))}
      {n : NormalizedResponse (CompletionResponse R)}
      (h : Does (self.complete request options) es (.ok n)) : Live n.provenance

/-- the provenance that the call has returned -/
def Done.provenance? {L A R ω σ : Type} (d : Done L A R ω σ) : Option Provenance :=
  match d.outcome.value with
  | .ok n => some n.provenance
  | .error _ => none

/-- no shipped router answers `CacheHit` -/
theorem ShippedRouter.hint_ne_cacheHit {M R : Type} {self : OptimizedModel M R}
    {router : ShippedRouter} (hrouter : self.router = router.toRouter)
    (request : CompletionRequest) (options : TokudoOptions) :
    self.hint request options ≠ .cacheHit := by
  unfold OptimizedModel.hint
  rw [hrouter]
  intro h
  cases hb : options.bypassRouter with
  | true =>
    rw [hb, if_pos rfl] at h
    cases h
  | false =>
    rw [hb, if_neg Bool.false_ne_true] at h
    by_cases hex : router.examples = []
    · rw [ShippedRouter.route_of_nil hex] at h
      cases h
    · rcases ShippedRouter.route_of_examples hex request options with hr | hr <;>
        rw [hr] at h <;> cases h

/-- **In the provenance of a call the flag and the route agree on hits.** -/
theorem hit_iff_of_live {p : Provenance} (h : Live p) :
    p.cacheHit = true ↔ p.routerChoice = .cacheHit := by
  cases h with
  | @plain R self router hrouter request options es n h =>
    rcases self.lastAnswer_of_transcript (self.transcript_of_does h) with
      ⟨hhit, hroute, -⟩ | ⟨hmiss, -, req, ds, outcome, hd, -, -, hroute⟩
    · exact ⟨fun _ => hroute, fun _ => hhit⟩
    · rw [hmiss, hroute]
      rcases does_plainModel.mp hd with ⟨e, -, hb⟩ | ⟨resp, -, hb⟩
      · cases hb
      · cases hb
        constructor
        · intro h
          cases h
        · intro h
          exact absurd h (ShippedRouter.hint_ne_cacheHit hrouter req options)
  | @cascade R self router hrouter request options es n h =>
    rcases self.lastAnswer_of_transcript (self.transcript_of_does h) with
      ⟨hhit, hroute, -⟩ | ⟨hmiss, -, req, ds, outcome, hd, -, -, hroute⟩
    · exact ⟨fun _ => hroute, fun _ => hhit⟩
    · obtain ⟨leg, -, hr⟩ :=
        StaticCascade.lastAnswer_of_legs (StaticCascade.legs_of_dispatch _ hd)
      rw [hmiss, hroute, hr]
      constructor
      · intro h
        cases h
      · intro h
        cases leg <;> cases h

/-- how many queries score 1 in a metric -/
def ReplayReport.ones (report : ReplayReport) (metric : String) : Nat :=
  ((report.metrics.filter fun m => m.metric = metric).flatMap MetricReport.perQuery).countP
    fun score => score.2 = 1

theorem ones_cacheHit (rows : List ReplayRow) (savings : Report) :
    (⟨savings, (replayRows rows).metrics⟩ : ReplayReport).ones "tokudo.cache_hit" =
      (replayRows rows).cacheHit.countP fun score => score.2 = 1 := by
  unfold ReplayReport.ones Replayed.metrics
  split <;> simp

theorem ones_cheapRoute (rows : List ReplayRow) (savings : Report) :
    (⟨savings, (replayRows rows).metrics⟩ : ReplayReport).ones "tokudo.route.cheap" =
      (replayRows rows).cheapRoute.countP fun score => score.2 = 1 := by
  unfold ReplayReport.ones Replayed.metrics
  split <;> simp

/-- **Live provenance and replay counters agree.**  A replay of calls either has no rows, and is
refused, or: every row is a request, and has one score in every metric but the quality; the hits,
cheap calls and strong calls add up to the requests; the hits and the cheap calls are the rows that
score 1 in their metrics; and both rates are fractions. -/
theorem live_replay_consistent (rows : List ReplayRow) (hlen : rows.length < 2 ^ 64)
    (hlive : ∀ row ∈ rows, Live row.provenance) :
    (rows = [] ∧ replayReport rows = .error (.config "replay requires at least one row")) ∨
    ∃ report, replayReport rows = .ok report ∧
      report.savings.tokudo.requests = rows.length ∧
      (∀ m ∈ report.metrics, m.metric ≠ "quality.rouge_l_f1" →
        m.perQuery.map Prod.fst = rows.map ReplayRow.queryId) ∧
      report.savings.tokudo.cacheHits + report.savings.tokudo.cheapCalls +
        report.savings.tokudo.strongCalls = report.savings.tokudo.requests ∧
      report.savings.tokudo.cacheHits = report.ones "tokudo.cache_hit" ∧
      report.savings.tokudo.cheapCalls = report.ones "tokudo.route.cheap" ∧
      0 ≤ report.savings.tokudo.cacheHitRate ∧ report.savings.tokudo.cacheHitRate ≤ 1 ∧
      0 ≤ report.savings.tokudo.cheapShare ∧ report.savings.tokudo.cheapShare ≤ 1 := by
  by_cases hne : rows = []
  · left
    rw [hne]
    exact ⟨rfl, rfl⟩
  right
  have hcounted := counted_of_rows hlen
  have hsum := routed_sum rows
  have htotal : (replayRows rows).tokudo.cacheHits + (replayRows rows).tokudo.cheapCalls +
      (replayRows rows).tokudo.strongCalls = (replayRows rows).tokudo.requests := by
    rw [hcounted.cacheHits, hcounted.cheapCalls, hcounted.strongCalls, hcounted.requests]
    exact hsum
  refine ⟨_, replayReport_eq_ok.mpr ⟨hne, rfl⟩, hcounted.requests,
    fun m hm hquality => queries_of_metric hm hquality, htotal, ?_, ?_, ?_⟩
  · rw [ones_cacheHit, hcounted.hitScores, List.countP_map]
    show (replayRows rows).tokudo.cacheHits = _
    rw [hcounted.cacheHits]
    apply List.countP_congr
    intro row hm
    have hscore : row.cacheScore = 1 ↔ row.provenance.cacheHit = true := by
      unfold ReplayRow.cacheScore
      split <;> simp [*]
    simp [hscore, hit_iff_of_live (hlive row hm)]
  · rw [ones_cheapRoute, hcounted.cheapScores, List.countP_map]
    show (replayRows rows).tokudo.cheapCalls = _
    rw [hcounted.cheapCalls]
    apply List.countP_congr
    intro row hm
    simp [routeScore]
  · show 0 ≤ (replayRows rows).tokudo.cacheHitRate ∧ _
    have hhits : (replayRows rows).tokudo.cacheHits ≤ (replayRows rows).tokudo.requests := by
      omega
    have hcheap : (replayRows rows).tokudo.cacheHits + (replayRows rows).tokudo.cheapCalls ≤
        (replayRows rows).tokudo.requests := by
      omega
    obtain ⟨h₁, h₂⟩ := RunStats.cacheHitRate_mem hhits
    obtain ⟨h₃, h₄⟩ := RunStats.cheapShare_mem hcheap
    exact ⟨h₁, h₂, h₃, h₄⟩

/-! ### three calls -/

def greetModel : OptimizedModel (PlainModel String) String :=
  textModel PlainModel.mk preambleKey AcceptAllValidator

/-- two calls of one key -/
def twoCalls : List (Call Unit (Completion String) Clock) :=
  [⟨⟨promptRequest "hi", {}⟩, ⟨0, 0⟩, greets⟩, ⟨⟨promptRequest "ho", {}⟩, ⟨5, 5⟩, greets⟩]

def twoDone : List (Done Unit (Completion String) String Clock Inner) :=
  greetModel.runCalls (InMemoryCache InMemoryCache.unbounded) twoCalls InMemoryCache.init

def bareRow (provenance : Provenance) : ReplayRow :=
  { queryId := "q", baseline := {}, tokudo := {}, provenance := provenance }

/-- what they have returned: the second is a hit -/
def twoRows : List ReplayRow := (twoDone.filterMap Done.provenance?).map bareRow

theorem live_twoRows : ∀ row ∈ twoRows, Live row.provenance := by
  intro row hrow
  obtain ⟨p, hp, rfl⟩ := List.mem_map.mp hrow
  obtain ⟨d, hd, hdp⟩ := List.mem_filterMap.mp hp
  obtain ⟨xs, ys, hds⟩ := List.append_of_mem hd
  obtain ⟨-, ⟨hperform, -⟩⟩ := greetModel.run_of_runCalls hds
  have hdoes : Does (greetModel.complete d.call.ask.request d.call.ask.options) d.outcome.events
      d.outcome.value := by
    rw [hperform]
    exact Prog.Runs.of_exec _ _ _
  unfold Done.provenance? at hdp
  cases hv : d.outcome.value with
  | error e =>
    rw [hv] at hdp
    cases hdp
  | ok n =>
    rw [hv] at hdp hdoes
    cases hdp
    exact .plain greetModel .passThrough rfl hdoes

/-- a replay of these and of a call over a cascade: a hit, a cheap and a strong call -/
theorem replayed_calls :
    ∃ n report, (freshRun easyCascade {}).value = .ok n ∧
      replayReport (bareRow n.provenance :: twoRows) = .ok report ∧
      report.savings.tokudo.requests = 3 ∧ report.ones "tokudo.cache_hit" = 1 ∧
      report.ones "tokudo.route.cheap" = 1 ∧ report.savings.tokudo.strongCalls = 1 := by
  obtain ⟨n, hn⟩ : ∃ n, (freshRun easyCascade {}).value = .ok n := ⟨_, rfl⟩
  have hrun := does_freshRun easyCascade {}
  rw [hn] at hrun
  have hlive := Live.cascade (advised easyCascade) (.predictive asciiUnicode cautiousRouter) rfl hrun
  have hrows : ∀ row ∈ bareRow n.provenance :: twoRows, Live row.provenance := by
    intro row hrow
    rcases List.mem_cons.mp hrow with rfl | hrow
    · exact hlive
    · exact live_twoRows row hrow
  have hlen : (bareRow n.provenance :: twoRows).length = 3 := rfl
  rcases live_replay_consistent (bareRow n.provenance :: twoRows) (by omega) hrows with
    ⟨hnil, -⟩ | ⟨report, hreport, hrequests, -, hsum, hhits, hcheap, -⟩
  · cases hnil
  · cases hn
    cases hreport
    exact ⟨_, _, rfl, rfl, hrequests, hhits.symm, hcheap.symm, rfl⟩

end Tokudo
