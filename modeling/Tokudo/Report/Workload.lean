import Tokudo.Call.Sequential
import Tokudo.Report.Replay
import Tokudo.Seq.Firsts

/-!
# The hits of a workload

A workload is a sequence of calls on one model with an `InMemoryCache`; its replay is the
`replay_report` of the provenances that the calls returned (`model.rs`, `cache/memory.rs`,
`replay.rs`).  The first call that is served under a key is never a hit, whatever the
configuration and the policies; without bound and TTL, and under the default policy, all the others
are.

* `distinct_le_paid`, `paid_le_distinct`   the provider's answers against the keys;
* `workload_replayed`                      **the hit rate that a replay reports is at most
                                           `1 - keys / requests`, and is reached.**
-/

namespace Tokudo
open Effect Seq

variable {L A R M σ ω : Type}

/-- the provider has answered, and the call has returned it -/
def Done.paid (d : Done L A R ω σ) : Bool := (d.provenance?.map fun p => !p.cacheHit).getD false

namespace OptimizedModel
variable (self : OptimizedModel M R) [DispatchModel M L A R]

/-- the key of a call that was served -/
def servedKey (d : Done L A R ω σ) : Option String :=
  match d.outcome.value, self.key.key d.call.ask.request d.call.ask.options with
  | .ok _, .ok k => some k
  | _, _ => none

omit [DispatchModel M L A R] in
theorem servedKey_eq_some {d : Done L A R ω σ} {k : String} : self.servedKey d = some k ↔
    ∃ n, d.outcome.value = .ok n ∧ self.key.key d.call.ask.request d.call.ask.options = .ok k := by
  unfold servedKey
  cases d.outcome.value with
  | error e => simp
  | ok n =>
    cases self.key.key d.call.ask.request d.call.ask.options with
    | error e => simp
    | ok k' => simp

omit [DispatchModel M L A R] in
theorem servedKey_of_stored {k : String} {w : Done L A R ω σ}
    {n : NormalizedResponse (CompletionResponse R)} (h : self.Stored k w n) :
    self.servedKey w = some k := by
  obtain ⟨hk, -, hn, -⟩ := h
  exact self.servedKey_eq_some.mpr ⟨n, hn, hk⟩

omit [DispatchModel M L A R] in
theorem paid_iff {d : Done L A R ω σ} :
    d.paid = true ↔ ∃ n, d.outcome.value = .ok n ∧ n.provenance.cacheHit = false := by
  unfold Done.paid Done.provenance?
  cases d.outcome.value with
  | error e => simp
  | ok n => simp

variable [LawfulDispatch M] {config : InMemoryCacheConfig} {s t : Inner}
  {d : Done L A R Clock Inner} {ds : List (Done L A R Clock Inner)}
  {calls : List (Call L A Clock)}

/-- a hit is served under a key that was served before -/
theorem served_before_hit (hserde : self.serde.RoundTrips)
    (h : Run (self.CallStep (InMemoryCache config)) InMemoryCache.init ds s)
    (hd : self.CallStep (InMemoryCache config) s d t) {k : String}
    (hk : self.servedKey d = some k) (hit : d.paid = false) : k ∈ ds.filterMap self.servedKey := by
  obtain ⟨n, hn, hkey⟩ := self.servedKey_eq_some.mp hk
  have hhit : n.provenance.cacheHit = true := by
    by_contra hmiss
    rw [paid_iff.mpr ⟨n, hn, Bool.eq_false_of_not_eq_true hmiss⟩] at hit
    cases hit
  obtain ⟨-, k', ds₁, w, ds₂, nw, hkey', rfl, hw, -⟩ := self.hit_source hserde h hd hn hhit
  rw [hkey] at hkey'
  cases hkey'
  exact List.mem_filterMap.mpr
    ⟨w, List.mem_append_right _ List.mem_cons_self, self.servedKey_of_stored hw⟩

/-- **Every key costs an answer**, whatever the bound, the TTL and the policies. -/
theorem distinct_le_paid (hserde : self.serde.RoundTrips)
    (hds : self.runCalls (InMemoryCache config) calls InMemoryCache.init = ds) :
    distinct self.servedKey ds ≤ ds.countP Done.paid := by
  apply distinct_le_countP
  intro xs d ys k hsplit hk hnew
  obtain ⟨hrun, hd⟩ := self.run_of_runCalls (hds.trans hsplit)
  by_contra hit
  exact hnew (self.served_before_hit hserde hrun hd hk (Bool.eq_false_of_not_eq_true hit))

/-! ## without a bound and a TTL -/

/-- what was served under a key was stored, then or before -/
theorem stored_of_served (hserde : self.serde.RoundTrips)
    (h : Run (self.CallStep (InMemoryCache config)) InMemoryCache.init ds s)
    (hdefault : ∀ d ∈ ds, d.call.ask.options.cachePolicy = .default) {k : String}
    (hk : k ∈ ds.filterMap self.servedKey) : ∃ w ∈ ds, ∃ n, self.Stored k w n := by
  obtain ⟨w, hw, hwk⟩ := List.mem_filterMap.mp hk
  obtain ⟨n, hn, hkey⟩ := self.servedKey_eq_some.mp hwk
  cases hit : n.provenance.cacheHit with
  | false =>
    refine ⟨w, hw, n, hkey, ?_, hn, hit⟩
    rw [hdefault w hw]
    exact fun hp => CachePolicy.noConfusion hp
  | true =>
    obtain ⟨xs, ys, rfl⟩ := List.append_of_mem hw
    obtain ⟨u, hrun, hrest⟩ := run_append.mp h
    obtain ⟨v, hd, -⟩ := run_cons.mp hrest
    obtain ⟨-, k', ds₁, w', ds₂, nw, hkey', hxs, hw', -⟩ := self.hit_source hserde hrun hd hn hit
    rw [hkey] at hkey'
    cases hkey'
    refine ⟨w', ?_, nw, hw'⟩
    rw [hxs, List.append_assoc]
    exact List.mem_append_right _ List.mem_cons_self

/-- **And no key costs two**, under the default policy. -/
theorem paid_le_distinct (hserde : self.serde.RoundTrips)
    (hds : self.runCalls (InMemoryCache InMemoryCache.unbounded) calls InMemoryCache.init = ds)
    (hdefault : ∀ d ∈ ds, d.call.ask.options.cachePolicy = .default) :
    ds.countP Done.paid ≤ distinct self.servedKey ds := by
  apply countP_le_distinct
  intro xs d ys hsplit hpaid
  obtain ⟨hrun, hd⟩ := self.run_of_runCalls (hds.trans hsplit)
  obtain ⟨n, hn, hmiss⟩ := paid_iff.mp hpaid
  have htrans := self.transcript_of_callStep hd
  rw [hn] at htrans
  obtain ⟨k, _, _, _, _, hk, -⟩ := self.answer_of_transcript htrans hmiss
  refine ⟨k, self.servedKey_eq_some.mpr ⟨n, hn, hk⟩, fun hold => ?_⟩
  rw [hsplit] at hdefault
  obtain ⟨w, hw, nw, hst⟩ := self.stored_of_served hserde hrun
    (fun d' hd' => hdefault d' (List.mem_append_left _ hd')) hold
  obtain ⟨entry, hentry⟩ := self.contents_of_stored hrun hw hst
  obtain ⟨n', hn', hhit⟩ := self.hit_of_contents hserde hrun hd hk
    (hdefault d (List.mem_append_right _ List.mem_cons_self)) hentry
  rw [hn] at hn'
  cases hn'
  rw [hmiss] at hhit
  cases hhit

end OptimizedModel

/-! ## the replay -/

/-- the rows that are no hits are the answers that were paid for -/
theorem paid_add_routed {ds : List (Done L A R ω σ)} {rows : List ReplayRow}
    (hrows : rows.map ReplayRow.provenance = ds.filterMap Done.provenance?)
    (hlive : ∀ row ∈ rows, Live row.provenance) :
    ds.countP Done.paid + routed .cacheHit rows = rows.length := by
  have hpaid : ds.countP Done.paid =
      (rows.map ReplayRow.provenance).countP fun p => !p.cacheHit := by
    rw [hrows, List.countP_filterMap]
    rfl
  have hrouted : routed .cacheHit rows = rows.countP fun row => row.provenance.cacheHit := by
    apply List.countP_congr
    intro row hrow
    rw [decide_eq_true_eq, hit_iff_of_live (hlive row hrow)]
  have hlen := List.length_eq_countP_add_countP (fun row : ReplayRow => row.provenance.cacheHit)
    (l := rows)
  have hmiss : rows.countP (fun row => decide ¬row.provenance.cacheHit = true) =
      rows.countP ((fun p => !p.cacheHit) ∘ ReplayRow.provenance) := by
    apply List.countP_congr
    intro row _
    simp
  rw [hpaid, hrouted, List.countP_map, hlen, hmiss, Nat.add_comm]

/-- **What a replay of a workload reports.**  The rows have the provenances that the calls of the
workload have returned.  Of the requests, no fewer than there are different keys are no hits: the
hit rate is at most `1 - keys / requests`.  Without bound and TTL, and under the default policy, it is
that. -/
theorem workload_replayed [DispatchModel M L A R] [LawfulDispatch M] (self : OptimizedModel M R)
    (hserde : self.serde.RoundTrips) {config : InMemoryCacheConfig} {calls : List (Call L A Clock)}
    {ds : List (Done L A R Clock Inner)}
    (hds : self.runCalls (InMemoryCache config) calls InMemoryCache.init = ds)
    {rows : List ReplayRow} (hne : rows ≠ []) (hlen : rows.length < 2 ^ 64)
    (hrows : rows.map ReplayRow.provenance = ds.filterMap Done.provenance?)
    (hlive : ∀ row ∈ rows, Live row.provenance) :
    ∃ report, replayReport rows = .ok report ∧ report.savings.tokudo.requests = rows.length ∧
      report.savings.tokudo.cacheHits + distinct self.servedKey ds ≤ rows.length ∧
      report.savings.deltas.cacheHitRate ≤
        1 - (distinct self.servedKey ds : ℚ) / (rows.length : ℚ) ∧
      (config = InMemoryCache.unbounded →
        (∀ d ∈ ds, d.call.ask.options.cachePolicy = .default) →
        report.savings.deltas.cacheHitRate =
          1 - (distinct self.servedKey ds : ℚ) / (rows.length : ℚ)) := by
  have hcounted := counted_of_rows hlen
  have htotal := paid_add_routed hrows hlive
  have hpaid := self.distinct_le_paid hserde hds
  have hpos : (0 : ℚ) < (rows.length : ℚ) := Nat.cast_pos.mpr (List.length_pos_iff.mpr hne)
  have hrate : (replayRows rows).tokudo.cacheHitRate =
      1 - (ds.countP Done.paid : ℚ) / (rows.length : ℚ) := by
    have hcast : (ds.countP Done.paid : ℚ) + (routed .cacheHit rows : ℚ) = rows.length := by
      exact_mod_cast htotal
    unfold RunStats.cacheHitRate
    rw [hcounted.cacheHits, hcounted.requests, if_neg (List.length_pos_iff.mpr hne).ne',
      eq_sub_iff_add_eq, ← add_div, add_comm, hcast, div_self hpos.ne']
  refine ⟨_, replayReport_eq_ok.mpr ⟨hne, rfl⟩, hcounted.requests, ?_, ?_, ?_⟩
  · show (replayRows rows).tokudo.cacheHits + _ ≤ _
    rw [hcounted.cacheHits]
    omega
  · show (replayRows rows).tokudo.cacheHitRate ≤ _
    rw [hrate]
    apply sub_le_sub_left
    apply div_le_div_of_nonneg_right _ hpos.le
    exact_mod_cast hpaid
  · rintro rfl hdefault
    have hpaid' := self.paid_le_distinct hserde hds hdefault
    show (replayRows rows).tokudo.cacheHitRate = _
    rw [hrate, Nat.le_antisymm hpaid' hpaid]

/-! ### two calls of one key -/

/-- one of them is a hit -/
theorem twoRows_replayed : ∃ report, replayReport twoRows = .ok report ∧
    report.savings.deltas.cacheHitRate = 1 / 2 := by
  have hrows : twoRows.map ReplayRow.provenance = twoDone.filterMap Done.provenance? := rfl
  obtain ⟨report, hreport, -, -, -, hrate⟩ := workload_replayed greetModel
    textResponseSerde_roundTrips (show _ = twoDone from rfl) (by decide) (by decide) hrows live_twoRows
  have hdefault : ∀ d ∈ twoDone, d.call.ask.options.cachePolicy = .default := by decide
  have hdistinct : distinct greetModel.servedKey twoDone = 1 := rfl
  have hlen : twoRows.length = 2 := rfl
  refine ⟨report, hreport, ?_⟩
  rw [hrate rfl hdefault, hdistinct, hlen]
  norm_num

end Tokudo
