import Tokudo.Call.Accounting
import Tokudo.Call.Sequential

/-!
# Do the events and the provenance of a call tell the same?

A call that returns `Ok` emits one cost event and returns one provenance.  Both tell whether it was
a hit, what it cost, the provider's cached and cache-write tokens and the provider's cache delta.

* `costEvents_of_transcript`   the one cost event of a call: the constant event of a hit, or the one
                               of the answer;
* `agrees_of_answer`           for an answered call the two records agree;
* `agrees_of_hit_iff`          the event of a hit says that nothing was used, while its provenance
                               repeats the usage of the stored response;
* `costEvent_agrees_iff`       **so they agree unless a response is served from the cache that used
                               the provider's cache, or whose model has no price.**
-/

namespace Tokudo
open Effect

variable {L A R M : Type}

/-- a cost event, if the operation emits one -/
def Op.cost : Op L → Option TokudoEvent
  | .emit (.costEstimate hit input output cachedInput cacheWrite total usd delta) =>
    some (.costEstimate hit input output cachedInput cacheWrite total usd delta)
  | _ => none

/-- the cost events of a run, in order -/
def costEvents (es : List (Event (Eff L A))) : List TokudoEvent := es.filterMap fun e => e.op.cost

/-- the five things that both records tell -/
def Agrees (p : Provenance) : TokudoEvent → Prop
  | .costEstimate cacheHit _ _ cachedInput cacheWrite _ usd delta =>
    cacheHit = p.cacheHit ∧ usd = p.usdActualEstimate ∧
      cachedInput = p.providerCachedInputTokens ∧ cacheWrite = p.providerCacheWriteTokens ∧
      delta = p.providerCacheUsdDelta
  | _ => False

/-- the model's name has a price -/
def Priced (catalog : Option Catalog) (model : Option String) : Prop :=
  ∃ c m resolved, catalog = some c ∧ model = some m ∧ resolvePrice c.builtin m = some resolved

/-! ## prices -/

theorem delta_of_unused {catalog : Option Catalog} {model : Option String} {usage : Usage}
    (hread : usage.cachedInputTokens = 0) (hwrite : usage.cacheCreationInputTokens = 0) :
    estimateProviderCacheUsdDelta catalog model usage = some 0 ↔ Priced catalog model := by
  unfold Priced
  cases catalog with
  | none => simp [estimateProviderCacheUsdDelta]
  | some c =>
    cases model with
    | none => simp [estimateProviderCacheUsdDelta]
    | some m =>
      cases hr : resolvePrice c.builtin m with
      | none => simp [estimateProviderCacheUsdDelta, hr]
      | some resolved => simp [estimateProviderCacheUsdDelta, hr, hread, hwrite]

/-! ## the cost events of a call -/

theorem costEvents_append (es fs : List (Event (Eff L A))) :
    costEvents (es ++ fs) = costEvents es ++ costEvents fs := List.filterMap_append

theorem cost_of_quiet {o : Op L} (h : o.quiet = true) : o.cost = none := by
  cases o with
  | emit event => cases event <;> first | rfl | cases h
  | cacheGet k => rfl
  | cachePut k e => rfl
  | callStart leg request => rfl
  | callEnd leg request => rfl

theorem costEvents_of_quiet {es : List (Event (Eff L A))} (h : ∀ e ∈ es, e.op.quiet = true) :
    costEvents es = [] := by
  apply List.filterMap_eq_nil_iff.mpr
  intro e he
  exact cost_of_quiet (h e he)

theorem costEvents_of_reports {es : List (Event (Eff L A))} (h : ∀ e ∈ es, e.op.reports = true) :
    costEvents es = [] :=
  costEvents_of_quiet fun e he => quiet_of_reports (h e he)

/-- a dispatcher leaves the cost events to the decorator -/
class SilentDispatch (M : Type) {L A R : outParam Type} [DispatchModel M L A R] : Prop where
  silent : ∀ {m : M} {request : CompletionRequest} {es : List (Event (Eff L A))}
    {b : Result (DispatchOutcome R)}, Does (DispatchModel.dispatch m request) es b →
      costEvents es = []

instance : SilentDispatch (Dispatcher R) where
  silent h := by
    rw [does_dispatcher.mp h]
    rfl

instance : SilentDispatch (PlainModel R) where
  silent h := by
    rcases does_plainModel.mp h with ⟨e, rfl, -⟩ | ⟨resp, rfl, -⟩ <;> rfl

instance : SilentDispatch (StaticCascade R) where
  silent h := by
    cases StaticCascade.legs_of_dispatch _ h <;> rfl

namespace OptimizedModel
variable (self : OptimizedModel M R)

theorem agrees_withLineage {p : Provenance} {edge : Sha256Hex → LineageEdge} {event : TokudoEvent} :
    Agrees (self.withLineage p edge) event ↔ Agrees p event := by
  unfold withLineage
  cases self.lineage <;> exact Iff.rfl

/-- **The records of an answered call agree.** -/
theorem agrees_of_answer (modelName : Option String) (k : String) (ratio : Option F32)
    (choice : RouterChoice) (resp : CompletionResponse R) :
    Agrees (self.callResponse modelName k ratio choice resp).provenance
      (self.costEvent modelName resp) := by
  unfold callResponse
  rw [agrees_withLineage]
  exact ⟨rfl, rfl, rfl, rfl, rfl⟩

/-- **The records of a hit** agree if the stored response has not used the provider's cache and the
model has a price. -/
theorem agrees_of_hit_iff (modelName : Option String) (k : String) (entry : CachedEntry)
    (cached : CachedCompletionResponse R) :
    Agrees (self.hitResponse modelName k entry cached).provenance hitCostEvent ↔
      cached.usage.cachedInputTokens = 0 ∧ cached.usage.cacheCreationInputTokens = 0 ∧
        Priced self.catalog modelName := by
  unfold hitResponse
  rw [agrees_withLineage]
  constructor
  · rintro ⟨-, -, hread, hwrite, hdelta⟩
    have hread : cached.usage.cachedInputTokens = 0 := hread.symm
    have hwrite : cached.usage.cacheCreationInputTokens = 0 := hwrite.symm
    exact ⟨hread, hwrite, (delta_of_unused hread hwrite).mp hdelta.symm⟩
  · rintro ⟨hread, hwrite, hprice⟩
    exact ⟨rfl, rfl, hread.symm, hwrite.symm, ((delta_of_unused hread hwrite).mpr hprice).symm⟩

variable [DispatchModel M L A R]

/-- **The one cost event of a call that returns `Ok`.** -/
theorem costEvents_of_transcript [SilentDispatch M] {request : CompletionRequest}
    {options : TokudoOptions} {es : List (Event (Eff L A))}
    {n : NormalizedResponse (CompletionResponse R)}
    (h : self.Transcript request options es (.ok n)) :
    (∃ k entry cached, evGet k (.ok (some entry)) ∈ es ∧ self.decodeEntry entry = .ok cached ∧
      costEvents es = [hitCostEvent] ∧ n = self.hitResponse request.model k entry cached) ∨
    (n.provenance.cacheHit = false ∧ ∃ k ratio choice resp,
      costEvents es = [self.costEvent request.model resp] ∧
        n = self.callResponse request.model k ratio choice resp) := by
  rcases self.served_or_answered h with
    ⟨k, entry, cached, -, -, hd, rfl, rfl⟩ | ⟨k, stats, req, ds, fs, outcome, -, -, hd, he, rfl, rfl⟩
  · refine .inl ⟨k, entry, cached, List.mem_cons_self, hd, ?_, rfl⟩
    have hlineage := costEvents_of_reports (self.reports_lineageEvents (L := L) (A := A)
      (hitEdge request.model k entry cached))
    show costEvents ([evGet k (.ok (some entry))] ++ ([evEmit (.cacheHit k entry.sourceId
      entry.similarity), evEmit hitCostEvent] ++ self.lineageEvents _)) = _
    rw [costEvents_append, costEvents_append, hlineage]
    rfl
  · refine .inr ⟨self.withLineage_cacheHit _ _, k, _, _, outcome.response, ?_, rfl⟩
    have hmiss := costEvents_of_quiet (quiet_missEvents (L := L) (A := A) options k)
    have hcompress := costEvents_of_reports (reports_compressEvents (L := L) (A := A) stats)
    have hroute := costEvents_of_reports (self.reports_routeEvents (L := L) (A := A) req options)
    have hdispatch := SilentDispatch.silent hd
    have hending := costEvents_of_quiet (self.quiet_ending he)
    have hlineage := costEvents_of_reports (self.reports_lineageEvents (L := L) (A := A)
      (callEdge request.model k (outcome.route.getD (self.hint req options)) outcome.response))
    rw [costEvents_append, costEvents_append, costEvents_append, costEvents_append,
      costEvents_append, hmiss, hcompress, hroute, hdispatch, hending, callEvents,
      costEvents_append, hlineage]
    rfl

/-- **When the cost event and the provenance of a call agree.**  A call that returns `Ok` emits one
cost event.  It agrees with the provenance unless the call is served an entry whose response has
used the provider's cache, or whose cost cannot be estimated because the model has no price. -/
theorem costEvent_agrees_iff [SilentDispatch M] [LawfulDispatch M] {request : CompletionRequest}
    {options : TokudoOptions} {es : List (Event (Eff L A))}
    {n : NormalizedResponse (CompletionResponse R)}
    (h : Does (self.complete request options) es (.ok n)) :
    ∃ event, costEvents es = [event] ∧
      (Agrees n.provenance event ↔ ∀ k entry cached, evGet k (.ok (some entry)) ∈ es →
        self.decodeEntry entry = .ok cached → cached.usage.cachedInputTokens = 0 ∧
          cached.usage.cacheCreationInputTokens = 0 ∧ Priced self.catalog request.model) := by
  have htrans := self.transcript_of_does h
  rcases self.costEvents_of_transcript htrans with
    ⟨k, entry, cached, hm, hd, hcost, rfl⟩ | ⟨hmiss, k, ratio, choice, resp, hcost, hn⟩
  · refine ⟨_, hcost, ?_⟩
    rw [self.agrees_of_hit_iff]
    constructor
    · intro hused k' entry' cached' hm' hd'
      obtain ⟨rest, hhead⟩ := self.head_of_found htrans hm
      obtain ⟨rest', hhead'⟩ := self.head_of_found htrans hm'
      obtain ⟨hev, -⟩ := List.cons.inj (hhead.symm.trans hhead')
      cases hev
      rw [hd] at hd'
      cases hd'
      exact hused
    · intro hall
      exact hall k entry cached hm hd
  · refine ⟨_, hcost, ?_⟩
    constructor
    · intro _ k' entry cached hm _
      obtain ⟨cached', -, hn'⟩ := self.hit_of_found htrans hm
      rw [hn', hitResponse, withLineage_cacheHit] at hmiss
      cases hmiss
    · intro _
      rw [hn]
      exact self.agrees_of_answer request.model k ratio choice resp

end OptimizedModel

/-! ## two calls -/

/-- a plain model that answers at a cost of 10 input tokens, 4 of them from the provider's cache -/
def discountedCall : Call Unit (Completion String) Clock :=
  ⟨⟨promptRequest "hi", {}⟩, ⟨0, 0⟩, fun _ _ => .ok (textResponse "hello" ⟨10, 5, 15, 4, 0, 0⟩)⟩

abbrev plainTextModel : OptimizedModel (PlainModel String) String :=
  textModel PlainModel.mk preambleKey AcceptAllValidator

/-- an answered call: its records agree -/
theorem answered_call_agrees :
    ∃ n event, Does (plainTextModel.complete (promptRequest "hi") {})
        (plainTextModel.perform (InMemoryCache default) discountedCall
          InMemoryCache.init).outcome.events (.ok n) ∧
      n.provenance.providerCachedInputTokens = 4 ∧ Agrees n.provenance event := by
  let d := plainTextModel.perform (InMemoryCache default) discountedCall InMemoryCache.init
  have hrun : Does (plainTextModel.complete (promptRequest "hi") {}) d.outcome.events
      d.outcome.value := Prog.Runs.of_exec _ _ _
  obtain ⟨event, -, hagree⟩ := plainTextModel.costEvent_agrees_iff hrun
  refine ⟨_, event, hrun, rfl, hagree.mpr fun k entry cached hm hd => ?_⟩
  obtain ⟨cached', -, hn⟩ := plainTextModel.hit_of_found (plainTextModel.transcript_of_does hrun) hm
  have hhit := congrArg (fun n => n.provenance.cacheHit) hn
  cases hhit

/-- **A hit tells two stories**: the event says that no cached input was used and gives a delta of
zero, the provenance tells of 4 cached tokens and of no delta. -/
theorem hit_disagrees :
    ∃ d₁ d₂ n event, plainTextModel.runCalls (InMemoryCache default)
        [discountedCall, discountedCall] InMemoryCache.init = [d₁, d₂] ∧
      d₂.outcome.value = .ok n ∧ costEvents d₂.outcome.events = [event] ∧
      n.provenance.providerCachedInputTokens = 4 ∧ n.provenance.providerCacheUsdDelta = none ∧
      ¬ Agrees n.provenance event := by
  refine ⟨_, _, _, _, rfl, rfl, rfl, rfl, rfl, ?_⟩
  rintro ⟨-, -, hread, -, -⟩
  cases hread

end Tokudo
