import Tokudo.Call.Transparency
import Tokudo.Call.Backends
import Tokudo.Core.KeyFields
import Tokudo.Report.Gate

/-!
# The program that measures a workload

`examples/measure_savings.rs`: the prompts of a workload are answered once by a provider and once by
an `OptimizedModel` of the same provider with an `InMemoryCache`; the report compares the two runs.
Tool calls go under `NoStore`.

* `keyOf_injective`   different prompts have different keys;
* `performed`         **a call of the second run is a hit, or bypasses the cache, or stores what the
                      provider has answered**; none fails.
-/

namespace Tokudo
open Effect

variable {R : Type}

/-! ## the program -/

structure WorkloadItem where
  tags : List String
  prompt : String
  deriving DecidableEq

def WorkloadItem.isToolCall (self : WorkloadItem) : Bool :=
  self.tags.any fun tag => decide (tag = "tool_call")

structure MockProvider where
  model : String
  latencyMs : Nat

/-- tokens are counted as four bytes of text; `historyToString` is `serde_json::to_string` -/
def MockProvider.completion (self : MockProvider)
    (historyToString : OneOrMany Message → Except String String) (request : CompletionRequest) :
    Completion String :=
  let promptChars :=
    match historyToString request.chatHistory with
    | .ok text => text.utf8ByteSize
    | .error _ => 0
  let promptTokens := promptChars / 4
  let reply := "[" ++ self.model ++ "] simulated answer (" ++ toString promptChars ++ " prompt chars)"
  let outputTokens := reply.utf8ByteSize / 4
  .ok {
    choice := .one (.text ⟨reply, .null⟩)
    usage := {
      inputTokens := promptTokens
      outputTokens := outputTokens
      totalTokens := saturatingAdd promptTokens outputTokens
      cachedInputTokens := 0
      cacheCreationInputTokens := 0
      reasoningTokens := 0 }
    messageId := none
    rawResponse := reply }

def buildRequest (model prompt : String) : CompletionRequest where
  model := some model
  preamble := some "You are a helpful assistant."
  chatHistory := .one (.user (.one (.text ⟨prompt, .null⟩)))
  documents := []
  tools := []
  temperature := some (7 / 10)
  maxTokens := some 256
  toolChoice := none
  additionalParams := none
  outputSchema := none

inductive Panic where
  | baselineCompletion (e : CompletionError)
  | tokudoCompletion (e : TokudoError)
  | bypassViolated (hits nonTool : Nat)

/-- the program for any provider: `completion` is what it answers -/
structure Measurement (R : Type) where
  provider : MockProvider
  completion : CompletionRequest → Completion R
  serde : ResponseSerde R
  keys : KeySerde
  catalog : Option Catalog
  lineage : Option Sha256Hex

namespace Measurement
variable (self : Measurement R)

def request (prompt : String) : CompletionRequest := buildRequest self.provider.model prompt

def estimateUsd (usage : Usage) : F64 :=
  (estimateActualUsd self.catalog (some self.provider.model) usage).getD 0

def estimateProviderCacheDelta (usage : Usage) : F64 :=
  (estimateProviderCacheUsdDelta self.catalog (some self.provider.model) usage).getD 0

/-- what both runs count of an answer of the provider; the `u64` counters are taken as unbounded -/
def charge (usage : Usage) (stats : RunStats) : RunStats :=
  { stats with
    promptTokens := stats.promptTokens + usage.inputTokens
    completionTokens := stats.completionTokens + usage.outputTokens
    usd := stats.usd + self.estimateUsd usage
    providerCachedInputTokens := stats.providerCachedInputTokens + usage.cachedInputTokens
    providerCacheWriteTokens := stats.providerCacheWriteTokens + usage.cacheCreationInputTokens
    providerCacheUsdDelta := stats.providerCacheUsdDelta + self.estimateProviderCacheDelta usage
    strongCalls := stats.strongCalls + 1
    wallMs := saturatingAdd stats.wallMs self.provider.latencyMs }

/-- the loop of `run_baseline` -/
def runBaseline : List WorkloadItem → RunStats → Except Panic RunStats
  | [], stats => .ok stats
  | item :: items, stats =>
    match self.completion (self.request item.prompt) with
    | .error e => .error (.baselineCompletion e)
    | .ok resp =>
      runBaseline items (self.charge resp.usage { stats with requests := stats.requests + 1 })

/-- the model that the builder makes -/
def tokudo : OptimizedModel (PlainModel R) R where
  model := PlainModel.mk
  router := PassThroughRouter
  compressor := NoCompressor
  key := DefaultCacheKey self.keys
  validator := AcceptAllValidator
  serde := self.serde
  catalog := self.catalog
  lineage := self.lineage

def options (item : WorkloadItem) : TokudoOptions :=
  if item.isToolCall then { cachePolicy := .noStore } else {}

/-- the call of an item, at some time -/
def call (item : WorkloadItem) (clock : Clock) : Call Unit (Completion R) Clock :=
  ⟨⟨self.request item.prompt, options item⟩, clock, fun _ request => self.completion request⟩

/-- a hit skips the provider and takes a millisecond -/
def addNormalized (n : NormalizedResponse (CompletionResponse R)) (stats : RunStats) : RunStats :=
  let stats := { stats with requests := stats.requests + 1 }
  if n.provenance.cacheHit then
    { stats with cacheHits := stats.cacheHits + 1, wallMs := saturatingAdd stats.wallMs 1 }
  else self.charge n.response.usage stats

/-- the loop of `run_tokudo` -/
def runTokudo : List (WorkloadItem × Clock) → Inner → RunStats → Except Panic RunStats
  | [], _, stats => .ok stats
  | (item, clock) :: items, inner, stats =>
    let d := self.tokudo.perform (InMemoryCache default) (self.call item clock) inner
    match d.outcome.value with
    | .error e => .error (.tokudoCompletion e)
    | .ok n => runTokudo items d.outcome.state (self.addNormalized n stats)

/-- `main`, up to the report: both runs, and `assert_tool_call_bypass` -/
def measureSavings (items : List (WorkloadItem × Clock)) : Except Panic Report := do
  let baseline ← self.runBaseline (items.map Prod.fst) {}
  let tokudo ← self.runTokudo items InMemoryCache.init {}
  let nonTool := (items.map Prod.fst).countP fun item => !item.isToolCall
  if tokudo.cacheHits ≤ nonTool then return Report.fromRuns baseline tokudo none
  else throw (.bypassViolated tokudo.cacheHits nonTool)

end Measurement

def savingsThresholds : Thresholds where
  minUsdSavedPct := 20 / 100
  minCacheHitRate := 25 / 100
  minCheapModelShare := 0
  minQualityScore := none

/-- of `main`, once the artifacts are written; otherwise `main` returns the error -/
def exitCode (report : Report) : Nat :=
  if (report.evaluate savingsThresholds).allPassed then 0 else 1

/-! ## prompts and keys -/

/-- the prompt, if the cache is asked for it -/
def WorkloadItem.asked (self : WorkloadItem) : Option String :=
  if self.isToolCall then none else some self.prompt

namespace Measurement

/-- the serializers do not fail, lose nothing, and no two keys collide -/
structure Lawful (m : Measurement R) : Prop where
  keys : m.keys.Injective
  history : Function.Injective m.keys.chatHistoryToValue
  toVec : ∀ v, ∃ bytes, m.keys.toVec v = .ok bytes
  serde : m.serde.RoundTrips

variable (self : Measurement R)

/-- the provider answers the prompt, and the answer can be serialised -/
def Answers (prompt : String) : Prop :=
  ∃ resp raw value, self.completion (self.request prompt) = .ok resp ∧
    self.serde.rawToValue resp.rawResponse = .ok raw ∧
    self.serde.cachedToValue (.fromBorrowed resp) = .ok value

def keyOf (prompt : String) : String :=
  match (DefaultCacheKey self.keys).key (self.request prompt) {} with
  | .ok k => k
  | .error _ => ""

variable {self}

/-- the policy is not part of the key -/
theorem key_eq (hl : self.Lawful) (item : WorkloadItem) :
    self.tokudo.key.key (self.request item.prompt) (options item) = .ok (self.keyOf item.prompt) := by
  have hkey : (DefaultCacheKey self.keys).key (self.request item.prompt) (options item) =
      (DefaultCacheKey self.keys).key (self.request item.prompt) {} := by
    unfold options
    split <;> rfl
  obtain ⟨bytes, hbytes⟩ := hl.toVec (projection self.keys (self.request item.prompt) {})
  have hok : (DefaultCacheKey self.keys).key (self.request item.prompt) {} =
      .ok (self.keys.sha256Hex bytes) := by
    unfold DefaultCacheKey
    dsimp only
    rw [hbytes]
  show (DefaultCacheKey self.keys).key _ _ = _
  unfold keyOf
  rw [hkey, hok]

theorem keyOf_injective (hl : self.Lawful) : Function.Injective self.keyOf := by
  intro p p' h
  have hp := key_eq hl ⟨[], p⟩
  have hp' := key_eq hl ⟨[], p'⟩
  have hsame := ((key_eq_iff hl.keys hl.history hp hp').mp h).1.chatHistory
  simpa [request, buildRequest, OneOrMany.one] using hsame

theorem prepared_eq (item : WorkloadItem) (request : CompletionRequest) :
    self.tokudo.prepared request (options item) = .ok (none, request) := by
  unfold OptimizedModel.prepared options
  split <;> rfl

theorem policy_of_tool {item : WorkloadItem} (h : item.isToolCall = true) :
    (options item).cachePolicy = .noStore := by
  rw [options, if_pos h]

theorem policy_of_prompt {item : WorkloadItem} (h : item.isToolCall = false) :
    (options item).cachePolicy = .default := by
  rw [options, h]
  rfl

/-! ## one call -/

/-- what is stored was answered to a prompt that was asked before -/
structure Holds (m : Measurement R) (seen : List String) (inner : Inner) : Prop where
  good : InMemoryCache.Good (some 1024) inner
  entries : ∀ k entry, InMemoryCache.contents inner k = some entry →
    ∃ prompt ∈ seen, k = m.keyOf prompt ∧ ∃ resp, m.tokudo.entryOf k resp = .ok entry

/-- a call is a hit, or bypasses the cache, or stores what the provider has answered -/
inductive Performed (m : Measurement R) (item : WorkloadItem) (clock : Clock) (inner : Inner) :
    NormalizedResponse (CompletionResponse R) → Inner → Prop where
  | hit {n : NormalizedResponse (CompletionResponse R)} {entry : CachedEntry}
      (hit : n.provenance.cacheHit = true) (hprompt : item.isToolCall = false)
      (hc : InMemoryCache.contents inner (m.keyOf item.prompt) = some entry) :
      Performed m item clock inner n inner
  | bypassed {n : NormalizedResponse (CompletionResponse R)}
      (miss : n.provenance.cacheHit = false) (htool : item.isToolCall = true)
      (ha : m.completion (m.request item.prompt) = .ok n.response) :
      Performed m item clock inner n inner
  | stored {n : NormalizedResponse (CompletionResponse R)} {entry : CachedEntry}
      (miss : n.provenance.cacheHit = false) (hprompt : item.isToolCall = false)
      (hc : InMemoryCache.contents inner (m.keyOf item.prompt) = none)
      (ha : m.completion (m.request item.prompt) = .ok n.response)
      (he : m.tokudo.entryOf (m.keyOf item.prompt) n.response = .ok entry) :
      Performed m item clock inner n
        (InMemoryCache.put default clock.put (m.keyOf item.prompt) entry inner)

variable {seen : List String} {inner : Inner} {item : WorkloadItem} {clock : Clock}

theorem Holds.undying (h : self.Holds seen inner) : InMemoryCache.Undying inner := by
  intro k entry hk
  obtain ⟨_, -, -, resp, he⟩ := h.entries k entry hk
  exact self.tokudo.undated_of_entryOf he

/-- the call of the item has been performed -/
abbrev done (m : Measurement R) (item : WorkloadItem) (clock : Clock) (inner : Inner) :
    Done Unit (Completion R) R Clock Inner :=
  m.tokudo.perform (InMemoryCache default) (m.call item clock) inner

theorem callStep_done (m : Measurement R) (item : WorkloadItem) (clock : Clock) (inner : Inner) :
    m.tokudo.CallStep (InMemoryCache default) inner (m.done item clock inner)
      (m.done item clock inner).outcome.state := ⟨rfl, rfl⟩

theorem transcript_done (m : Measurement R) (item : WorkloadItem) (clock : Clock) (inner : Inner) :
    m.tokudo.Transcript (m.request item.prompt) (options item)
      (m.done item clock inner).outcome.events (m.done item clock inner).outcome.value :=
  m.tokudo.transcript_of_callStep (m.callStep_done item clock inner)

theorem history_done (m : Measurement R) (item : WorkloadItem) (clock : Clock) (inner : Inner) :
    History (handler (InMemoryCache default clock) fun _ request => m.completion request).object
      inner (m.done item clock inner).outcome.events (m.done item clock inner).outcome.state :=
  m.tokudo.history_of_callStep (m.callStep_done item clock inner)

/-- a read is answered with what is stored -/
theorem read_done (h : self.Holds seen inner) {k : String} {r : Result (Option CachedEntry)}
    {rest : List (Event (Eff Unit (Completion R)))}
    (hes : (self.done item clock inner).outcome.events = evGet k r :: rest) :
    r = .ok (InMemoryCache.contents inner k) := by
  rw [self.tokudo.answer_of_read (self.callStep_done item clock inner) hes,
    InMemoryCache.get_of_undying h.undying]

/-- a dispatch is answered by the provider -/
theorem dispatch_done {ds : List (Event (Eff Unit (Completion R)))} {b : Result (DispatchOutcome R)}
    (hd : Does (DispatchModel.dispatch self.tokudo.model (self.request item.prompt)) ds b)
    (hin : ds ⊆ (self.done item clock inner).outcome.events) {resp : CompletionResponse R}
    (hresp : self.completion (self.request item.prompt) = .ok resp) : b = .ok ⟨resp, none⟩ := by
  have hanswer {a : Completion R} (hm : evEnd () (self.request item.prompt) a ∈ ds) :
      a = .ok resp :=
    (answer_of_history (self.history_done item clock inner) (hin hm)).trans hresp
  rcases does_plainModel.mp hd with ⟨e, rfl, -⟩ | ⟨resp', rfl, rfl⟩
  · cases hanswer (List.mem_cons_of_mem _ (List.mem_singleton.mpr rfl))
  · cases hanswer (List.mem_cons_of_mem _ (List.mem_singleton.mpr rfl))
    rfl

/-- no call fails -/
theorem done_ok (hl : self.Lawful) (h : self.Holds seen inner) (ha : self.Answers item.prompt) :
    ∃ n, (self.done item clock inner).outcome.value = .ok n := by
  obtain ⟨resp, raw, value, hresp, hraw, hvalue⟩ := ha
  have htrans := self.transcript_done item clock inner
  have hist := self.history_done item clock inner
  have hread {k : String} {r : Result (Option CachedEntry)}
      {rest : List (Event (Eff Unit (Completion R)))}
      (hes : (self.done item clock inner).outcome.events = evGet k r :: rest) :
      r = .ok (InMemoryCache.contents inner k) := self.read_done h hes
  have hdispatch {ds : List (Event (Eff Unit (Completion R)))} {b : Result (DispatchOutcome R)}
      (hd : Does (DispatchModel.dispatch self.tokudo.model (self.request item.prompt)) ds b)
      (hin : ds ⊆ (self.done item clock inner).outcome.events) : b = .ok ⟨resp, none⟩ :=
    self.dispatch_done hd hin hresp
  generalize (self.done item clock inner).outcome.value = a at htrans
  generalize (self.done item clock inner).outcome.events = es at htrans hist hread hdispatch
  cases htrans with
  | keyError hk =>
    rw [key_eq hl] at hk
    cases hk
  | readError hk hr => cases hread rfl
  | @undecodable k entry e hk hr hdec =>
    have hfound : InMemoryCache.contents inner k = some entry :=
      (Except.ok.inj (hread rfl)).symm
    obtain ⟨_, -, -, resp', he⟩ := h.entries k entry hfound
    rw [self.tokudo.decodeEntry_of_entryOf hl.serde he] at hdec
    cases hdec
  | hit hk hr hdec => exact ⟨_, rfl⟩
  | compressError hk hc =>
    rw [prepared_eq] at hc
    cases hc
  | dispatchError hk hc hdis =>
    rw [prepared_eq] at hc
    cases hc
    cases hdispatch hdis (List.subset_append_right _ _)
  | @answered k stats req ds fs outcome r hk hc hdis hend =>
    rw [prepared_eq] at hc
    cases hc
    cases hdispatch hdis fun e he => by simp [he]
    have hvalid : self.tokudo.validateStep resp = .ok true := by
      unfold OptimizedModel.validateStep
      rw [show self.tokudo.serde.rawToValue resp.rawResponse = .ok raw from hraw]
      rfl
    cases hend with
    | invalid hv =>
      rw [hvalid] at hv
      cases hv
    | unwritten hv hw => exact ⟨_, rfl⟩
    | unserialised hv hw he =>
      unfold OptimizedModel.entryOf at he
      rw [show self.tokudo.serde.cachedToValue (.fromBorrowed resp) = .ok value from hvalue] at he
      cases he
    | written hv hw he r =>
      rw [put_of_history hist (List.mem_append_right _ List.mem_cons_self)]
      exact ⟨_, rfl⟩

/-- a miss under the default policy has found nothing -/
theorem nothing_of_miss (hl : self.Lawful) (h : self.Holds seen inner)
    (hprompt : item.isToolCall = false) {n : NormalizedResponse (CompletionResponse R)}
    (hn : (self.done item clock inner).outcome.value = .ok n) (miss : n.provenance.cacheHit = false) :
    InMemoryCache.contents inner (self.keyOf item.prompt) = none := by
  have hallow : allowRead (options item).cachePolicy = true := by
    rw [policy_of_prompt hprompt]
    rfl
  have hkey := key_eq hl item
  have htrans := self.transcript_done item clock inner
  rw [hn] at htrans
  rcases self.tokudo.served_or_answered htrans with
    ⟨_, _, _, -, -, -, -, hhit⟩ | ⟨k, stats, req, ds, fs, outcome, hk, -, -, -, hes, -⟩
  · rw [hhit, OptimizedModel.hitResponse, OptimizedModel.withLineage_cacheHit] at miss
    cases miss
  · rw [hkey] at hk
    cases hk
    rw [OptimizedModel.missEvents, if_pos hallow] at hes
    exact (Except.ok.inj (self.read_done h hes)).symm

/-- **How a call of the workload goes.** -/
theorem performed (hl : self.Lawful) (h : self.Holds seen inner) (ha : self.Answers item.prompt)
    (clock : Clock) : ∃ n, (self.done item clock inner).outcome.value = .ok n ∧
      self.Performed item clock inner n (self.done item clock inner).outcome.state := by
  have hok : ∃ n, (self.done item clock inner).outcome.value = .ok n := self.done_ok hl h ha
  obtain ⟨n, hn⟩ := hok
  have hstep := self.callStep_done item clock inner
  have hkey := key_eq hl item
  refine ⟨n, hn, ?_⟩
  obtain ⟨inner', hread, heffect⟩ := self.tokudo.effect_of_callStep hstep
  have hsame : inner' = inner := by
    rcases hread with rfl | ⟨k, rfl⟩
    · rfl
    · rw [InMemoryCache.get_of_undying h.undying]
  rw [hsame] at heffect
  cases hhit : n.provenance.cacheHit with
  | true =>
    obtain ⟨k, entry, _, hk, hpolicy, hc, -⟩ := self.tokudo.read_of_hit_step hstep hn hhit
    obtain rfl : self.keyOf item.prompt = k := Except.ok.inj (hkey.symm.trans hk)
    have hprompt : item.isToolCall = false := by
      apply Bool.eq_false_of_not_eq_true
      intro htool
      cases (policy_of_tool htool).symm.trans hpolicy
    rcases heffect with ⟨hstate, -, -⟩ | ⟨_, _, n', ⟨-, -, hn', miss⟩, -⟩
    · rw [hstate]
      exact .hit hhit hprompt hc
    · rw [hn] at hn'
      cases hn'
      rw [hhit] at miss
      cases miss
  | false =>
    obtain ⟨resp, raw, value, hresp, -, -⟩ := ha
    have hresponse : n.response = resp := by
      have htrans := self.transcript_done item clock inner
      rw [hn] at htrans
      obtain ⟨_, _, _, ds, outcome, -, hc, hdis, hin, rfl, -⟩ :=
        self.tokudo.answer_of_transcript htrans hhit
      rw [prepared_eq] at hc
      cases hc
      cases self.dispatch_done hdis hin.subset hresp
      rfl
    rw [← hresponse] at hresp
    cases htool : item.isToolCall with
    | true =>
      rcases heffect with ⟨hstate, -, -⟩ | ⟨_, _, _, ⟨-, hpolicy, -, -⟩, -⟩
      · rw [hstate]
        exact .bypassed hhit htool hresp
      · exact absurd (policy_of_tool htool) hpolicy
    | false =>
      have hstored : self.tokudo.Stored (self.keyOf item.prompt) (self.done item clock inner) n := by
        refine ⟨hkey, ?_, hn, hhit⟩
        rw [show (self.done item clock inner).call.ask.options.cachePolicy = _ from
          policy_of_prompt htool]
        exact fun hp => CachePolicy.noConfusion hp
      rcases heffect with ⟨-, -, hnone⟩ | ⟨k, entry, n', ⟨hk, -, hn', -⟩, he, -, hstate⟩
      · exact absurd hstored (hnone _ _)
      · obtain rfl : self.keyOf item.prompt = k := Except.ok.inj (hkey.symm.trans hk)
        rw [hn] at hn'
        cases hn'
        rw [hstate]
        exact .stored hhit htool (self.nothing_of_miss hl h htool hn hhit) hresp he

end Measurement

end Tokudo
