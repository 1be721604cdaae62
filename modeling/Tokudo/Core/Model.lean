import Tokudo.Core.Dispatch
import Tokudo.Core.Pricing

/-!
# `OptimizedModel::complete`

`model.rs` and the response carrier of `cache/mod.rs`.  The steps of `complete` are functions of
their own, in the order of the source:

1. the cache key;  2. `probe`, and `serveHit` on a hit;  3. `compressStep`;  4. `routeStep`;
5. the dispatcher, and `recordCall` for its answer;  6. `validateStep`;  7. `storeStep`.
-/

namespace Tokudo
open Effect

/-! ## the response carrier -/

structure CachedCompletionResponse (R : Type) where
  choice : OneOrMany AssistantContent
  usage : Usage
  messageId : Option String
  rawResponse : R

namespace CachedCompletionResponse
variable {R : Type}

def fromBorrowed (response : CompletionResponse R) : CachedCompletionResponse R :=
  ⟨response.choice, response.usage, response.messageId, response.rawResponse⟩

def intoResponse (self : CachedCompletionResponse R) : CompletionResponse R :=
  ⟨self.choice, self.usage, self.messageId, self.rawResponse⟩

end CachedCompletionResponse

/-- what `complete` takes from `serde_json`: raw responses and carriers as JSON values -/
structure ResponseSerde (R : Type) where
  rawToValue : R → Except String Json
  cachedToValue : CachedCompletionResponse R → Except String Json
  cachedFromValue : Json → Except String (CachedCompletionResponse R)

/-- a stored carrier is read back as it was -/
def ResponseSerde.RoundTrips {R : Type} (serde : ResponseSerde R) : Prop :=
  ∀ c v, serde.cachedToValue c = .ok v → serde.cachedFromValue v = .ok c

/-! ## the decorator -/

/-- the pillars; `serde` is `serde_json`, `catalog` and `lineage` are the cargo features
`model-catalog` and `lineage`, when they are on -/
structure OptimizedModel (M R : Type) where
  model : M
  router : Router
  compressor : Compressor
  key : CacheKey
  validator : Validator
  serde : ResponseSerde R
  catalog : Option Catalog
  lineage : Option Sha256Hex

/-- the cache is read under the default policy only -/
def allowRead : CachePolicy → Bool
  | .noCache | .noStore | .forceFresh => false
  | .default => true

/-- the cache is written unless the policy is `NoStore` -/
def allowWrite : CachePolicy → Bool
  | .noStore => false
  | _ => true

theorem allowRead_iff {policy : CachePolicy} : allowRead policy = true ↔ policy = .default := by
  cases policy <;> simp [allowRead]

theorem allowWrite_iff {policy : CachePolicy} : allowWrite policy = true ↔ policy ≠ .noStore := by
  cases policy <;> simp [allowWrite]

namespace OptimizedModel
variable {M L A R : Type} (self : OptimizedModel M R)

/-- step 2: read the cache, if the policy allows it -/
def probe (options : TokudoOptions) (cacheKey : String) : Async L A (Option CachedEntry) :=
  if allowRead options.cachePolicy then do
    let found ← cacheGet cacheKey
    if found.isNone then emit (.cacheMiss cacheKey)
    return found
  else return none

def hitProvenance (modelName : Option String) (entry : CachedEntry)
    (cached : CachedCompletionResponse R) : Provenance :=
  let usdBaselineEstimate := estimateActualUsd self.catalog modelName cached.usage
  { Provenance.passThrough with
    cacheHit := true
    routerChoice := .cacheHit
    similarity := entry.similarity
    sourceId := some entry.sourceId
    usdActualEstimate := some 0
    usdBaselineEstimate := usdBaselineEstimate
    providerCachedInputTokens := cached.usage.cachedInputTokens
    providerCacheWriteTokens := cached.usage.cacheCreationInputTokens
    providerCacheUsdDelta := estimateProviderCacheUsdDelta self.catalog modelName cached.usage
    usdSavedEstimate := usdBaselineEstimate }

/-- with the `lineage` feature: emit the edge and attach it -/
def attachLineage (provenance : Provenance) (edge : Sha256Hex → LineageEdge) :
    Async L A Provenance :=
  match self.lineage with
  | none => return provenance
  | some sha => do
    emit (.lineageEdge (edge sha))
    return { provenance with lineage := some (edge sha) }

def decodeEntry (entry : CachedEntry) : Result (CachedCompletionResponse R) :=
  match self.serde.cachedFromValue entry.response with
  | .error e => .error (.cache ("deserialize cached response: " ++ e))
  | .ok cached => .ok cached

/-- step 2, on a hit: rebuild the response from the entry -/
def serveHit (modelName : Option String) (cacheKey : String) (entry : CachedEntry) :
    Async L A (NormalizedResponse (CompletionResponse R)) := do
  let cached ← liftExcept (self.decodeEntry entry)
  emit (.cacheHit cacheKey entry.sourceId entry.similarity)
  emit (.costEstimate true 0 0 0 0 0 (some 0) (some 0))
  let provenance ← self.attachLineage (self.hitProvenance modelName entry cached) fun sha =>
    .cacheHit sha cacheKey entry.sourceId (cached.messageId.getD cacheKey) modelName
  return ⟨cached.intoResponse, provenance⟩

/-- step 3 -/
def compressStep (request : CompletionRequest) (options : TokudoOptions) :
    Async L A (CompletionRequest × Option F32) :=
  if options.bypassCompress then return (request, none)
  else do
    let (stats?, request) ← liftExcept (self.compressor.compress request options)
    match stats? with
    | none => return (request, none)
    | some stats =>
      emit (.compressApplied stats.inputTokens stats.outputTokens stats.ratio)
      return (request, stats.ratio)

/-- step 4 -/
def routeStep (request : CompletionRequest) (options : TokudoOptions) : Async L A RouterChoice :=
  if options.bypassRouter then return .passThrough
  else do
    let choice := self.router.route request options
    emit (.routeDecision choice)
    return choice

def callProvenance (modelName : Option String) (compressedRatio : Option F32)
    (choice : RouterChoice) (resp : CompletionResponse R) : Provenance :=
  let usdActualEstimate := estimateActualUsd self.catalog modelName resp.usage
  { Provenance.passThrough with
    compressedRatio := compressedRatio
    routerChoice := choice
    usdActualEstimate := usdActualEstimate
    usdBaselineEstimate := usdActualEstimate
    providerCachedInputTokens := resp.usage.cachedInputTokens
    providerCacheWriteTokens := resp.usage.cacheCreationInputTokens
    providerCacheUsdDelta := estimateProviderCacheUsdDelta self.catalog modelName resp.usage
    usdSavedEstimate := usdActualEstimate.map fun _ => 0 }

/-- step 5, after the dispatcher's answer: provenance, lineage and the cost event -/
def recordCall (modelName : Option String) (cacheKey : String) (compressedRatio : Option F32)
    (choice : RouterChoice) (resp : CompletionResponse R) : Async L A Provenance := do
  let provenance ← self.attachLineage
    (self.callProvenance modelName compressedRatio choice resp) fun sha =>
    .providerCall sha cacheKey (resp.messageId.getD cacheKey) choice modelName
  emit (.costEstimate false resp.usage.inputTokens resp.usage.outputTokens
    resp.usage.cachedInputTokens resp.usage.cacheCreationInputTokens resp.usage.totalTokens
    (estimateActualUsd self.catalog modelName resp.usage)
    (estimateProviderCacheUsdDelta self.catalog modelName resp.usage))
  return provenance

/-- step 6: the validator is asked, and only its failure counts -/
def validateStep (resp : CompletionResponse R) : Result Bool :=
  match self.serde.rawToValue resp.rawResponse with
  | .error e => .error (.cache ("serialize for validate: " ++ e))
  | .ok rawJson => self.validator.validate rawJson

def entryOf (cacheKey : String) (resp : CompletionResponse R) : Result CachedEntry :=
  match self.serde.cachedToValue (.fromBorrowed resp) with
  | .error e => .error (.cache ("serialize for cache write: " ++ e))
  | .ok value =>
    .ok { response := value, expiresAtSecs := none, similarity := none, sourceId := cacheKey }

/-- step 7 -/
def storeStep (options : TokudoOptions) (cacheKey : String) (resp : CompletionResponse R) :
    Async L A Unit :=
  if allowWrite options.cachePolicy then do
    let entry ← liftExcept (self.entryOf cacheKey resp)
    cachePut cacheKey entry
  else return ()

/-- steps 3 to 7 -/
def answer [DispatchModel M L A R] (modelName : Option String) (cacheKey : String)
    (request : CompletionRequest) (options : TokudoOptions) :
    Async L A (NormalizedResponse (CompletionResponse R)) := do
  let (request, compressedRatio) ← self.compressStep request options
  let hint ← self.routeStep request options
  let outcome ← DispatchModel.dispatch self.model request
  let resp := outcome.response
  let provenance ← self.recordCall modelName cacheKey compressedRatio (outcome.route.getD hint) resp
  let _accepted ← liftExcept (self.validateStep resp)
  self.storeStep options cacheKey resp
  return ⟨resp, provenance⟩

def complete [DispatchModel M L A R] (request : CompletionRequest) (options : TokudoOptions) :
    Async L A (NormalizedResponse (CompletionResponse R)) := do
  let modelName := request.model
  let cacheKey ← liftExcept (self.key.key request options)
  match ← probe options cacheKey with
  | some entry => self.serveHit modelName cacheKey entry
  | none => self.answer modelName cacheKey request options

end OptimizedModel

end Tokudo
