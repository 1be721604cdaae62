import Tokudo.Core.Rig

/-!
# Errors, options, provenance and lineage

`error.rs`, `options.rs`, `provenance.rs` and `lineage.rs`.
-/

namespace Tokudo

inductive TokudoError where
  | cache (msg : String)
  | router (msg : String)
  | compress (msg : String)
  | provider (msg : String)
  | modelMeta (msg : String)
  | tap (msg : String)
  | report (msg : String)
  | config (msg : String)
  deriving DecidableEq

abbrev Result (α : Type) := Except TokudoError α

instance (α : Type) : Nonempty (Result α) := ⟨.error (.cache "")⟩

inductive CachePolicy where
  | default
  | noCache
  | noStore
  | forceFresh
  deriving DecidableEq

structure TokudoOptions where
  cachePolicy : CachePolicy := .default
  cacheNamespace : Option String := none
  bypassRouter : Bool := false
  bypassCompress : Bool := false
  deriving DecidableEq

inductive RouterChoice where
  | cacheHit
  | cheap
  | strong
  | passThrough
  deriving DecidableEq

inductive LineageRelation where
  | cacheHit
  | providerCall
  deriving DecidableEq

/-- the `{:?}` text of a relation -/
def LineageRelation.debug : LineageRelation → String
  | .cacheHit => "CacheHit"
  | .providerCall => "ProviderCall"

/-- the `{:?}` text of a route -/
def RouterChoice.debug : RouterChoice → String
  | .cacheHit => "CacheHit"
  | .cheap => "Cheap"
  | .strong => "Strong"
  | .passThrough => "PassThrough"

structure LineageEdge where
  edgeId : String
  sourceId : String
  targetId : String
  relation : LineageRelation
  routerChoice : RouterChoice
  model : Option String
  cacheKey : String
  deriving DecidableEq

/-- `hex(SHA-256(bytes))` -/
abbrev Sha256Hex := List UInt8 → String

def utf8 (s : String) : List UInt8 := s.toUTF8.data.toList

theorem utf8_injective {s t : String} (h : utf8 s = utf8 t) : s = t := by
  have hdata : s.toUTF8.data = t.toUTF8.data := Array.toList_inj.mp h
  exact String.toByteArray_inj.mp (ByteArray.ext hdata)

/-- the bytes that `edge_id` feeds to the hasher -/
def edgeBytes (relation : LineageRelation) (sourceId targetId : String)
    (routerChoice : RouterChoice) (model : Option String) : List UInt8 :=
  utf8 relation.debug ++ [0] ++ utf8 sourceId ++ [0] ++ utf8 targetId ++ [0] ++
    utf8 routerChoice.debug ++ [0] ++ (model.map utf8).getD []

def edgeId (sha : Sha256Hex) (relation : LineageRelation) (sourceId targetId : String)
    (routerChoice : RouterChoice) (model : Option String) : String :=
  sha (edgeBytes relation sourceId targetId routerChoice model)

namespace LineageEdge

def new (sha : Sha256Hex) (relation : LineageRelation) (sourceId targetId : String)
    (routerChoice : RouterChoice) (model : Option String) (cacheKey : String) : LineageEdge :=
  { edgeId := Tokudo.edgeId sha relation sourceId targetId routerChoice model
    sourceId := sourceId
    targetId := targetId
    relation := relation
    routerChoice := routerChoice
    model := model
    cacheKey := cacheKey }

def cacheHit (sha : Sha256Hex) (cacheKey sourceId targetId : String) (model : Option String) :
    LineageEdge :=
  new sha .cacheHit sourceId targetId .cacheHit model cacheKey

def providerCall (sha : Sha256Hex) (cacheKey targetId : String) (routerChoice : RouterChoice)
    (model : Option String) : LineageEdge :=
  new sha .providerCall cacheKey targetId routerChoice model cacheKey

end LineageEdge

structure Provenance where
  cacheHit : Bool
  similarity : Option F32
  sourceId : Option String
  routerChoice : RouterChoice
  compressedRatio : Option F32
  usdBaselineEstimate : Option F64
  usdActualEstimate : Option F64
  providerCachedInputTokens : Nat
  providerCacheWriteTokens : Nat
  providerCacheUsdDelta : Option F64
  usdSavedEstimate : Option F64
  lineage : Option LineageEdge
  deriving DecidableEq

def Provenance.passThrough : Provenance :=
  { cacheHit := false
    similarity := none
    sourceId := none
    routerChoice := .passThrough
    compressedRatio := none
    usdBaselineEstimate := none
    usdActualEstimate := none
    providerCachedInputTokens := 0
    providerCacheWriteTokens := 0
    providerCacheUsdDelta := none
    usdSavedEstimate := none
    lineage := none }

/-- the response together with its provenance; `T` is the response type -/
structure NormalizedResponse (T : Type) where
  response : T
  provenance : Provenance

/-- `observe.rs`: the events of the decorator -/
inductive TokudoEvent where
  | cacheHit (cacheKey sourceId : String) (similarity : Option F32)
  | cacheMiss (cacheKey : String)
  | routeDecision (choice : RouterChoice)
  | compressApplied (inputTokens outputTokens : Nat) (ratio : Option F32)
  | costEstimate (cacheHit : Bool) (inputTokens outputTokens cachedInputTokens cacheWriteTokens
      totalTokens : Nat) (usdActualEstimate providerCacheUsdDelta : Option F64)
  | lineageEdge (edge : LineageEdge)
  deriving DecidableEq

end Tokudo
