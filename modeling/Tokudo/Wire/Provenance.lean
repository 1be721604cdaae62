import Tokudo.Report.Saved
import Tokudo.Json.Compact

/-!
# Provenance as JSON

The derived writers and readers of `RouterChoice`, `LineageRelation`, `LineageEdge` and `Provenance`.
An unknown estimate of a provenance is written as `null`; counters that are zero, a delta and an
edge that are absent are left out.  Floats are finite.  `serde_json` does not parse every float back
that it has printed (it has a feature for that, which is off), so what is read back is the value with
its floats `reparsed`.

* `LineageEdge.read_of_carries`, `Provenance.read_of_carries`   each is read back from every object
                                                                 that carries its fields.
-/

namespace Tokudo

open Json

/-! ## scalars -/

/-- how `serde_json` prints and parses finite floats of both widths -/
structure WireFloats where
  single : FloatSerde
  double : FloatSerde

namespace FloatSerde

/-- the float that is parsed from what is printed for `q` -/
def reparse (floats : FloatSerde) (q : F64) : F64 := floats.parse (floats.print q)

/-- the float, if there is one, is parsed back -/
def Keeps (floats : FloatSerde) (q : Option F64) : Prop := ∀ x ∈ q, floats.reparse x = x

theorem map_reparse_iff {floats : FloatSerde} {q : Option F64} :
    q.map floats.reparse = q ↔ floats.Keeps q := by
  unfold Keeps
  cases q <;> simp

end FloatSerde

def boolFromValue : Json → Decode Bool
  | .bool b => .ok b
  | _ => .error (.invalidType "bool")

def stringFromValue : Json → Decode String
  | .str s => .ok s
  | _ => .error (.invalidType "string")

def optionStringFromValue : Json → Decode (Option String)
  | .null => .ok none
  | v => (stringFromValue v).map some

def u32FromValue : Json → Decode Nat
  | .num ⟨.ofNat n, .ofNat 0⟩ => if n ≤ u32Max then .ok n else .error (.invalidType "u32")
  | _ => .error (.invalidType "u32")

theorem u32FromValue_ofNat {n : Nat} (h : n ≤ u32Max) : u32FromValue (.ofNat n) = .ok n := if_pos h

theorem optionStringFromValue_ofString? (s : Option String) :
    optionStringFromValue (ofString? s) = .ok s := by
  cases s <;> rfl

/-- a float that is there is read as one that is there -/
theorem optionF64FromValue_some (floats : FloatSerde) (q : F64) :
    optionF64FromValue floats (f64ToValue floats q) = .ok (some (floats.reparse q)) := rfl

theorem optionF64FromValue_reparse (floats : FloatSerde) (q : Option F64) :
    optionF64FromValue floats (ofOption (f64ToValue floats) q) = .ok (q.map floats.reparse) := by
  cases q <;> rfl

/-! ## unit variants -/

def RouterChoice.name : RouterChoice → String
  | .cacheHit => "cache_hit"
  | .cheap => "cheap"
  | .strong => "strong"
  | .passThrough => "pass_through"

def RouterChoice.fromValue : Json → Decode RouterChoice
  | .str "cache_hit" => .ok .cacheHit
  | .str "cheap" => .ok .cheap
  | .str "strong" => .ok .strong
  | .str "pass_through" => .ok .passThrough
  | _ => .error (.invalidType "enum RouterChoice")

theorem RouterChoice.fromValue_name (choice : RouterChoice) :
    RouterChoice.fromValue (.str choice.name) = .ok choice := by
  cases choice <;> rfl

def LineageRelation.name : LineageRelation → String
  | .cacheHit => "cache_hit"
  | .providerCall => "provider_call"

def LineageRelation.fromValue : Json → Decode LineageRelation
  | .str "cache_hit" => .ok .cacheHit
  | .str "provider_call" => .ok .providerCall
  | _ => .error (.invalidType "enum LineageRelation")

theorem LineageRelation.fromValue_name (relation : LineageRelation) :
    LineageRelation.fromValue (.str relation.name) = .ok relation := by
  cases relation <;> rfl

/-! ## lineage edges -/

namespace LineageEdge

def toFields (self : LineageEdge) : List (String × Json) :=
  [("edge_id", .str self.edgeId), ("source_id", .str self.sourceId),
    ("target_id", .str self.targetId), ("relation", .str self.relation.name),
    ("router_choice", .str self.routerChoice.name)] ++
  skipNone "model" .str self.model ++ [("cache_key", .str self.cacheKey)]

def fromFields (fields : List (String × Json)) : Decode LineageEdge := do
  let edgeId ← requireField "edge_id" stringFromValue fields
  let sourceId ← requireField "source_id" stringFromValue fields
  let targetId ← requireField "target_id" stringFromValue fields
  let relation ← requireField "relation" LineageRelation.fromValue fields
  let routerChoice ← requireField "router_choice" RouterChoice.fromValue fields
  let model ← defaultField "model" none optionStringFromValue fields
  let cacheKey ← requireField "cache_key" stringFromValue fields
  .ok { edgeId, sourceId, targetId, relation, routerChoice, model, cacheKey }

def fromValue : Json → Decode LineageEdge
  | .obj fields => fromFields fields
  | _ => .error (.invalidType "struct LineageEdge")

def fieldNames : List String :=
  ["edge_id", "source_id", "target_id", "relation", "router_choice", "model", "cache_key"]

theorem names_sublist (self : LineageEdge) : (self.toFields.map Prod.fst).Sublist fieldNames := by
  unfold toFields
  rw [List.map_append, List.map_append]
  exact ((List.Sublist.refl _).append (names_skipNone "model" .str self.model)).append
    (List.Sublist.refl _)

/-- **An edge is read back from every object that carries its fields.** -/
theorem read_of_carries (self : LineageEdge) {fields : List (String × Json)}
    (hf : Carries fieldNames self.toFields fields) : fromFields fields = .ok self := by
  have str {name s : String} (hn : name ∈ fieldNames) (hm : (name, Json.str s) ∈ self.toFields) :
      requireField name stringFromValue fields = .ok s :=
    requireField_of_carries _ hf hn hm rfl
  have edgeId := @str "edge_id" self.edgeId (by decide) (by simp [toFields])
  have sourceId := @str "source_id" self.sourceId (by decide) (by simp [toFields])
  have targetId := @str "target_id" self.targetId (by decide) (by simp [toFields])
  have relation : requireField "relation" LineageRelation.fromValue fields = .ok self.relation :=
    requireField_of_carries _ hf (by decide) (by simp [toFields]) self.relation.fromValue_name
  have routerChoice : requireField "router_choice" RouterChoice.fromValue fields =
      .ok self.routerChoice :=
    requireField_of_carries _ hf (by decide) (by simp [toFields]) self.routerChoice.fromValue_name
  have model : defaultField "model" none optionStringFromValue fields = .ok self.model :=
    noneField_of_carries hf (by decide) (show ∀ m, optionStringFromValue (.str m) = _ from fun _ => rfl)
      (fun p hp => by simp [toFields, hp]) (fun hz => by simp [toFields, hz, skipNone])
  have cacheKey := @str "cache_key" self.cacheKey (by decide) (by simp [toFields])
  unfold fromFields
  rw [edgeId, sourceId, targetId, relation, routerChoice, model, cacheKey]
  rfl

theorem mem_fieldNames (self : LineageEdge) {p : String × Json} (hp : p ∈ self.toFields) :
    p.1 ∈ fieldNames := self.names_sublist.subset (List.mem_map_of_mem hp)

theorem fromValue_toFields (self : LineageEdge) : fromValue (.obj self.toFields) = .ok self :=
  self.read_of_carries (carries_self (self.names_sublist.nodup (by decide))
    fun _ hp => self.mem_fieldNames hp)

end LineageEdge

def optionEdgeFromValue : Json → Decode (Option LineageEdge)
  | .null => .ok none
  | v => (LineageEdge.fromValue v).map some

theorem optionEdgeFromValue_some (edge : LineageEdge) :
    optionEdgeFromValue (.obj edge.toFields) = .ok (some edge) := by
  show (LineageEdge.fromValue (.obj edge.toFields)).map some = _
  rw [edge.fromValue_toFields]
  rfl

/-! ## provenance -/

namespace Provenance

/-- the counters are `u64` values -/
structure Fits (p : Provenance) : Prop where
  providerCachedInputTokens : p.providerCachedInputTokens ≤ u64Max
  providerCacheWriteTokens : p.providerCacheWriteTokens ≤ u64Max

section
variable (floats : WireFloats)

def toFields (self : Provenance) : List (String × Json) :=
  [("cache_hit", .bool self.cacheHit),
    ("similarity", ofOption (f64ToValue floats.single) self.similarity),
    ("source_id", ofString? self.sourceId), ("router_choice", .str self.routerChoice.name),
    ("compressed_ratio", ofOption (f64ToValue floats.single) self.compressedRatio),
    ("usd_baseline_estimate", ofOption (f64ToValue floats.double) self.usdBaselineEstimate),
    ("usd_actual_estimate", ofOption (f64ToValue floats.double) self.usdActualEstimate)] ++
  skipZero "provider_cached_input_tokens" self.providerCachedInputTokens ++
  skipZero "provider_cache_write_tokens" self.providerCacheWriteTokens ++
  skipNone "provider_cache_usd_delta" (f64ToValue floats.double) self.providerCacheUsdDelta ++
  [("usd_saved_estimate", ofOption (f64ToValue floats.double) self.usdSavedEstimate)] ++
  skipNone "lineage" (fun edge => .obj edge.toFields) self.lineage

/-- an absent `Option` field is `None` -/
def fromFields (fields : List (String × Json)) : Decode Provenance := do
  let single := optionF64FromValue floats.single
  let double := optionF64FromValue floats.double
  let cacheHit ← requireField "cache_hit" boolFromValue fields
  let similarity ← defaultField "similarity" none single fields
  let sourceId ← defaultField "source_id" none optionStringFromValue fields
  let routerChoice ← requireField "router_choice" RouterChoice.fromValue fields
  let compressedRatio ← defaultField "compressed_ratio" none single fields
  let usdBaselineEstimate ← defaultField "usd_baseline_estimate" none double fields
  let usdActualEstimate ← defaultField "usd_actual_estimate" none double fields
  let providerCachedInputTokens ←
    defaultField "provider_cached_input_tokens" 0 u64FromValue fields
  let providerCacheWriteTokens ← defaultField "provider_cache_write_tokens" 0 u64FromValue fields
  let providerCacheUsdDelta ← defaultField "provider_cache_usd_delta" none double fields
  let usdSavedEstimate ← defaultField "usd_saved_estimate" none double fields
  let lineage ← defaultField "lineage" none optionEdgeFromValue fields
  .ok { cacheHit, similarity, sourceId, routerChoice, compressedRatio, usdBaselineEstimate,
        usdActualEstimate, providerCachedInputTokens, providerCacheWriteTokens,
        providerCacheUsdDelta, usdSavedEstimate, lineage }

def fromValue : Json → Decode Provenance
  | .obj fields => fromFields floats fields
  | _ => .error (.invalidType "struct Provenance")

end

def fieldNames : List String :=
  ["cache_hit", "similarity", "source_id", "router_choice", "compressed_ratio",
    "usd_baseline_estimate", "usd_actual_estimate", "provider_cached_input_tokens",
    "provider_cache_write_tokens", "provider_cache_usd_delta", "usd_saved_estimate", "lineage"]

theorem names_sublist (floats : WireFloats) (self : Provenance) :
    ((self.toFields floats).map Prod.fst).Sublist fieldNames := by
  unfold toFields
  simp only [List.map_append]
  exact (((((List.Sublist.refl _).append (names_skipZero _ _)).append (names_skipZero _ _)).append
    (names_skipNone _ _ _)).append (List.Sublist.refl _)).append (names_skipNone _ _ _)

theorem mem_fieldNames (floats : WireFloats) (self : Provenance) {p : String × Json}
    (hp : p ∈ self.toFields floats) : p.1 ∈ fieldNames :=
  (self.names_sublist floats).subset (List.mem_map_of_mem hp)

theorem name_mem_toFields {floats : WireFloats} {self : Provenance} {name : String} :
    name ∈ (self.toFields floats).map Prod.fst ↔
      name ∈ ["cache_hit", "similarity", "source_id", "router_choice", "compressed_ratio",
        "usd_baseline_estimate", "usd_actual_estimate"] ∨
      self.providerCachedInputTokens ≠ 0 ∧ name = "provider_cached_input_tokens" ∨
      self.providerCacheWriteTokens ≠ 0 ∧ name = "provider_cache_write_tokens" ∨
      self.providerCacheUsdDelta.isSome ∧ name = "provider_cache_usd_delta" ∨
      name ∈ ["usd_saved_estimate"] ∨ self.lineage.isSome ∧ name = "lineage" := by
  simp only [toFields, List.map_append, List.mem_append, name_mem_skipZero, name_mem_skipNone,
    List.map_cons, List.map_nil, or_assoc]

/-- the provenance, with every float as it is parsed back -/
def reparsed (floats : WireFloats) (self : Provenance) : Provenance :=
  { self with
    similarity := self.similarity.map floats.single.reparse
    compressedRatio := self.compressedRatio.map floats.single.reparse
    usdBaselineEstimate := self.usdBaselineEstimate.map floats.double.reparse
    usdActualEstimate := self.usdActualEstimate.map floats.double.reparse
    providerCacheUsdDelta := self.providerCacheUsdDelta.map floats.double.reparse
    usdSavedEstimate := self.usdSavedEstimate.map floats.double.reparse }

structure FloatsKept (floats : WireFloats) (p : Provenance) : Prop where
  similarity : floats.single.Keeps p.similarity
  compressedRatio : floats.single.Keeps p.compressedRatio
  usdBaselineEstimate : floats.double.Keeps p.usdBaselineEstimate
  usdActualEstimate : floats.double.Keeps p.usdActualEstimate
  providerCacheUsdDelta : floats.double.Keeps p.providerCacheUsdDelta
  usdSavedEstimate : floats.double.Keeps p.usdSavedEstimate

theorem reparsed_eq_iff {floats : WireFloats} {self : Provenance} :
    self.reparsed floats = self ↔ self.FloatsKept floats := by
  obtain ⟨hit, similarity, source, choice, ratio, baseline, actual, cached, written, delta, saved,
    lineage⟩ := self
  unfold reparsed
  simp only [Provenance.mk.injEq, FloatSerde.map_reparse_iff, true_and, and_true]
  constructor
  · rintro ⟨hsimilarity, hratio, hbaseline, hactual, hdelta, hsaved⟩
    exact ⟨hsimilarity, hratio, hbaseline, hactual, hdelta, hsaved⟩
  · rintro ⟨hsimilarity, hratio, hbaseline, hactual, hdelta, hsaved⟩
    exact ⟨hsimilarity, hratio, hbaseline, hactual, hdelta, hsaved⟩

/-- **A provenance is read back from every object that carries its fields.** -/
theorem read_of_carries {floats : WireFloats} {self : Provenance} (h : self.Fits)
    {fields : List (String × Json)} (hf : Carries fieldNames (self.toFields floats) fields) :
    fromFields floats fields = .ok (self.reparsed floats) := by
  have option {name : String} {floats' : FloatSerde} {q : Option F64} (hn : name ∈ fieldNames)
      (hm : (name, ofOption (f64ToValue floats') q) ∈ self.toFields floats) :
      defaultField name none (optionF64FromValue floats') fields = .ok (q.map floats'.reparse) :=
    skippedField_of_carries _ _ hf hn (.inl ⟨_, hm, optionF64FromValue_reparse floats' q⟩)
  have cacheHit : requireField "cache_hit" boolFromValue fields = .ok self.cacheHit :=
    requireField_of_carries (v := .bool self.cacheHit) _ hf (by decide) (by simp [toFields]) rfl
  have similarity := @option "similarity" floats.single self.similarity (by decide)
    (by simp [toFields])
  have sourceId : defaultField "source_id" none optionStringFromValue fields = .ok self.sourceId :=
    skippedField_of_carries _ _ hf (by decide)
      (.inl ⟨ofString? self.sourceId, by simp [toFields], optionStringFromValue_ofString? _⟩)
  have routerChoice : requireField "router_choice" RouterChoice.fromValue fields =
      .ok self.routerChoice :=
    requireField_of_carries (v := .str self.routerChoice.name) _ hf (by decide)
      (by simp [toFields]) self.routerChoice.fromValue_name
  have ratio := @option "compressed_ratio" floats.single self.compressedRatio (by decide)
    (by simp [toFields])
  have usdBaseline := @option "usd_baseline_estimate" floats.double self.usdBaselineEstimate
    (by decide) (by simp [toFields])
  have usdActual := @option "usd_actual_estimate" floats.double self.usdActualEstimate
    (by decide) (by simp [toFields])
  have cachedInput : defaultField "provider_cached_input_tokens" 0 u64FromValue fields =
      .ok self.providerCachedInputTokens :=
    zeroField_of_carries hf (by decide) (u64FromValue_ofNat h.providerCachedInputTokens)
      (fun p hp => by simp [toFields, hp])
      (fun hz => by rw [name_mem_toFields]; simp [hz])
  have cacheWrite : defaultField "provider_cache_write_tokens" 0 u64FromValue fields =
      .ok self.providerCacheWriteTokens :=
    zeroField_of_carries hf (by decide) (u64FromValue_ofNat h.providerCacheWriteTokens)
      (fun p hp => by simp [toFields, hp])
      (fun hz => by rw [name_mem_toFields]; simp [hz])
  have usdDelta : defaultField "provider_cache_usd_delta" none (optionF64FromValue floats.double)
      fields = .ok (self.providerCacheUsdDelta.map floats.double.reparse) :=
    mappedField_of_carries hf (by decide) (optionF64FromValue_some floats.double)
      (fun p hp => by simp [toFields, hp])
      (fun hz => by rw [name_mem_toFields]; simp [hz])
  have usdSaved := @option "usd_saved_estimate" floats.double self.usdSavedEstimate
    (by decide) (by simp [toFields])
  have lineage : defaultField "lineage" none optionEdgeFromValue fields = .ok self.lineage :=
    noneField_of_carries hf (by decide) optionEdgeFromValue_some (fun p hp => by simp [toFields, hp])
      (fun hz => by rw [name_mem_toFields]; simp [hz])
  unfold fromFields
  dsimp only
  rw [cacheHit, similarity, sourceId, routerChoice, ratio, usdBaseline, usdActual, cachedInput,
    cacheWrite, usdDelta, usdSaved, lineage]
  rfl

theorem fromValue_toFields {floats : WireFloats} {self : Provenance} (h : self.Fits) :
    fromValue floats (.obj (self.toFields floats)) = .ok (self.reparsed floats) :=
  read_of_carries h (carries_self ((self.names_sublist floats).nodup (by decide))
    fun _ hp => self.mem_fieldNames floats hp)

end Provenance

end Tokudo
