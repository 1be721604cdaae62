import Tokudo.Wire.Provenance

/-!
# Event envelopes on the wire

`observe.rs`: an event is one flat JSON object, tagged by `kind`; the envelope adds the version, the
time and the tick to the same object.

* `fieldNames_nodup`      the object is flat: no name occurs twice;
* `envelope_reads_back`   **an envelope is read back from the text that is emitted**, and from every
                          object that carries its fields, in any order, among others; its floats are
                          what is parsed from what was printed for them.
-/

namespace Tokudo

open Json

/-- `SCHEMA_VERSION` -/
def schemaVersion : Nat := 1

structure TokudoEnvelope where
  version : Nat
  occurredAtMillis : Nat
  tick : Nat
  event : TokudoEvent
  deriving DecidableEq

namespace TokudoEvent

def discriminant : TokudoEvent → String
  | .cacheHit .. => "cache.hit"
  | .cacheMiss .. => "cache.miss"
  | .routeDecision .. => "route.decision"
  | .compressApplied .. => "compress.applied"
  | .costEstimate .. => "cost.estimate"
  | .lineageEdge .. => "lineage.edge"

/-- the fields of a variant, without the tag -/
def variantFields (floats : WireFloats) : TokudoEvent → List (String × Json)
  | .cacheHit cacheKey sourceId similarity =>
    [("cache_key", .str cacheKey), ("source_id", .str sourceId)] ++
      skipNone "similarity" (f64ToValue floats.single) similarity
  | .cacheMiss cacheKey => [("cache_key", .str cacheKey)]
  | .routeDecision choice => [("choice", .str choice.name)]
  | .compressApplied inputTokens outputTokens ratio =>
    [("input_tokens", .ofNat inputTokens), ("output_tokens", .ofNat outputTokens)] ++
      skipNone "ratio" (f64ToValue floats.single) ratio
  | .costEstimate hit inputTokens outputTokens cachedInputTokens cacheWriteTokens totalTokens
      usdActualEstimate providerCacheUsdDelta =>
    [("cache_hit", .bool hit), ("input_tokens", .ofNat inputTokens),
      ("output_tokens", .ofNat outputTokens)] ++
    skipZero "cached_input_tokens" cachedInputTokens ++
    skipZero "cache_write_tokens" cacheWriteTokens ++
    [("total_tokens", .ofNat totalTokens)] ++
    skipNone "usd_actual_estimate" (f64ToValue floats.double) usdActualEstimate ++
    skipNone "provider_cache_usd_delta" (f64ToValue floats.double) providerCacheUsdDelta
  | .lineageEdge edge => edge.toFields

def toFields (floats : WireFloats) (self : TokudoEvent) : List (String × Json) :=
  ("kind", .str self.discriminant) :: self.variantFields floats

/-- the reader of one variant -/
def variantFromFields (floats : WireFloats) (kind : String) (fields : List (String × Json)) :
    Decode TokudoEvent :=
  let single := optionF64FromValue floats.single
  let double := optionF64FromValue floats.double
  match kind with
  | "cache.hit" => do
    let cacheKey ← requireField "cache_key" stringFromValue fields
    let sourceId ← requireField "source_id" stringFromValue fields
    let similarity ← defaultField "similarity" none single fields
    .ok (.cacheHit cacheKey sourceId similarity)
  | "cache.miss" => do
    let cacheKey ← requireField "cache_key" stringFromValue fields
    .ok (.cacheMiss cacheKey)
  | "route.decision" => do
    let choice ← requireField "choice" RouterChoice.fromValue fields
    .ok (.routeDecision choice)
  | "compress.applied" => do
    let inputTokens ← requireField "input_tokens" u32FromValue fields
    let outputTokens ← requireField "output_tokens" u32FromValue fields
    let ratio ← defaultField "ratio" none single fields
    .ok (.compressApplied inputTokens outputTokens ratio)
  | "cost.estimate" => do
    let hit ← requireField "cache_hit" boolFromValue fields
    let inputTokens ← requireField "input_tokens" u64FromValue fields
    let outputTokens ← requireField "output_tokens" u64FromValue fields
    let cachedInputTokens ← defaultField "cached_input_tokens" 0 u64FromValue fields
    let cacheWriteTokens ← defaultField "cache_write_tokens" 0 u64FromValue fields
    let totalTokens ← requireField "total_tokens" u64FromValue fields
    let usdActualEstimate ← defaultField "usd_actual_estimate" none double fields
    let providerCacheUsdDelta ← defaultField "provider_cache_usd_delta" none double fields
    .ok (.costEstimate hit inputTokens outputTokens cachedInputTokens cacheWriteTokens
      totalTokens usdActualEstimate providerCacheUsdDelta)
  | "lineage.edge" => do
    let edge ← LineageEdge.fromFields fields
    .ok (.lineageEdge edge)
  | _ => .error (.invalidType "enum TokudoEvent")

/-- an internally tagged enum: the tag says which variant the other fields are of -/
def fromFields (floats : WireFloats) (fields : List (String × Json)) : Decode TokudoEvent := do
  let kind ← requireField "kind" stringFromValue fields
  variantFromFields floats kind (without ["kind"] fields)

/-- the names that the reader of the variant looks up -/
def fieldNames : TokudoEvent → List String
  | .cacheHit .. => ["cache_key", "source_id", "similarity"]
  | .cacheMiss .. => ["cache_key"]
  | .routeDecision .. => ["choice"]
  | .compressApplied .. => ["input_tokens", "output_tokens", "ratio"]
  | .costEstimate .. =>
    ["cache_hit", "input_tokens", "output_tokens", "cached_input_tokens", "cache_write_tokens",
      "total_tokens", "usd_actual_estimate", "provider_cache_usd_delta"]
  | .lineageEdge .. => LineageEdge.fieldNames

/-- the counters are `u32` and `u64` values -/
def Fits : TokudoEvent → Prop
  | .compressApplied inputTokens outputTokens _ =>
    inputTokens ≤ u32Max ∧ outputTokens ≤ u32Max
  | .costEstimate _ inputTokens outputTokens cachedInputTokens cacheWriteTokens totalTokens _ _ =>
    inputTokens ≤ u64Max ∧ outputTokens ≤ u64Max ∧ cachedInputTokens ≤ u64Max ∧
      cacheWriteTokens ≤ u64Max ∧ totalTokens ≤ u64Max
  | _ => True

end TokudoEvent

namespace TokudoEnvelope

def ownNames : List String := ["version", "occurred_at_millis", "tick"]

/-- the event is flattened into the object of the envelope -/
def toFields (floats : WireFloats) (self : TokudoEnvelope) : List (String × Json) :=
  [("version", .ofNat self.version), ("occurred_at_millis", .ofNat self.occurredAtMillis),
    ("tick", .ofNat self.tick)] ++ self.event.toFields floats

/-- what is not a field of the envelope is left to the event -/
def fromFields (floats : WireFloats) (fields : List (String × Json)) : Decode TokudoEnvelope := do
  let version ← requireField "version" u32FromValue fields
  let occurredAtMillis ← requireField "occurred_at_millis" u64FromValue fields
  let tick ← requireField "tick" u64FromValue fields
  let event ← TokudoEvent.fromFields floats (without ownNames fields)
  .ok { version, occurredAtMillis, tick, event }

def fromValue (floats : WireFloats) : Json → Decode TokudoEnvelope
  | .obj fields => fromFields floats fields
  | _ => .error (.invalidType "struct TokudoEnvelope")

/-- `serde_json::to_string` of an envelope; no value of it is refused -/
def toJson (floats : WireFloats) (self : TokudoEnvelope) : Except String String :=
  .ok (compactText (.obj (self.toFields floats)))

def fromJson (floats : WireFloats) (text : String) : Decode TokudoEnvelope :=
  match read text.toList with
  | some v => fromValue floats v
  | none => .error .notJson

def fieldNames (self : TokudoEnvelope) : List String :=
  ownNames ++ "kind" :: self.event.fieldNames

structure Fits (e : TokudoEnvelope) : Prop where
  version : e.version ≤ u32Max
  occurredAtMillis : e.occurredAtMillis ≤ u64Max
  tick : e.tick ≤ u64Max
  event : e.event.Fits

end TokudoEnvelope

/-! ## flat objects -/

theorem TokudoEvent.names_sublist (floats : WireFloats) (self : TokudoEvent) :
    ((self.variantFields floats).map Prod.fst).Sublist self.fieldNames := by
  cases self with
  | cacheHit cacheKey sourceId similarity =>
    rw [variantFields, List.map_append]
    exact (List.Sublist.refl _).append (names_skipNone _ _ _)
  | cacheMiss cacheKey => exact List.Sublist.refl _
  | routeDecision choice => exact List.Sublist.refl _
  | compressApplied inputTokens outputTokens ratio =>
    rw [variantFields, List.map_append]
    exact (List.Sublist.refl _).append (names_skipNone _ _ _)
  | costEstimate hit input output cachedInput cacheWrite total usd delta =>
    simp only [variantFields, List.map_append]
    exact (((((List.Sublist.refl _).append (names_skipZero _ _)).append (names_skipZero _ _)).append
      (List.Sublist.refl _)).append (names_skipNone _ _ _)).append (names_skipNone _ _ _)
  | lineageEdge edge => exact edge.names_sublist

theorem TokudoEnvelope.names_sublist (floats : WireFloats) (self : TokudoEnvelope) :
    ((self.toFields floats).map Prod.fst).Sublist self.fieldNames := by
  rw [toFields, List.map_append]
  exact (List.Sublist.refl _).append ((self.event.names_sublist floats).cons_cons "kind")

theorem TokudoEnvelope.fieldNames_nodup (self : TokudoEnvelope) : self.fieldNames.Nodup := by
  obtain ⟨version, occurredAtMillis, tick, event⟩ := self
  cases event with
  | cacheHit =>
    show ["version", "occurred_at_millis", "tick", "kind", "cache_key", "source_id",
      "similarity"].Nodup
    decide
  | cacheMiss =>
    show ["version", "occurred_at_millis", "tick", "kind", "cache_key"].Nodup
    decide
  | routeDecision =>
    show ["version", "occurred_at_millis", "tick", "kind", "choice"].Nodup
    decide
  | compressApplied =>
    show ["version", "occurred_at_millis", "tick", "kind", "input_tokens", "output_tokens",
      "ratio"].Nodup
    decide
  | costEstimate =>
    show ["version", "occurred_at_millis", "tick", "kind", "cache_hit", "input_tokens",
      "output_tokens", "cached_input_tokens", "cache_write_tokens", "total_tokens",
      "usd_actual_estimate", "provider_cache_usd_delta"].Nodup
    decide
  | lineageEdge =>
    show ["version", "occurred_at_millis", "tick", "kind", "edge_id", "source_id", "target_id",
      "relation", "router_choice", "model", "cache_key"].Nodup
    decide

/-! ## events read back -/

namespace TokudoEvent

theorem mem_fieldNames (floats : WireFloats) (self : TokudoEvent) {p : String × Json}
    (hp : p ∈ self.variantFields floats) : p.1 ∈ self.fieldNames :=
  (self.names_sublist floats).subset (List.mem_map_of_mem hp)

theorem name_mem_costEstimate {floats : WireFloats} {hit : Bool}
    {input output cachedInput cacheWrite total : Nat} {usd delta : Option F64} {name : String} :
    name ∈ (variantFields floats
      (.costEstimate hit input output cachedInput cacheWrite total usd delta)).map Prod.fst ↔
      name ∈ ["cache_hit", "input_tokens", "output_tokens"] ∨
      cachedInput ≠ 0 ∧ name = "cached_input_tokens" ∨
      cacheWrite ≠ 0 ∧ name = "cache_write_tokens" ∨ name ∈ ["total_tokens"] ∨
      usd.isSome ∧ name = "usd_actual_estimate" ∨
      delta.isSome ∧ name = "provider_cache_usd_delta" := by
  simp only [variantFields, List.map_append, List.mem_append, name_mem_skipZero, name_mem_skipNone,
    List.map_cons, List.map_nil, or_assoc]

theorem kind_notMem (self : TokudoEvent) : "kind" ∉ self.fieldNames := by
  cases self <;> simp [fieldNames, LineageEdge.fieldNames]

/-- the event, with every float as it is parsed back -/
def reparsed (floats : WireFloats) : TokudoEvent → TokudoEvent
  | .cacheHit cacheKey sourceId similarity =>
    .cacheHit cacheKey sourceId (similarity.map floats.single.reparse)
  | .compressApplied inputTokens outputTokens ratio =>
    .compressApplied inputTokens outputTokens (ratio.map floats.single.reparse)
  | .costEstimate hit inputTokens outputTokens cachedInputTokens cacheWriteTokens totalTokens usd
      delta =>
    .costEstimate hit inputTokens outputTokens cachedInputTokens cacheWriteTokens totalTokens
      (usd.map floats.double.reparse) (delta.map floats.double.reparse)
  | event => event

def FloatsKept (floats : WireFloats) : TokudoEvent → Prop
  | .cacheHit _ _ similarity => floats.single.Keeps similarity
  | .compressApplied _ _ ratio => floats.single.Keeps ratio
  | .costEstimate _ _ _ _ _ _ usd delta => floats.double.Keeps usd ∧ floats.double.Keeps delta
  | _ => True

theorem reparsed_eq_iff {floats : WireFloats} {self : TokudoEvent} :
    self.reparsed floats = self ↔ self.FloatsKept floats := by
  cases self <;> simp [reparsed, FloatsKept, FloatSerde.map_reparse_iff]

/-- **The fields of a variant are read back by its reader.** -/
theorem read_of_carries {floats : WireFloats} {self : TokudoEvent} (h : self.Fits)
    {fields : List (String × Json)}
    (hf : Carries self.fieldNames (self.variantFields floats) fields) :
    variantFromFields floats self.discriminant fields = .ok (self.reparsed floats) := by
  cases self with
  | cacheHit cacheKey sourceId similarity =>
    have hkey : requireField "cache_key" stringFromValue fields = .ok cacheKey :=
      requireField_of_carries (v := .str cacheKey) _ hf (by simp [fieldNames])
        (by simp [variantFields]) rfl
    have hsource : requireField "source_id" stringFromValue fields = .ok sourceId :=
      requireField_of_carries (v := .str sourceId) _ hf (by simp [fieldNames])
        (by simp [variantFields]) rfl
    have hsimilarity : defaultField "similarity" none (optionF64FromValue floats.single) fields =
        .ok (similarity.map floats.single.reparse) :=
      mappedField_of_carries hf (by simp [fieldNames]) (optionF64FromValue_some floats.single)
        (fun p hp => by simp [variantFields, hp]) (fun hz => by simp [variantFields, hz, skipNone])
    unfold variantFromFields discriminant
    dsimp only
    rw [hkey, hsource, hsimilarity]
    rfl
  | cacheMiss cacheKey =>
    have hkey : requireField "cache_key" stringFromValue fields = .ok cacheKey :=
      requireField_of_carries (v := .str cacheKey) _ hf (by simp [fieldNames])
        (by simp [variantFields]) rfl
    unfold variantFromFields discriminant
    dsimp only
    rw [hkey]
    rfl
  | routeDecision choice =>
    have hchoice : requireField "choice" RouterChoice.fromValue fields = .ok choice :=
      requireField_of_carries _ hf (by simp [fieldNames]) (by simp [variantFields])
        choice.fromValue_name
    unfold variantFromFields discriminant
    dsimp only
    rw [hchoice]
    rfl
  | compressApplied inputTokens outputTokens ratio =>
    obtain ⟨hin, hout⟩ := h
    have hinput : requireField "input_tokens" u32FromValue fields = .ok inputTokens :=
      requireField_of_carries _ hf (by simp [fieldNames]) (by simp [variantFields])
        (u32FromValue_ofNat hin)
    have houtput : requireField "output_tokens" u32FromValue fields = .ok outputTokens :=
      requireField_of_carries _ hf (by simp [fieldNames]) (by simp [variantFields])
        (u32FromValue_ofNat hout)
    have hratio : defaultField "ratio" none (optionF64FromValue floats.single) fields =
        .ok (ratio.map floats.single.reparse) :=
      mappedField_of_carries hf (by simp [fieldNames]) (optionF64FromValue_some floats.single)
        (fun p hp => by simp [variantFields, hp]) (fun hz => by simp [variantFields, hz, skipNone])
    unfold variantFromFields discriminant
    dsimp only
    rw [hinput, houtput, hratio]
    rfl
  | costEstimate hit input output cachedInput cacheWrite total usd delta =>
    obtain ⟨hin, hout, hread, hwrite, htotal⟩ := h
    have hhit : requireField "cache_hit" boolFromValue fields = .ok hit :=
      requireField_of_carries (v := .bool hit) _ hf (by simp [fieldNames]) (by simp [variantFields])
        rfl
    have u64 {name : String} {n : Nat} (hn : n ≤ u64Max)
        (hname : name ∈ ["input_tokens", "output_tokens", "total_tokens"])
        (hm : (name, Json.ofNat n) ∈ variantFields floats
          (.costEstimate hit input output cachedInput cacheWrite total usd delta)) :
        requireField name u64FromValue fields = .ok n := by
      refine requireField_of_carries _ hf ?_ hm (u64FromValue_ofNat hn)
      rcases List.mem_cons.mp hname with rfl | hname
      · simp [fieldNames]
      · rcases List.mem_cons.mp hname with rfl | hname
        · simp [fieldNames]
        · rw [List.mem_singleton.mp hname]
          simp [fieldNames]
    have hinput := @u64 "input_tokens" _ hin (by simp) (by simp [variantFields])
    have houtput := @u64 "output_tokens" _ hout (by simp) (by simp [variantFields])
    have hcached : defaultField "cached_input_tokens" 0 u64FromValue fields = .ok cachedInput :=
      zeroField_of_carries hf (by simp [fieldNames]) (u64FromValue_ofNat hread)
        (fun p hp => by simp [variantFields, hp])
        (fun hz => by rw [name_mem_costEstimate]; simp [hz])
    have hcacheWrite : defaultField "cache_write_tokens" 0 u64FromValue fields = .ok cacheWrite :=
      zeroField_of_carries hf (by simp [fieldNames]) (u64FromValue_ofNat hwrite)
        (fun p hp => by simp [variantFields, hp])
        (fun hz => by rw [name_mem_costEstimate]; simp [hz])
    have htot := @u64 "total_tokens" _ htotal (by simp) (by simp [variantFields])
    have husd : defaultField "usd_actual_estimate" none (optionF64FromValue floats.double) fields =
        .ok (usd.map floats.double.reparse) :=
      mappedField_of_carries hf (by simp [fieldNames]) (optionF64FromValue_some floats.double)
        (fun p hp => by simp [variantFields, hp])
        (fun hz => by rw [name_mem_costEstimate]; simp [hz])
    have hdelta : defaultField "provider_cache_usd_delta" none (optionF64FromValue floats.double)
        fields = .ok (delta.map floats.double.reparse) :=
      mappedField_of_carries hf (by simp [fieldNames]) (optionF64FromValue_some floats.double)
        (fun p hp => by simp [variantFields, hp])
        (fun hz => by rw [name_mem_costEstimate]; simp [hz])
    unfold variantFromFields discriminant
    dsimp only
    rw [hhit, hinput, houtput, hcached, hcacheWrite, htot, husd, hdelta]
    rfl
  | lineageEdge edge =>
    unfold variantFromFields discriminant
    dsimp only
    rw [edge.read_of_carries hf]
    rfl

/-- the tag is taken first, and the variant is read from what is left -/
theorem fromFields_of_carries {floats : WireFloats} {self : TokudoEvent} (h : self.Fits)
    {fields : List (String × Json)}
    (hf : Carries ("kind" :: self.fieldNames) (self.toFields floats) fields) :
    fromFields floats fields = .ok (self.reparsed floats) := by
  have hkind : requireField "kind" stringFromValue fields = .ok self.discriminant :=
    requireField_of_carries (v := .str self.discriminant) _ hf List.mem_cons_self
      List.mem_cons_self rfl
  have hvariant : Carries self.fieldNames (self.variantFields floats) (without ["kind"] fields) := by
    refine hf.without (fun name hn => List.mem_cons_of_mem _ hn) ?_ ?_
    · intro name hn hkind
      exact self.kind_notMem (List.mem_singleton.mp hkind ▸ hn)
    · refine @filter_known _ [("kind", .str self.discriminant)] _ ?_
        (fun p hp => self.mem_fieldNames floats hp)
      intro p hp
      rw [List.mem_singleton.mp hp]
      exact self.kind_notMem
  unfold fromFields
  rw [hkind]
  exact read_of_carries h hvariant

end TokudoEvent

/-! ## envelopes read back -/

namespace TokudoEnvelope

/-- the envelope, with every float of the event as it is parsed back -/
def reparsed (floats : WireFloats) (self : TokudoEnvelope) : TokudoEnvelope :=
  { self with event := self.event.reparsed floats }

theorem reparsed_eq_iff {floats : WireFloats} {self : TokudoEnvelope} :
    self.reparsed floats = self ↔ self.event.FloatsKept floats := by
  rw [← TokudoEvent.reparsed_eq_iff]
  constructor
  · exact fun h => congrArg event h
  · intro h
    unfold reparsed
    rw [h]

theorem fromJson_of_carries {floats : WireFloats} {self : TokudoEnvelope} (h : self.Fits)
    {fields : List (String × Json)} (hf : Carries self.fieldNames (self.toFields floats) fields) :
    fromJson floats (compactText (.obj fields)) = .ok (self.reparsed floats) := by
  have hversion : requireField "version" u32FromValue fields = .ok self.version :=
    requireField_of_carries _ hf (by simp [fieldNames, ownNames]) (by simp [toFields])
      (u32FromValue_ofNat h.version)
  have htime : requireField "occurred_at_millis" u64FromValue fields = .ok self.occurredAtMillis :=
    requireField_of_carries _ hf (by simp [fieldNames, ownNames]) (by simp [toFields])
      (u64FromValue_ofNat h.occurredAtMillis)
  have htick : requireField "tick" u64FromValue fields = .ok self.tick :=
    requireField_of_carries _ hf (by simp [fieldNames, ownNames]) (by simp [toFields])
      (u64FromValue_ofNat h.tick)
  have hevent : Carries ("kind" :: self.event.fieldNames) (self.event.toFields floats)
      (without ownNames fields) := by
    have hnodup : (ownNames ++ "kind" :: self.event.fieldNames).Nodup := self.fieldNames_nodup
    obtain ⟨-, -, hdisjoint⟩ := List.nodup_append.mp hnodup
    refine hf.without (fun name hn => List.mem_append_right _ hn)
      (fun name hn hown => hdisjoint name hown name hn rfl) (filter_known ?_ ?_)
    · intro p hp hk
      exact hdisjoint p.1 (List.mem_map_of_mem (f := Prod.fst) hp) p.1 hk rfl
    · intro p hp
      exact ((self.event.names_sublist floats).cons_cons "kind").subset (List.mem_map_of_mem hp)
  unfold fromJson
  rw [read_compactText]
  show fromFields floats fields = _
  unfold fromFields
  rw [hversion, htime, htick, TokudoEvent.fromFields_of_carries h.event hevent]
  rfl

theorem written_reads_back {floats : WireFloats} {self : TokudoEnvelope} (h : self.Fits) :
    ∃ text, self.toJson floats = .ok text ∧ fromJson floats text = .ok (self.reparsed floats) := by
  refine ⟨_, rfl, ?_⟩
  apply fromJson_of_carries h
  apply carries_self ((self.names_sublist floats).nodup self.fieldNames_nodup)
  intro p hp
  exact (self.names_sublist floats).subset (List.mem_map_of_mem hp)

/-- **An envelope is read back from the text that is emitted**, and from the text of every object
that carries its fields: they may be in any order, and among others that its reader does not look
up.  What is read has its floats parsed back; it is the envelope itself exactly if they are the
floats that were written. -/
theorem envelope_reads_back {floats : WireFloats} {self : TokudoEnvelope} (h : self.Fits) :
    (∃ text, self.toJson floats = .ok text ∧ fromJson floats text = .ok (self.reparsed floats)) ∧
    (∀ fields, Carries self.fieldNames (self.toFields floats) fields →
      fromJson floats (compactText (.obj fields)) = .ok (self.reparsed floats)) ∧
    (self.reparsed floats = self ↔ self.event.FloatsKept floats) :=
  ⟨written_reads_back h, fun _ hf => fromJson_of_carries h hf, reparsed_eq_iff⟩

def decimalWire : WireFloats := ⟨decimalFloats, decimalFloats⟩

theorem decimalFloats_keeps (q : Option F64) : decimalFloats.Keeps q :=
  fun x _ => decimalFloats_exact x

/-- a hit of a semantic cache, in the third event of a process -/
def thirdEnvelope : TokudoEnvelope := ⟨schemaVersion, 1700, 2, .cacheHit "k" "d1" (some (9 / 10))⟩

/-- it is read from an object with the fields the other way round, and one more -/
theorem thirdEnvelope_reads_back :
    fromJson decimalWire (compactText (.obj (("host", .str "a") ::
      (thirdEnvelope.toFields decimalWire).reverse))) = .ok thirdEnvelope := by
  have hfits : thirdEnvelope.Fits := by
    refine ⟨by decide, by decide, by decide, ?_⟩
    exact True.intro
  obtain ⟨-, hread, hsame⟩ := @envelope_reads_back decimalWire thirdEnvelope hfits
  rw [hread, hsame.mpr]
  · exact decimalFloats_keeps (some (9 / 10))
  · refine ⟨(thirdEnvelope.names_sublist decimalWire).nodup thirdEnvelope.fieldNames_nodup, ?_⟩
    exact List.reverse_perm (thirdEnvelope.toFields decimalWire)

end TokudoEnvelope

end Tokudo
