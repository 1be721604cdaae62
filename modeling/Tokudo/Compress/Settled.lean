import Tokudo.Compress.Pruning
import Tokudo.Compress.Size
import Tokudo.Json.Compact

/-!
# A request that is compressed again

`compress/json_pruner.rs`, `compress` on the result of `compress`.  The documents that are JSON are
written and parsed again on the way, so the parser has to read back what was written of them
(`ReadsPruned`).

* `compress_compress`  **compressing with tighter limits is all that counts; compressing again
  changes nothing, and reports what is there already as what it read and wrote.**
-/

namespace Tokudo

namespace JsonKeyPruner

/-- what is written of a document that was pruned is read back -/
def ReadsPruned (serde : JsonSerde) (config : JsonKeyPrunerConfig) (documents : List Document) :
    Prop :=
  ∀ doc ∈ documents, ∀ v, serde.fromStr doc.text = .ok v →
    serde.fromStr (serde.text (pruneValue config v)) = .ok (pruneValue config v)

section
variable {serde : JsonSerde} {config config' : JsonKeyPrunerConfig} {docs : List Document}

theorem ReadsPruned.tail {doc : Document} (h : ReadsPruned serde config (doc :: docs)) :
    ReadsPruned serde config docs :=
  fun d hd => h d (List.mem_cons_of_mem _ hd)

theorem pruneValue_pruneValue (h : Tighter config' config) (v : Json) :
    pruneValue config' (pruneValue config v) = pruneValue config' v := walk_walk h v 0

theorem prunedDocument_of_ok {doc : Document} {v : Json} (h : serde.fromStr doc.text = .ok v) :
    prunedDocument serde config doc = { doc with text := serde.text (pruneValue config v) } := by
  unfold prunedDocument
  rw [h]

theorem prunedDocument_of_error {doc : Document} {e : String}
    (h : serde.fromStr doc.text = .error e) : prunedDocument serde config doc = doc := by
  unfold prunedDocument
  rw [h]

theorem compressDocument_of_ok {doc : Document} {v : Json} (h : serde.fromStr doc.text = .ok v)
    (counts : CharCounts) :
    (compressDocument serde config counts doc).2 =
      counts.add (min doc.text.utf8ByteSize u64Max)
        (min (serde.text (pruneValue config v)).utf8ByteSize u64Max) := by
  unfold compressDocument
  rw [h]
  rfl

theorem compressDocument_of_error {doc : Document} {e : String}
    (h : serde.fromStr doc.text = .error e) (counts : CharCounts) :
    (compressDocument serde config counts doc).2 = counts := by
  unfold compressDocument
  rw [h]

theorem prunedDocument_prunedDocument (h : Tighter config' config)
    (hread : ReadsPruned serde config docs) {doc : Document} (hdoc : doc ∈ docs) :
    prunedDocument serde config' (prunedDocument serde config doc) =
      prunedDocument serde config' doc := by
  cases hv : serde.fromStr doc.text with
  | error e => rw [prunedDocument_of_error hv]
  | ok v =>
    rw [prunedDocument_of_ok hv, prunedDocument_of_ok (hread doc hdoc v hv), prunedDocument_of_ok hv,
      pruneValue_pruneValue h v]

theorem compress_compress_request (h : Tighter config' config) {request : CompletionRequest}
    (hread : ReadsPruned serde config request.documents) :
    (compress serde config' (compress serde config request).2).2 =
      (compress serde config' request).2 := by
  have hparams : (request.additionalParams.map (pruneValue config)).map (pruneValue config') =
      request.additionalParams.map (pruneValue config') := by
    rw [Option.map_map]
    congr 1
    funext v
    exact pruneValue_pruneValue h v
  have hdocs : (request.documents.map (prunedDocument serde config)).map
      (prunedDocument serde config') = request.documents.map (prunedDocument serde config') := by
    rw [List.map_map]
    apply List.map_congr_left
    intro doc hdoc
    exact prunedDocument_prunedDocument h hread hdoc
  rw [compress_request, compress_request, compress_request]
  show { request with
    additionalParams := (request.additionalParams.map (pruneValue config)).map (pruneValue config')
    documents := (request.documents.map (prunedDocument serde config)).map
      (prunedDocument serde config') } = _
  rw [hparams, hdocs]

/-! ## the counters of the second time -/

/-- what is reported of the counters -/
def CharCounts.stats (counts : CharCounts) : Option CompressionStats :=
  if counts.touched then some ⟨min counts.input u32Max, min counts.output u32Max⟩ else none

theorem compress_stats (request : CompletionRequest) :
    (compress serde config request).1 = (compressDocuments serde config
      (compressParams serde config ⟨0, 0, false⟩ request.additionalParams).2
      request.documents).2.stats := rfl

/-- the second time, what was written the first time is read and written -/
structure Again (counts counts' : CharCounts) : Prop where
  input : counts'.input = counts.output
  output : counts'.output = counts.output
  touched : counts'.touched = counts.touched

variable {counts counts' : CharCounts}

theorem Again.stats (h : Again counts counts') :
    counts'.stats = counts.stats.map fun stats => ⟨stats.outputTokens, stats.outputTokens⟩ := by
  unfold CharCounts.stats
  rw [h.touched, h.input, h.output]
  cases counts.touched with
  | false => rfl
  | true => rfl

theorem Again.add (h : Again counts counts') (before after : Nat) :
    Again (counts.add before after) (counts'.add after after) where
  input := by
    show saturatingAdd counts'.input after = saturatingAdd counts.output after
    rw [h.input]
  output := by
    show saturatingAdd counts'.output after = saturatingAdd counts.output after
    rw [h.output]
  touched := rfl

theorem Again.params (h : Again counts counts') (params : Option Json) :
    Again (compressParams serde config counts params).2
      (compressParams serde config counts' (params.map (pruneValue config))).2 := by
  cases params with
  | none => exact h
  | some v =>
    have hagain := h.add (approxChars serde v) (approxChars serde (pruneValue config v))
    show Again _ (counts'.add (approxChars serde (pruneValue config v))
      (approxChars serde (pruneValue config (pruneValue config v))))
    rw [pruneValue_pruneValue (.refl config) v]
    exact hagain

theorem Again.document (h : Again counts counts') (hread : ReadsPruned serde config docs)
    {doc : Document} (hdoc : doc ∈ docs) :
    Again (compressDocument serde config counts doc).2
      (compressDocument serde config counts' (prunedDocument serde config doc)).2 := by
  cases hv : serde.fromStr doc.text with
  | error e =>
    rw [prunedDocument_of_error hv, compressDocument_of_error hv, compressDocument_of_error hv]
    exact h
  | ok v =>
    rw [prunedDocument_of_ok hv, compressDocument_of_ok hv,
      compressDocument_of_ok (hread doc hdoc v hv),
      pruneValue_pruneValue (.refl config) v]
    exact h.add _ _

theorem Again.documents (h : Again counts counts') (hread : ReadsPruned serde config docs) :
    Again (compressDocuments serde config counts docs).2
      (compressDocuments serde config counts' (docs.map (prunedDocument serde config))).2 := by
  induction docs generalizing counts counts' with
  | nil => exact h
  | cons doc docs ih => exact ih (h.document hread List.mem_cons_self) hread.tail

end

/-! ## main result -/

/-- **A request that is compressed again.**  Compressing with one configuration and then with a
tighter one leaves the request that the tighter one alone leaves; so compressing again changes
nothing.  The second time reports, as read and as written, what the first time has written; or both
report nothing. -/
theorem compress_compress {serde : JsonSerde} {config config' : JsonKeyPrunerConfig}
    (h : Tighter config' config) {request : CompletionRequest}
    (hread : ReadsPruned serde config request.documents) :
    (compress serde config' (compress serde config request).2).2 =
        (compress serde config' request).2 ∧
      (compress serde config (compress serde config request).2).2 =
        (compress serde config request).2 ∧
      (compress serde config (compress serde config request).2).1 =
        (compress serde config request).1.map fun stats =>
          ⟨stats.outputTokens, stats.outputTokens⟩ := by
  refine ⟨compress_compress_request h hread, compress_compress_request (.refl config) hread, ?_⟩
  have h0 : Again ⟨0, 0, false⟩ ⟨0, 0, false⟩ := ⟨rfl, rfl, rfl⟩
  have hparams : Again (compressParams serde config ⟨0, 0, false⟩ request.additionalParams).2
      (compressParams serde config ⟨0, 0, false⟩
        (request.additionalParams.map (pruneValue config))).2 := h0.params _
  rw [compress_stats, compress_stats, ← (hparams.documents hread).stats, compress_request]

/-- a parser, and the decimals that it reads -/
def decimalSerde : JsonSerde := { textSerde with number := Json.decimalChars }

theorem fromStr_of_read {text : String} {v : Json} (h : Json.read text.toList = some v) :
    decimalSerde.fromStr text = .ok v := by
  unfold decimalSerde textSerde
  dsimp only
  rw [h]

/-- a request with long parameters, a document that is JSON, and one that is not -/
def attachedRequest : CompletionRequest :=
  { paramsRequest (.arr [.ofNat 1, .ofNat 2, .ofNat 3]) with
    documents := [⟨"d1", "[\"long text\"]", .null⟩, ⟨"d2", "plain text", .null⟩] }

theorem attachedRequest_compressed :
    (compress decimalSerde ⟨∅, 1, 1, 2⟩ (compress decimalSerde ⟨∅, 4, 2, 4⟩ attachedRequest).2).2 =
        (compress decimalSerde ⟨∅, 1, 1, 2⟩ attachedRequest).2 ∧
      (compress decimalSerde ⟨∅, 4, 2, 4⟩ (compress decimalSerde ⟨∅, 4, 2, 4⟩ attachedRequest).2).2 =
        (compress decimalSerde ⟨∅, 4, 2, 4⟩ attachedRequest).2 ∧
      (compress decimalSerde ⟨∅, 4, 2, 4⟩ (compress decimalSerde ⟨∅, 4, 2, 4⟩ attachedRequest).2).1 =
        (compress decimalSerde ⟨∅, 4, 2, 4⟩ attachedRequest).1.map fun stats =>
          ⟨stats.outputTokens, stats.outputTokens⟩ := by
  apply compress_compress ⟨by decide, by decide, by decide, Finset.empty_subset _⟩
  intro doc _ v _
  have hread := Json.read_compactText (pruneValue ⟨∅, 4, 2, 4⟩ v)
  exact fromStr_of_read hread

end JsonKeyPruner

end Tokudo
