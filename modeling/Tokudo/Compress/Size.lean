import Tokudo.Compress.JsonPruner
import Tokudo.Core.TextSerde

/-!
# The size of a pruned request

`compress/json_pruner.rs`.  Pruning trades parts of a text for marks.  `removed` and `inserted` are
the bytes of the parts and of the marks, read off the value that is pruned; `size_walk` is the
balance.

`compress_noLarger_iff`: **a compressed request is no larger exactly if the marks cost no more than
what they replace.**
-/

namespace Tokudo

namespace JsonKeyPruner
open Json (size elemsSize fieldsSize)

/-! ## what is removed, and what is inserted -/

section
variable (number : JsonNumber → List Char) (config : JsonKeyPrunerConfig)

mutual

/-- the bytes that pruning takes out of the text -/
def removed (value : Json) (depth : Nat) : Nat :=
  if config.maxDepth < depth then size number value
  else match value with
    | .obj map => removedFields map (depth + 1)
    | .arr items => removedItems items config.maxArrayLen (depth + 1)
    | .str s => charBytes ((s.toList.drop config.maxStringLen).flatMap Json.escape)
    | _ => 0

def removedFields (map : List (String × Json)) (depth : Nat) : Nat :=
  match map with
  | [] => 0
  | (k, v) :: map =>
    (if k ∈ config.preserveKeys then 0 else removed v depth) + removedFields map depth

/-- there is room for so many elements -/
def removedItems (items : List Json) (room depth : Nat) : Nat :=
  match items with
  | [] => 0
  | item :: items =>
    match room with
    | 0 => size number item + 1 + removedItems items 0 depth
    | room + 1 => removed item depth + removedItems items room depth

end

/-- the bytes of a mark in place of a value -/
def markSize : Nat := elided.utf8ByteSize + 2

mutual

/-- the bytes of the marks -/
def inserted (value : Json) (depth : Nat) : Nat :=
  if config.maxDepth < depth then markSize
  else match value with
    | .obj map => insertedFields map (depth + 1)
    | .arr items => insertedItems items config.maxArrayLen (depth + 1)
    | .str s => if config.maxStringLen < s.toList.length then elided.utf8ByteSize else 0
    | _ => 0

def insertedFields (map : List (String × Json)) (depth : Nat) : Nat :=
  match map with
  | [] => 0
  | (k, v) :: map =>
    (if k ∈ config.preserveKeys then 0 else inserted v depth) + insertedFields map depth

def insertedItems (items : List Json) (room depth : Nat) : Nat :=
  match items with
  | [] => 0
  | item :: items =>
    match room with
    | 0 => markSize + 1
    | room + 1 => inserted item depth + insertedItems items room depth

end

end

/-! ## the balance -/

section
variable {number : JsonNumber → List Char} {config : JsonKeyPrunerConfig} {depth : Nat}

theorem removed_of_deep (h : config.maxDepth < depth) (v : Json) :
    removed number config v depth = size number v := by
  unfold removed
  exact if_pos h

theorem inserted_of_deep (h : config.maxDepth < depth) (v : Json) :
    inserted config v depth = markSize := by
  unfold inserted
  exact if_pos h

theorem size_mark : size number (.str elided) = markSize := by
  rw [Json.size_str]
  rfl

theorem size_truncateString (s : String) :
    size number (.str (truncateString config s)) +
        charBytes ((s.toList.drop config.maxStringLen).flatMap Json.escape) =
      size number (.str s) +
        if config.maxStringLen < s.toList.length then elided.utf8ByteSize else 0 := by
  have hsplit : charBytes (s.toList.flatMap Json.escape) =
      charBytes ((s.toList.take config.maxStringLen).flatMap Json.escape) +
        charBytes ((s.toList.drop config.maxStringLen).flatMap Json.escape) := by
    rw [← charBytes_append, ← List.flatMap_append, List.take_append_drop]
  rw [Json.size_str, Json.size_str, hsplit]
  unfold truncateString
  by_cases h : config.maxStringLen < s.toList.length
  · have hmark : charBytes (elided.toList.flatMap Json.escape) = elided.utf8ByteSize := by rfl
    rw [if_pos h, if_pos h, String.toList_append, String.toList_ofList, List.flatMap_append,
      charBytes_append, hmark]
    omega
  · have hle := Nat.le_of_not_lt h
    rw [if_neg h, if_neg h, List.drop_of_length_le hle, List.take_of_length_le hle]
    rfl

/-- with no room left, the elements are removed and one mark is inserted -/
theorem removedItems_zero (items : List Json) (depth : Nat) :
    removedItems number config items 0 depth = elemsSize number items := by
  induction items with
  | nil => rfl
  | cons item items ih => rw [removedItems, elemsSize, ih]

/-- the elements that there is room for, and a mark for the others -/
def cut (items : List Json) (room : Nat) : List Json :=
  match items with
  | [] => []
  | item :: items =>
    match room with
    | 0 => [.str elided]
    | room + 1 => item :: cut items room

theorem cut_eq (items : List Json) (room : Nat) :
    cut items room = items.take room ++ if room < items.length then [.str elided] else [] := by
  induction items generalizing room with
  | nil => rw [cut, List.take_nil, List.length_nil, if_neg (Nat.not_lt_zero room), List.append_nil]
  | cons item items ih =>
    cases room with
    | zero => rw [cut, List.take_zero, List.length_cons, if_pos (Nat.succ_pos _), List.nil_append]
    | succ room =>
      rw [cut, ih, List.take_succ_cons, List.cons_append, List.length_cons]
      simp only [Nat.add_lt_add_iff_right]

theorem truncateItems_eq_cut (items : List Json) :
    truncateItems config items = cut items config.maxArrayLen := by
  rw [truncateItems_eq, cut_eq]

theorem cut_ne_nil {room : Nat} {items : List Json} (h : items ≠ []) : cut items room ≠ [] := by
  cases items with
  | nil => exact absurd rfl h
  | cons item items =>
    cases room with
    | zero => exact List.cons_ne_nil _ _
    | succ room => exact List.cons_ne_nil _ _

mutual

/-- **The balance of pruning**: what is removed and what is inserted account for the size. -/
theorem size_walk : ∀ (v : Json) (depth : Nat),
    size number (walk config v depth) + removed number config v depth =
      size number v + inserted config v depth := by
  intro v depth
  by_cases hd : config.maxDepth < depth
  · rw [walk_of_deep hd, removed_of_deep hd, inserted_of_deep hd, size_mark]
    exact Nat.add_comm _ _
  have hle : depth ≤ config.maxDepth := Nat.le_of_not_lt hd
  unfold removed inserted
  rw [if_neg hd, if_neg hd]
  cases v with
  | null => rw [walk_null hle]
  | bool b => rw [walk_bool hle]
  | num n => rw [walk_num hle]
  | str s =>
    rw [walk_str hle]
    exact size_truncateString s
  | arr items =>
    show _ + removedItems number config items config.maxArrayLen (depth + 1) =
      _ + insertedItems config items config.maxArrayLen (depth + 1)
    rw [walk_arr hle, truncateItems_eq_cut]
    cases items with
    | nil => rfl
    | cons item items =>
      have h := size_walkItems (item :: items) config.maxArrayLen (depth + 1)
      have hcons : walkItems config (item :: items) (depth + 1) ≠ [] := List.cons_ne_nil _ _
      rw [Json.size_arr number (cut_ne_nil hcons), Json.size_arr number (List.cons_ne_nil _ _)]
      omega
  | obj map =>
    show _ + removedFields number config map (depth + 1) =
      _ + insertedFields config map (depth + 1)
    rw [walk_obj hle]
    cases map with
    | nil => rfl
    | cons p map =>
      have h := size_walkFields (p :: map) (depth + 1)
      have hcons : walkFields config (p :: map) (depth + 1) ≠ [] := List.cons_ne_nil _ _
      rw [Json.size_obj number hcons, Json.size_obj number (List.cons_ne_nil p map)]
      omega

theorem size_walkFields : ∀ (map : List (String × Json)) (depth : Nat),
    fieldsSize number (walkFields config map depth) + removedFields number config map depth =
      fieldsSize number map + insertedFields config map depth
  | [], _ => rfl
  | (k, v) :: map, depth => by
    have ih := size_walkFields map depth
    rw [walkFields, removedFields, insertedFields, fieldsSize, fieldsSize]
    by_cases hk : k ∈ config.preserveKeys
    · rw [if_pos hk, if_pos hk, if_pos hk]
      omega
    · have hv := size_walk v depth
      rw [if_neg hk, if_neg hk, if_neg hk]
      omega

theorem size_walkItems : ∀ (items : List Json) (room depth : Nat),
    elemsSize number (cut (walkItems config items depth) room) +
        removedItems number config items room depth =
      elemsSize number items + insertedItems config items room depth
  | [], _, _ => by rfl
  | item :: items, 0, depth => by
    rw [removedItems_zero, insertedItems, walkItems, cut, elemsSize, size_mark, elemsSize]
    omega
  | item :: items, room + 1, depth => by
    have ih := size_walkItems items room depth
    have hitem := size_walk item depth
    rw [removedItems, insertedItems, walkItems, cut, elemsSize, elemsSize]
    omega

end

end

/-! ## a request -/

section
variable (serde : JsonSerde) (config : JsonKeyPrunerConfig)

theorem text_size (v : Json) : (serde.text v).utf8ByteSize = size serde.number v :=
  utf8ByteSize_ofList _

theorem approxChars_eq (v : Json) : approxChars serde v = min (serde.text v).utf8ByteSize u32Max := rfl

def prunedDocument (doc : Document) : Document :=
  match serde.fromStr doc.text with
  | .error _ => doc
  | .ok parsed => { doc with text := serde.text (pruneValue config parsed) }

theorem compressDocument_doc (counts : CharCounts) (doc : Document) :
    (compressDocument serde config counts doc).1 = prunedDocument serde config doc := by
  unfold compressDocument prunedDocument
  cases serde.fromStr doc.text with
  | error e => rfl
  | ok parsed => rfl

theorem compressDocuments_docs (counts : CharCounts) (docs : List Document) :
    (compressDocuments serde config counts docs).1 = docs.map (prunedDocument serde config) := by
  induction docs generalizing counts with
  | nil => rfl
  | cons doc docs ih =>
    rw [List.map_cons, ← ih (compressDocument serde config counts doc).2,
      ← compressDocument_doc serde config counts doc]
    rfl

theorem compress_request (request : CompletionRequest) :
    (compress serde config request).2 =
      { request with
        additionalParams := request.additionalParams.map (pruneValue config)
        documents := request.documents.map (prunedDocument serde config) } := by
  have hparams : ∀ counts params, (compressParams serde config counts params).1 =
      params.map (pruneValue config) := by
    intro counts params
    cases params with
    | none => rfl
    | some params => rfl
  rw [← compressDocuments_docs serde config (compressParams serde config ⟨0, 0, false⟩
    request.additionalParams).2, ← hparams ⟨0, 0, false⟩]
  rfl

end

/-! ### the counters -/

section
variable {serde : JsonSerde} {config : JsonKeyPrunerConfig} {counts : CharCounts}

/-- no more has been written than read -/
def CharCounts.NoLarger (counts : CharCounts) : Prop := counts.output ≤ counts.input

theorem CharCounts.NoLarger.add (h : counts.NoLarger) {before after : Nat} (hle : after ≤ before) :
    (counts.add before after).NoLarger :=
  saturatingAdd_mono h hle

theorem CharCounts.NoLarger.params (h : counts.NoLarger) {params : Option Json}
    (hle : ∀ p, params = some p → size serde.number (pruneValue config p) ≤ size serde.number p) :
    (compressParams serde config counts params).2.NoLarger := by
  cases params with
  | none => exact h
  | some p =>
    have hp := hle p rfl
    rw [← text_size, ← text_size] at hp
    apply h.add
    rw [approxChars_eq, approxChars_eq]
    omega

theorem CharCounts.NoLarger.document (h : counts.NoLarger) {doc : Document}
    (hle : (prunedDocument serde config doc).text.utf8ByteSize ≤ doc.text.utf8ByteSize) :
    (compressDocument serde config counts doc).2.NoLarger := by
  unfold prunedDocument at hle
  unfold compressDocument
  cases hd : serde.fromStr doc.text with
  | error e => exact h
  | ok parsed =>
    rw [hd] at hle
    apply h.add
    dsimp only at hle
    omega

theorem CharCounts.NoLarger.documents (h : counts.NoLarger) {docs : List Document}
    (hle : ∀ doc ∈ docs,
      (prunedDocument serde config doc).text.utf8ByteSize ≤ doc.text.utf8ByteSize) :
    (compressDocuments serde config counts docs).2.NoLarger := by
  induction docs generalizing counts with
  | nil => exact h
  | cons doc docs ih =>
    have hdoc := h.document (hle doc List.mem_cons_self)
    exact ih hdoc fun d hd => hle d (List.mem_cons_of_mem _ hd)

end

/-! ## what is no larger -/

/-- no part of the request got larger, nor do the stats say so -/
structure NoLarger (serde : JsonSerde) (stats : CompressionStats)
    (request request' : CompletionRequest) : Prop where
  tokens : stats.outputTokens ≤ stats.inputTokens
  ratio : ∀ r, stats.ratio = some r → r ≤ 1
  params : ∀ p p', request.additionalParams = some p → request'.additionalParams = some p' →
    (serde.text p').utf8ByteSize ≤ (serde.text p).utf8ByteSize
  documents : List.Forall₂ (fun doc doc' : Document =>
    doc'.text.utf8ByteSize ≤ doc.text.utf8ByteSize) request.documents request'.documents

/-- the marks cost no more than what they replace; a document is also written anew -/
structure Pays (serde : JsonSerde) (config : JsonKeyPrunerConfig) (request : CompletionRequest) :
    Prop where
  params : ∀ p, request.additionalParams = some p →
    inserted config p 0 ≤ removed serde.number config p 0
  documents : ∀ doc ∈ request.documents, ∀ v, serde.fromStr doc.text = .ok v →
    (serde.text v).utf8ByteSize + inserted config v 0 ≤
      doc.text.utf8ByteSize + removed serde.number config v 0

section
variable {serde : JsonSerde} {config : JsonKeyPrunerConfig}

theorem size_pruneValue_le_iff (v : Json) :
    size serde.number (pruneValue config v) ≤ size serde.number v ↔
      inserted config v 0 ≤ removed serde.number config v 0 := by
  have h : size serde.number (pruneValue config v) + removed serde.number config v 0 =
      size serde.number v + inserted config v 0 := size_walk v 0
  omega

theorem prunedDocument_le_iff (doc : Document) :
    (prunedDocument serde config doc).text.utf8ByteSize ≤ doc.text.utf8ByteSize ↔
      ∀ v, serde.fromStr doc.text = .ok v →
        (serde.text v).utf8ByteSize + inserted config v 0 ≤
          doc.text.utf8ByteSize + removed serde.number config v 0 := by
  unfold prunedDocument
  cases hd : serde.fromStr doc.text with
  | error e =>
    constructor
    · intro _ v hv
      cases hv
    · intro _
      exact Nat.le_refl _
  | ok parsed =>
    have h : size serde.number (pruneValue config parsed) + removed serde.number config parsed 0 =
        size serde.number parsed + inserted config parsed 0 := size_walk parsed 0
    dsimp only
    rw [text_size]
    constructor
    · intro hle v hv
      cases hv
      rw [text_size]
      omega
    · intro hle
      have hp := hle parsed rfl
      rw [text_size] at hp
      omega

theorem ratio_le_one {stats : CompressionStats} (h : stats.outputTokens ≤ stats.inputTokens)
    {r : F32} (hr : stats.ratio = some r) : r ≤ 1 := by
  unfold CompressionStats.ratio at hr
  by_cases h0 : stats.inputTokens = 0
  · rw [if_pos h0] at hr
    cases hr
  · rw [if_neg h0] at hr
    cases hr
    have hpos : (0 : ℚ) < (stats.inputTokens : ℚ) := Nat.cast_pos.mpr (Nat.pos_of_ne_zero h0)
    exact (div_le_one hpos).mpr (Nat.cast_le.mpr h)

end

/-- **When a compressed request is no larger**: exactly if its parameters and those of its documents
that are JSON pay for the marks. -/
theorem compress_noLarger_iff (serde : JsonSerde) (config : JsonKeyPrunerConfig)
    (request request' : CompletionRequest) (options : TokudoOptions) (stats : CompressionStats)
    (h : (JsonKeyPruner serde config).compress request options = .ok (some stats, request')) :
    NoLarger serde stats request request' ↔ Pays serde config request := by
  have hcompress : compress serde config request = (some stats, request') := Except.ok.inj h
  have hrequest := compress_request serde config request
  rw [hcompress] at hrequest
  have hparams : request'.additionalParams = request.additionalParams.map (pruneValue config) := by
    rw [show request' = _ from hrequest]
  have hdocs : request'.documents = request.documents.map (prunedDocument serde config) := by
    rw [show request' = _ from hrequest]
  constructor
  · intro hle
    refine ⟨fun p hp => ?_, fun doc hdoc => ?_⟩
    · have hsize := hle.params p (pruneValue config p) hp (by rw [hparams, hp]; rfl)
      rw [text_size, text_size] at hsize
      exact (size_pruneValue_le_iff p).mp hsize
    · have hall := hle.documents
      rw [hdocs, List.forall₂_map_right_iff, List.forall₂_same] at hall
      exact (prunedDocument_le_iff doc).mp (hall doc hdoc)
  · intro hpays
    have hp : ∀ p, request.additionalParams = some p →
        size serde.number (pruneValue config p) ≤ size serde.number p :=
      fun p hp => (size_pruneValue_le_iff p).mpr (hpays.params p hp)
    have hd : ∀ doc ∈ request.documents,
        (prunedDocument serde config doc).text.utf8ByteSize ≤ doc.text.utf8ByteSize :=
      fun doc hdoc => (prunedDocument_le_iff doc).mpr (hpays.documents doc hdoc)
    have hstats : stats.outputTokens ≤ stats.inputTokens := by
      have h0 : CharCounts.NoLarger ⟨0, 0, false⟩ := Nat.le_refl 0
      have hcounts := (h0.params hp).documents hd
      have hsome := congrArg Prod.fst hcompress
      unfold compress at hsome
      dsimp only at hsome
      split at hsome
      · cases hsome
        unfold CharCounts.NoLarger at hcounts
        dsimp only
        omega
      · cases hsome
    refine ⟨hstats, fun r hr => ratio_le_one hstats hr, fun p p' hp₁ hp₂ => ?_, ?_⟩
    · rw [hparams, hp₁] at hp₂
      cases hp₂
      rw [text_size, text_size]
      exact hp p hp₁
    · rw [hdocs, List.forall₂_map_right_iff, List.forall₂_same]
      exact hd

/-! ### parameters -/

def textSerde : JsonSerde where
  number := Json.numChars
  fromStr text :=
    match Json.read text.toList with
    | none => .error "expected value"
    | some v => .ok v

def paramsRequest (params : Json) : CompletionRequest :=
  { promptRequest "hi" with additionalParams := some params }

/-- a value that is one level too deep for the default limits -/
def nested (v : Json) : Json :=
  .obj [("a", .obj [("b", .obj [("c", .obj [("d", .obj [("e", v)])])])])]

theorem long_value_pays :
    ∃ stats request', (JsonKeyPruner textSerde default).compress
        (paramsRequest (nested (.str "a long text"))) {} = .ok (some stats, request') ∧
      NoLarger textSerde stats (paramsRequest (nested (.str "a long text"))) request' := by
  refine ⟨_, _, rfl, (compress_noLarger_iff textSerde default
    (paramsRequest (nested (.str "a long text"))) _ {} _ rfl).mpr ⟨fun p hp => ?_, fun doc hdoc => ?_⟩⟩
  · cases hp
    decide
  · cases hdoc

/-- **Compression enlarges a request**: with the default limits, a number that is too deep becomes a
longer mark. -/
theorem short_value_enlarged :
    ∃ stats request', (JsonKeyPruner textSerde default).compress (paramsRequest (nested (.ofNat 1)))
        {} = .ok (some stats, request') ∧
      stats.inputTokens < stats.outputTokens ∧
      request'.additionalParams = some (nested (.str "...")) ∧
      (textSerde.text (nested (.ofNat 1))).utf8ByteSize <
        (textSerde.text (nested (.str "..."))).utf8ByteSize := by
  refine ⟨_, _, rfl, ?_, rfl, ?_⟩
  · decide
  · decide

end JsonKeyPruner

end Tokudo
