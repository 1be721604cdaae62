import Tokudo.Compress.Rendering

/-!
# The text surfaces of a request

`compress/llmlingua.rs`.  The texts that the compressor may rewrite are the preamble, system
messages, the text blocks of user and assistant messages, and the texts of the documents.
`mapSurfaces g` rewrites them by `g` and nothing else.

The counters of the nested loops are followed by `Sums`: the list of what has been found so far,
of which they are the sums.

`compress_surfaces`: **the compressor rewrites the surfaces and nothing else, and reports exactly
those that it changed.**
-/

namespace Tokudo

namespace LlmlinguaCompressor

/-! ## surfaces -/

def userTexts : UserContent → List String
  | .text t => [t.text]
  | .other _ => []

def assistantTexts : AssistantContent → List String
  | .text t => [t.text]
  | .other _ => []

def messageTexts : Message → List String
  | .system content => [content]
  | .user content => content.toList.flatMap userTexts
  | .assistant _ content => content.toList.flatMap assistantTexts

def surfaces (request : CompletionRequest) : List String :=
  request.preamble.toList ++
    (request.chatHistory.toList.flatMap messageTexts ++ request.documents.map Document.text)

section
variable (g : String → String)

def mapUserContent : UserContent → UserContent
  | .text t => .text { t with text := g t.text }
  | .other block => .other block

def mapAssistantContent : AssistantContent → AssistantContent
  | .text t => .text { t with text := g t.text }
  | .other block => .other block

def mapMessage : Message → Message
  | .system content => .system (g content)
  | .user content => .user (content.map (mapUserContent g))
  | .assistant id content => .assistant id (content.map (mapAssistantContent g))

def mapDocument (document : Document) : Document := { document with text := g document.text }

/-- the request with its surfaces rewritten -/
def mapSurfaces (request : CompletionRequest) : CompletionRequest :=
  { request with
    preamble := request.preamble.map g
    chatHistory := request.chatHistory.map (mapMessage g)
    documents := request.documents.map (mapDocument g) }

end

/-! ### what is unchanged -/

section
variable {α : Type} {g : String → String}

theorem map_eq_self_iff {f : α → α} {l : List α} : l.map f = l ↔ ∀ a ∈ l, f a = a := by
  have h : l.map f = l.map id ↔ ∀ a ∈ l, f a = id a := List.map_inj_left
  rwa [List.map_id] at h

theorem oneOrMany_map_eq_self_iff {f : α → α} {l : OneOrMany α} :
    l.map f = l ↔ ∀ a ∈ l.toList, f a = a := by
  obtain ⟨first, rest⟩ := l
  show (⟨f first, rest.map f⟩ : OneOrMany α) = ⟨first, rest⟩ ↔ ∀ a ∈ first :: rest, f a = a
  rw [OneOrMany.mk.injEq, map_eq_self_iff, List.forall_mem_cons]

theorem mapUserContent_eq_self_iff (item : UserContent) :
    mapUserContent g item = item ↔ ∀ s ∈ userTexts item, g s = s := by
  cases item with
  | other block => simp [mapUserContent, userTexts]
  | text t =>
    obtain ⟨text, extra⟩ := t
    simp [mapUserContent, userTexts]

theorem mapAssistantContent_eq_self_iff (item : AssistantContent) :
    mapAssistantContent g item = item ↔ ∀ s ∈ assistantTexts item, g s = s := by
  cases item with
  | other block => simp [mapAssistantContent, assistantTexts]
  | text t =>
    obtain ⟨text, extra⟩ := t
    simp [mapAssistantContent, assistantTexts]

theorem mapMessage_eq_self_iff (message : Message) :
    mapMessage g message = message ↔ ∀ s ∈ messageTexts message, g s = s := by
  cases message with
  | system content => simp [mapMessage, messageTexts]
  | user content =>
    show Message.user _ = Message.user _ ↔ _
    rw [Message.user.injEq, oneOrMany_map_eq_self_iff]
    simp only [mapUserContent_eq_self_iff]
    exact List.forall_mem_flatMap.symm
  | assistant id content =>
    show Message.assistant _ _ = Message.assistant _ _ ↔ _
    rw [Message.assistant.injEq, oneOrMany_map_eq_self_iff]
    simp only [mapAssistantContent_eq_self_iff, true_and]
    exact List.forall_mem_flatMap.symm

theorem mapDocument_eq_self_iff (document : Document) :
    mapDocument g document = document ↔ g document.text = document.text := by
  obtain ⟨id, text, props⟩ := document
  simp [mapDocument]

/-- rewriting leaves a request unchanged exactly if it leaves every surface unchanged -/
theorem mapSurfaces_eq_self_iff (request : CompletionRequest) :
    mapSurfaces g request = request ↔ ∀ s ∈ surfaces request, g s = s := by
  have hpreamble : request.preamble.map g = request.preamble ↔
      ∀ s ∈ request.preamble.toList, g s = s := by
    cases request.preamble with
    | none => simp
    | some preamble => simp
  have hhistory : request.chatHistory.map (mapMessage g) = request.chatHistory ↔
      ∀ s ∈ request.chatHistory.toList.flatMap messageTexts, g s = s := by
    rw [oneOrMany_map_eq_self_iff]
    simp only [mapMessage_eq_self_iff]
    exact List.forall_mem_flatMap.symm
  have hdocuments : request.documents.map (mapDocument g) = request.documents ↔
      ∀ s ∈ request.documents.map Document.text, g s = s := by
    rw [map_eq_self_iff, List.forall_mem_map]
    simp only [mapDocument_eq_self_iff]
  unfold surfaces
  rw [List.forall_mem_append, List.forall_mem_append, ← hpreamble, ← hhistory, ← hdocuments]
  constructor
  · intro h
    exact ⟨congrArg CompletionRequest.preamble h, congrArg CompletionRequest.chatHistory h,
      congrArg CompletionRequest.documents h⟩
  · intro h
    unfold mapSurfaces
    rw [h.1, h.2.1, h.2.2]

end

/-! ## the loops rewrite the surfaces -/

section
variable {α : Type} {f : α → Option (Nat × Nat) × α}

theorem compressEach_items (counts : WordCounts) (items : List α) :
    (compressEach f counts items).1 = items.map fun item => (f item).2 := by
  induction items generalizing counts with
  | nil => rfl
  | cons item items ih =>
    rw [List.map_cons, ← ih (counts.add (f item).1)]
    rfl

theorem compressOneOrMany_items (counts : WordCounts) (items : OneOrMany α) :
    (compressOneOrMany f counts items).1 = items.map fun item => (f item).2 := by
  unfold compressOneOrMany OneOrMany.map
  rw [← compressEach_items (counts.add (f items.first).1)]

theorem compressContent_items (items : OneOrMany α) :
    (compressContent f items).2 = items.map fun item => (f item).2 :=
  compressOneOrMany_items .zero items

end

section
variable (tables : CharTables) (round : ℚ → F32) (config : LlmlinguaConfig)

/-- the text as it is rewritten -/
def rewritten (text : String) : String := (compressText tables round config text).2

/-- the counts of a text, if it is rewritten -/
def found (text : String) : Option (Nat × Nat) := (compressText tables round config text).1

theorem compressMessage_message (message : Message) :
    (compressMessage tables round config message).2 =
      mapMessage (rewritten tables round config) message := by
  cases message with
  | system content => rfl
  | user content =>
    have hitem : (fun item => (compressUserItem tables round config item).2) =
        mapUserContent (rewritten tables round config) := by
      funext item
      cases item with
      | text t => rfl
      | other block => rfl
    show Message.user (compressContent (compressUserItem tables round config) content).2 = _
    rw [compressContent_items, hitem]
    rfl
  | assistant id content =>
    have hitem : (fun item => (compressAssistantItem tables round config item).2) =
        mapAssistantContent (rewritten tables round config) := by
      funext item
      cases item with
      | text t => rfl
      | other block => rfl
    show Message.assistant id (compressContent (compressAssistantItem tables round config) content).2 = _
    rw [compressContent_items, hitem]
    rfl

theorem compress_request (request : CompletionRequest) :
    (compress tables round config request).2 =
      mapSurfaces (rewritten tables round config) request := by
  have hpreamble : (compressPreamble tables round config request.preamble).2 =
      request.preamble.map (rewritten tables round config) := by
    cases request.preamble with
    | none => rfl
    | some preamble => rfl
  have hmessage : (fun message => (compressMessage tables round config message).2) =
      mapMessage (rewritten tables round config) :=
    funext (compressMessage_message tables round config)
  unfold compress mapSurfaces
  dsimp only
  rw [compressOneOrMany_items, compressEach_items, hpreamble, hmessage]
  rfl

end

/-! ## the counters are sums -/

/-- the counters after these counts have been found -/
structure Sums (counts : WordCounts) (l : List (Nat × Nat)) : Prop where
  input : counts.input = min (l.map Prod.fst).sum u64Max
  output : counts.output = min (l.map Prod.snd).sum u64Max
  touched : counts.touched = !l.isEmpty

section
variable {counts inner : WordCounts} {l l' : List (Nat × Nat)}

theorem sums_zero : Sums .zero [] := ⟨rfl, rfl, rfl⟩

theorem saturatingAdd_min_min (a b : Nat) :
    saturatingAdd (min a u64Max) (min b u64Max) = min (a + b) u64Max := by
  unfold saturatingAdd
  omega

theorem Sums.add (h : Sums counts l) (found : Option (Nat × Nat)) :
    Sums (counts.add found) (l ++ found.toList) := by
  cases found with
  | none =>
    rw [Option.toList_none, List.append_nil]
    exact h
  | some p =>
    constructor
    · show saturatingAdd counts.input p.1 = _
      rw [h.input, saturatingAdd_min, List.map_append, List.sum_append]
      rfl
    · show saturatingAdd counts.output p.2 = _
      rw [h.output, saturatingAdd_min, List.map_append, List.sum_append]
      rfl
    · show true = !(l ++ [p]).isEmpty
      cases l with
      | nil => rfl
      | cons q l => rfl

/-- what a loop with its own counters adds -/
theorem Sums.found (h : Sums counts l) (hinner : Sums inner l') :
    Sums (counts.add inner.found) (l ++ l') := by
  unfold WordCounts.found
  cases l' with
  | nil =>
    rw [hinner.touched, List.append_nil]
    exact h
  | cons p l' =>
    rw [hinner.touched]
    constructor
    · show saturatingAdd counts.input inner.input = _
      rw [h.input, hinner.input, saturatingAdd_min_min, List.map_append, List.sum_append]
    · show saturatingAdd counts.output inner.output = _
      rw [h.output, hinner.output, saturatingAdd_min_min, List.map_append, List.sum_append]
    · show true = !(l ++ p :: l').isEmpty
      cases l with
      | nil => rfl
      | cons q l => rfl

end

/-- `f` adds these counts -/
def Finds {α : Type} (f : α → Option (Nat × Nat) × α) (F : α → List (Nat × Nat)) : Prop :=
  ∀ a counts l, Sums counts l → Sums (counts.add (f a).1) (l ++ F a)

section
variable {α : Type} {f : α → Option (Nat × Nat) × α} {F : α → List (Nat × Nat)}
  {counts : WordCounts} {l : List (Nat × Nat)}

theorem Finds.each (hf : Finds f F) (h : Sums counts l) (items : List α) :
    Sums (compressEach f counts items).2 (l ++ items.flatMap F) := by
  induction items generalizing counts l with
  | nil =>
    rw [List.flatMap_nil, List.append_nil]
    exact h
  | cons item items ih =>
    rw [List.flatMap_cons, ← List.append_assoc]
    exact ih (hf item counts l h)

theorem Finds.oneOrMany (hf : Finds f F) (h : Sums counts l) (items : OneOrMany α) :
    Sums (compressOneOrMany f counts items).2 (l ++ items.toList.flatMap F) := by
  show Sums _ (l ++ (items.first :: items.rest).flatMap F)
  rw [List.flatMap_cons, ← List.append_assoc]
  exact hf.each (hf items.first counts l h) items.rest

theorem Finds.content (hf : Finds f F) :
    Finds (compressContent f) fun items => items.toList.flatMap F := by
  intro items counts l h
  exact h.found (hf.oneOrMany sums_zero items)

end

section
variable (tables : CharTables) (round : ℚ → F32) (config : LlmlinguaConfig)

theorem compressMessage_finds :
    Finds (compressMessage tables round config) fun message =>
      (messageTexts message).filterMap (found tables round config) := by
  intro message counts l h
  cases message with
  | system content => exact h.add (found tables round config content)
  | user content =>
    have hitem : Finds (compressUserItem tables round config) fun item =>
        (userTexts item).filterMap (found tables round config) := by
      intro item counts l h
      cases item with
      | text t => exact h.add (found tables round config t.text)
      | other block => exact h.add none
    show Sums _ (l ++ (content.toList.flatMap userTexts).filterMap _)
    rw [List.filterMap_flatMap]
    exact hitem.content content counts l h
  | assistant id content =>
    have hitem : Finds (compressAssistantItem tables round config) fun item =>
        (assistantTexts item).filterMap (found tables round config) := by
      intro item counts l h
      cases item with
      | text t => exact h.add (found tables round config t.text)
      | other block => exact h.add none
    show Sums _ (l ++ (content.toList.flatMap assistantTexts).filterMap _)
    rw [List.filterMap_flatMap]
    exact hitem.content content counts l h

theorem compressPreamble_finds :
    Finds (compressPreamble tables round config) fun preamble =>
      preamble.toList.filterMap (found tables round config) := by
  intro preamble counts l h
  cases preamble with
  | none => exact h.add none
  | some preamble => exact h.add (found tables round config preamble)

theorem compressDocument_finds :
    Finds (compressDocument tables round config) fun document =>
      (found tables round config document.text).toList := by
  intro document counts l h
  exact h.add (found tables round config document.text)

/-- the counters of the whole request -/
def requestCounts (request : CompletionRequest) : WordCounts :=
  let counts := WordCounts.zero.add (compressPreamble tables round config request.preamble).1
  let counts := (compressOneOrMany (compressMessage tables round config) counts
    request.chatHistory).2
  (compressEach (compressDocument tables round config) counts request.documents).2

theorem requestCounts_sums (request : CompletionRequest) :
    Sums (requestCounts tables round config request)
      ((surfaces request).filterMap (found tables round config)) := by
  have hpreamble := compressPreamble_finds tables round config request.preamble .zero [] sums_zero
  have hhistory := (compressMessage_finds tables round config).oneOrMany hpreamble
    request.chatHistory
  have hdocuments := (compressDocument_finds tables round config).each hhistory request.documents
  have htexts : (request.documents.map Document.text).filterMap (found tables round config) =
      request.documents.flatMap fun document =>
        (found tables round config document.text).toList := by
    rw [List.filterMap_map, List.filterMap_eq_flatMap_toList]
    rfl
  have hsplit : (surfaces request).filterMap (found tables round config) =
      ([] ++ request.preamble.toList.filterMap (found tables round config) ++
        request.chatHistory.toList.flatMap fun message =>
          (messageTexts message).filterMap (found tables round config)) ++
        request.documents.flatMap fun document =>
          (found tables round config document.text).toList := by
    unfold surfaces
    rw [List.filterMap_append, List.filterMap_append, List.filterMap_flatMap, List.nil_append,
      List.append_assoc, htexts]
  rw [hsplit]
  exact hdocuments

theorem compress_stats (request : CompletionRequest) :
    (compress tables round config request).1 =
      if (requestCounts tables round config request).touched then
        some ⟨min (requestCounts tables round config request).input u32Max,
          min (requestCounts tables round config request).output u32Max⟩
      else none := rfl

/-! ## the surfaces that are changed -/

/-- a text is changed exactly if it is counted -/
theorem rewritten_ne_iff (text : String) :
    rewritten tables round config text ≠ text ↔ (found tables round config text).isSome = true := by
  unfold rewritten found
  rw [compressText_eq]
  split
  · rename_i h
    exact ⟨fun _ => rfl, fun _ => rendered_ne tables round config h.2.2⟩
  · exact ⟨fun h => absurd rfl h, fun h => absurd h Bool.false_ne_true⟩

/-- the surfaces that the compressor changes -/
def changed (request : CompletionRequest) : List String :=
  (surfaces request).filter fun text => decide (rewritten tables round config text ≠ text)

/-- the words of a text before, and its tokens after -/
def counts (text : String) : Nat × Nat := (found tables round config text).getD (0, 0)

theorem filterMap_found (request : CompletionRequest) :
    (surfaces request).filterMap (found tables round config) =
      (changed tables round config request).map (counts tables round config) := by
  unfold changed
  induction surfaces request with
  | nil => rfl
  | cons text texts ih =>
    have hiff := rewritten_ne_iff tables round config text
    cases hf : found tables round config text with
    | none =>
      rw [hf] at hiff
      have hsame : ¬ rewritten tables round config text ≠ text :=
        fun h => Bool.false_ne_true (hiff.mp h)
      rw [List.filterMap_cons_none hf, ih, List.filter_cons_of_neg (by simpa using hsame)]
    | some p =>
      rw [hf] at hiff
      have hne : rewritten tables round config text ≠ text := hiff.mpr rfl
      rw [List.filterMap_cons_some hf, ih, List.filter_cons_of_pos (by simpa using hne),
        List.map_cons, counts, hf]
      rfl

end

/-- **The compressor rewrites the surfaces of a request, and nothing else.**  It returns no stats
exactly if the request is unchanged; otherwise its stats are the sums over the surfaces that it
changed, up to the maximum of a `u32`. -/
theorem compress_surfaces (tables : CharTables) (round : ℚ → F32) (config : LlmlinguaConfig)
    (request : CompletionRequest) (options : TokudoOptions) :
    ∃ stats, (LlmlinguaCompressor tables round config).compress request options =
        .ok (stats, mapSurfaces (rewritten tables round config) request) ∧
      (stats = none ↔ mapSurfaces (rewritten tables round config) request = request) ∧
      ∀ s, stats = some s →
        s.inputTokens = min ((changed tables round config request).map fun text =>
          (counts tables round config text).1).sum u32Max ∧
        s.outputTokens = min ((changed tables round config request).map fun text =>
          (counts tables round config text).2).sum u32Max := by
  have hsums := requestCounts_sums tables round config request
  rw [filterMap_found] at hsums
  have hunchanged : changed tables round config request = [] ↔
      mapSurfaces (rewritten tables round config) request = request := by
    rw [mapSurfaces_eq_self_iff]
    unfold changed
    rw [List.filter_eq_nil_iff]
    simp only [decide_eq_true_eq, not_not]
  refine ⟨(compress tables round config request).1, ?_, ?_, fun s hs => ?_⟩
  · show Except.ok (compress tables round config request) = _
    rw [← compress_request]
  · rw [compress_stats, hsums.touched, ← hunchanged]
    cases changed tables round config request with
    | nil => exact ⟨fun _ => rfl, fun _ => rfl⟩
    | cons text texts => exact ⟨fun h => (by cases h), fun h => (by cases h)⟩
  · rw [compress_stats, hsums.input, hsums.output, List.map_map, List.map_map] at hs
    split at hs
    · cases hs
      have hu : u32Max ≤ u64Max := by decide
      refine ⟨?_, ?_⟩
      · show min (min _ u64Max) u32Max = _
        rw [Nat.min_assoc, Nat.min_eq_right hu]
        rfl
      · show min (min _ u64Max) u32Max = _
        rw [Nat.min_assoc, Nat.min_eq_right hu]
        rfl
    · cases hs

end LlmlinguaCompressor

end Tokudo
