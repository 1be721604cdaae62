import Tokudo.Core.Model
import Tokudo.Json.RoundTrip

/-!
# A serde for text conversations

What the model takes from `serde_json`, `sha2` and `hex` as parameters, for messages and responses
that are plain text: the values as they are serialised, and a digest that is the bytes in
hexadecimal.  `textKeySerde_injective` and `textResponseSerde_roundTrips` are the laws that the
results about calls assume.
-/

namespace Tokudo

/-! ## requests -/

def userContentToValue : UserContent → Json
  | .text t => .obj [("text", .str t.text), ("type", .str "text")]
  | .other block => block

def assistantContentToValue : AssistantContent → Json
  | .text t => .obj [("text", .str t.text)]
  | .other block => block

def messageToValue : Message → Json
  | .system content => .obj [("content", .str content), ("role", .str "system")]
  | .user content =>
    .obj [("content", .arr (content.toList.map userContentToValue)), ("role", .str "user")]
  | .assistant id content =>
    .obj [("content", .arr (content.toList.map assistantContentToValue)), ("id", Json.ofString? id),
      ("role", .str "assistant")]

def historyToValue (history : OneOrMany Message) : Json := .arr (history.toList.map messageToValue)

def promptRequest (prompt : String) : CompletionRequest where
  model := none
  preamble := none
  chatHistory := .one (.user (.one (.text ⟨prompt, .null⟩)))
  documents := []
  tools := []
  temperature := none
  maxTokens := none
  toolChoice := none
  additionalParams := none
  outputSchema := none

/-! ## a digest -/

def hexChars (bytes : List UInt8) : List Char :=
  bytes.flatMap fun b => [Nat.digitChar (b.toNat / 16), Nat.digitChar (b.toNat % 16)]

theorem hexChars_injective {a b : List UInt8} (h : hexChars a = hexChars b) : a = b := by
  induction a generalizing b with
  | nil =>
    cases b with
    | nil => rfl
    | cons y b => cases h
  | cons x a ih =>
    cases b with
    | nil => cases h
    | cons y b =>
      have hx := x.toNat_lt
      have hy := y.toNat_lt
      obtain ⟨h1, h'⟩ := List.cons.inj h
      obtain ⟨h2, h3⟩ := List.cons.inj h'
      have e1 := congrArg Json.hexValue h1
      have e2 := congrArg Json.hexValue h2
      rw [Json.hexValue_digitChar _ (by omega), Json.hexValue_digitChar _ (by omega)] at e1 e2
      have hxy : x.toNat = y.toNat := by
        have := Option.some.inj e1
        have := Option.some.inj e2
        omega
      rw [UInt8.toNat_inj.mp hxy, ih h3]

/-- the bytes themselves, in hexadecimal -/
def hexDigest (bytes : List UInt8) : String := String.ofList (hexChars bytes)

theorem hexDigest_injective {a b : List UInt8} (h : hexDigest a = hexDigest b) : a = b :=
  hexChars_injective (String.ofList_injective h)

def textKeySerde : KeySerde where
  chatHistoryToValue := historyToValue
  toVec v := .ok (utf8 (Json.text v))
  sha256Hex := hexDigest

theorem textKeySerde_injective : textKeySerde.Injective where
  sha _ _ := hexDigest_injective
  text v w bs hv hw := by
    cases hv
    exact (Json.text_injective (utf8_injective (Except.ok.inj hw))).symm

/-! ## responses -/

def textResponse (text : String) (usage : Usage) : CompletionResponse String where
  choice := .one (.text ⟨text, .null⟩)
  usage := usage
  messageId := none
  rawResponse := text

def contentToValue : AssistantContent → Except String Json
  | .text ⟨text, .null⟩ => .ok (.obj [("text", .str text)])
  | _ => .error "not a plain text"

def contentFromValue : Json → Except String AssistantContent
  | .obj [(_, .str text)] => .ok (.text ⟨text, .null⟩)
  | _ => .error "not a plain text"

theorem contentFromValue_toValue {c : AssistantContent} {v : Json} (h : contentToValue c = .ok v) :
    contentFromValue v = .ok c := by
  unfold contentToValue at h
  split at h
  · cases h
    rfl
  · cases h

theorem mapM_roundTrip {α β : Type} {f : α → Except String β} {g : β → Except String α}
    (hfg : ∀ a b, f a = .ok b → g b = .ok a) {xs : List α} {ys : List β}
    (h : xs.mapM f = .ok ys) : ys.mapM g = .ok xs := by
  induction xs generalizing ys with
  | nil =>
    cases h
    rfl
  | cons x xs ih =>
    rw [List.mapM_cons] at h
    cases hx : f x with
    | error e => rw [hx] at h; cases h
    | ok y =>
      cases hxs : xs.mapM f with
      | error e => rw [hx, hxs] at h; cases h
      | ok ys' =>
        rw [hx, hxs] at h
        cases h
        rw [List.mapM_cons, hfg x y hx, ih hxs]
        rfl

def usageToValue (u : Usage) : Json :=
  .obj [("cache_creation_input_tokens", Json.ofNat u.cacheCreationInputTokens),
    ("cached_input_tokens", Json.ofNat u.cachedInputTokens),
    ("input_tokens", Json.ofNat u.inputTokens),
    ("output_tokens", Json.ofNat u.outputTokens),
    ("reasoning_tokens", Json.ofNat u.reasoningTokens),
    ("total_tokens", Json.ofNat u.totalTokens)]

def natField (k : String) (fields : List (String × Json)) : Except String Nat :=
  match Json.field? k fields with
  | some (.num ⟨.ofNat n, 0⟩) => .ok n
  | _ => .error ("missing field " ++ k)

def usageFromValue : Json → Except String Usage
  | .obj fields => do
    return { inputTokens := ← natField "input_tokens" fields
             outputTokens := ← natField "output_tokens" fields
             totalTokens := ← natField "total_tokens" fields
             cachedInputTokens := ← natField "cached_input_tokens" fields
             cacheCreationInputTokens := ← natField "cache_creation_input_tokens" fields
             reasoningTokens := ← natField "reasoning_tokens" fields }
  | _ => .error "expected an object"

theorem usageFromValue_toValue (u : Usage) : usageFromValue (usageToValue u) = .ok u := rfl

def cachedToValue (c : CachedCompletionResponse String) : Except String Json := do
  let choice ← c.choice.toList.mapM contentToValue
  return .obj [("choice", .arr choice), ("message_id", Json.ofString? c.messageId),
    ("raw_response", .str c.rawResponse), ("usage", usageToValue c.usage)]

def cachedFromValue : Json → Except String (CachedCompletionResponse String)
  | .obj [(_, .arr choice), (_, messageId), (_, .str rawResponse), (_, usage)] => do
    let usage ← usageFromValue usage
    match ← choice.mapM contentFromValue with
    | [] => .error "empty choice"
    | first :: rest =>
      let messageId := match messageId with
        | .str id => some id
        | _ => none
      return { choice := ⟨first, rest⟩, usage := usage, messageId := messageId,
               rawResponse := rawResponse }
  | _ => .error "not a response"

def textResponseSerde : ResponseSerde String where
  rawToValue raw := .ok (.str raw)
  cachedToValue := cachedToValue
  cachedFromValue := cachedFromValue

theorem textResponseSerde_roundTrips : textResponseSerde.RoundTrips := by
  rintro ⟨⟨first, rest⟩, usage, messageId, raw⟩ v h
  change cachedToValue _ = _ at h
  show cachedFromValue v = _
  unfold cachedToValue at h
  cases hc : (OneOrMany.toList ⟨first, rest⟩).mapM contentToValue with
  | error e =>
    simp only [hc] at h
    cases h
  | ok choice =>
    simp only [hc] at h
    cases h
    have hback := mapM_roundTrip (fun _ _ => contentFromValue_toValue) hc
    unfold cachedFromValue
    simp only [usageFromValue_toValue, hback]
    cases messageId <;> rfl

/-! ## a model -/

/-- a key of the host's own: the preamble -/
def preambleKey : CacheKey where
  key request _ := .ok (request.preamble.getD "")

/-- text in, text out; no router, compressor, catalog or lineage -/
def textModel {M : Type} (model : M) (key : CacheKey) (validator : Validator) :
    OptimizedModel M String where
  model := model
  router := PassThroughRouter
  compressor := NoCompressor
  key := key
  validator := validator
  serde := textResponseSerde
  catalog := none
  lineage := none

def RejectAllValidator : Validator where
  validate _ := .ok false

def textCascade (validator : Validator) : StaticCascade String where
  validator := validator
  rawToValue raw := .ok (.str raw)

/-- a dispatcher that always answers with this text -/
def replies {L : Type} (text : String) (_ : L) (_ : CompletionRequest) :
    Result (DispatchOutcome String) :=
  .ok { response := textResponse text .zero, route := none }

end Tokudo
