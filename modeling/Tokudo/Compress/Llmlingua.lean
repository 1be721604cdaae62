import Tokudo.Route.Predictive
import Tokudo.Seq.Top
import Mathlib.Data.Rat.Floor
import Mathlib.Data.Finset.Sort

/-!
# `LlmlinguaCompressor`

`compress/llmlingua.rs`.  A text is split at whitespace; the words among its tokens are ranked by a
score, the best ones are kept, and each run of others collapses to a mark.  The tables of `char` are
a parameter, and so is the rounding of `f32`.

A text has fewer than `2 ^ 64` words, so that the saturating counter of the words counts them.
-/

namespace Tokudo
open Seq

structure LlmlinguaConfig where
  targetRatio : F32
  minTokens : Nat
  preserveTerms : Finset String
  salientTerms : Finset String

instance : Inhabited LlmlinguaConfig :=
  ⟨{ targetRatio := 3 / 5, minTokens := 64, preserveTerms := ∅, salientTerms := ∅ }⟩

/-- with `char::is_numeric` and `char::is_uppercase` -/
structure CharTables extends Unicode where
  isNumeric : Char → Bool
  isUppercase : Char → Bool

namespace LlmlinguaCompressor

/-- `OMITTED` -/
def omitted : String := "[...]"

/-! ## tokens -/

structure Token where
  text : String
  normalized : Option String
  ordinal : Option Nat

structure RankedToken where
  ordinal : Nat
  score : Int

def isStructuralWord (normalized : String) : Bool :=
  decide (normalized ∈ ["must", "never", "always", "only", "except", "because", "therefore", "error",
    "warning", "security", "policy", "schema", "json", "sql", "api"])

section
variable (tables : CharTables)

def normalize (raw : String) : Option String :=
  let normalized := String.ofList ((raw.toList.filter fun c =>
    tables.isAlphanumeric c || c == '_' || c == '-').flatMap tables.toLowercase)
  if normalized = "" then none else some normalized

/-- the tokens of the words, the next one of which gets this ordinal -/
def tokenizeFrom (ordinal : Nat) : List String → List Token
  | [] => []
  | raw :: raws =>
    match normalize tables raw with
    | none => ⟨raw, none, none⟩ :: tokenizeFrom ordinal raws
    | some normalized => ⟨raw, some normalized, some ordinal⟩ :: tokenizeFrom (ordinal + 1) raws

def tokenize (text : String) : List Token := tokenizeFrom tables 0 (splitWhitespace text)

end

def totalWords (tokens : List Token) : Nat := (tokens.filter fun token => token.ordinal.isSome).length

/-! ## the words that are kept -/

section
variable (tables : CharTables) (config : LlmlinguaConfig)

/-- the scores are small integers, which `f32` adds exactly -/
def scoreToken (original normalized : String) (ordinal total : Nat) : Int :=
  if normalized ∈ config.preserveTerms then 10000
  else
    let score := 1
    let score := if normalized ∈ config.salientTerms then score + 100 else score
    let score := if isStructuralWord normalized then score + 12 else score
    let score := if 7 ≤ normalized.toList.length then score + 3 else score
    let score := if original.toList.any tables.isNumeric then score + 2 else score
    let score := if original.toList.head?.any tables.isUppercase then score + 1 else score
    let score := if ordinal < 12 ∨ total - ordinal ≤ 12 then score + 4 else score
    if isStopword normalized then score - 2 else score

def rank (total : Nat) (token : Token) : Option RankedToken :=
  match token.ordinal, token.normalized with
  | some ordinal, some normalized =>
    some ⟨ordinal, scoreToken tables config token.text normalized ordinal total⟩
  | _, _ => none

/-- the higher score first, and then the smaller ordinal -/
def rankedBefore (left right : RankedToken) : Bool :=
  decide (right.score < left.score ∨ right.score = left.score ∧ left.ordinal ≤ right.ordinal)

def keepOrdinals (tokens : List Token) (total target : Nat) : Finset Nat :=
  let ranked := tokens.filterMap (rank tables config total)
  ((top rankedBefore target ranked).map RankedToken.ordinal).toFinset

end

/-! ## rendering -/

/-- the loop: `eliding` after a word that was dropped -/
def renderTokens (keep : Finset Nat) (eliding : Bool) : List Token → List String
  | [] => []
  | token :: tokens =>
    match token.ordinal with
    | none => token.text :: renderTokens keep false tokens
    | some ordinal =>
      if ordinal ∈ keep then token.text :: renderTokens keep false tokens
      else if eliding then renderTokens keep true tokens
      else omitted :: renderTokens keep true tokens

def renderCompressed (tokens : List Token) (keep : Finset Nat) : String :=
  " ".intercalate (renderTokens keep false tokens)

/-! ## a text -/

section
variable (tables : CharTables) (round : ℚ → F32) (config : LlmlinguaConfig)

def targetRatio : F32 := min 1 (max (round (1 / 20)) config.targetRatio)

/-- `((total_words as f32) * target_ratio).ceil() as usize` -/
def targetWords (total : Nat) : Nat :=
  min ⌈round (round total * targetRatio round config)⌉.toNat u64Max

def compressText (text : String) : Option (Nat × Nat) × String :=
  let tokens := tokenize tables text
  let total := totalWords tokens
  if total < config.minTokens then (none, text)
  else
    let target := targetWords round config total
    if total ≤ target then (none, text)
    else
      let compressed := renderCompressed tokens (keepOrdinals tables config tokens total target)
      let outputWords := (splitWhitespace compressed).length
      if total ≤ outputWords ∨ compressed = text then (none, text)
      else (some (total, outputWords), compressed)

end

/-! ## a request -/

/-- the counters of a loop -/
structure WordCounts where
  input : Nat
  output : Nat
  touched : Bool

def WordCounts.zero : WordCounts := ⟨0, 0, false⟩

def WordCounts.add (counts : WordCounts) : Option (Nat × Nat) → WordCounts
  | none => counts
  | some (input, output) =>
    ⟨saturatingAdd counts.input input, saturatingAdd counts.output output, true⟩

/-- `touched.then_some(..)` -/
def WordCounts.found (counts : WordCounts) : Option (Nat × Nat) :=
  if counts.touched then some (counts.input, counts.output) else none

section
variable {α : Type} (compress : α → Option (Nat × Nat) × α)

/-- a loop over items that are changed in place -/
def compressEach (counts : WordCounts) : List α → List α × WordCounts
  | [] => ([], counts)
  | item :: items =>
    let (found, item) := compress item
    let (items, counts) := compressEach (counts.add found) items
    (item :: items, counts)

def compressOneOrMany (counts : WordCounts) (items : OneOrMany α) : OneOrMany α × WordCounts :=
  let (found, first) := compress items.first
  let (rest, counts) := compressEach compress (counts.add found) items.rest
  (⟨first, rest⟩, counts)

/-- a loop with its own counters -/
def compressContent (items : OneOrMany α) : Option (Nat × Nat) × OneOrMany α :=
  let (items, counts) := compressOneOrMany compress .zero items
  (counts.found, items)

end

section
variable (tables : CharTables) (round : ℚ → F32) (config : LlmlinguaConfig)

def compressUserItem : UserContent → Option (Nat × Nat) × UserContent
  | .text t =>
    let (found, text) := compressText tables round config t.text
    (found, .text { t with text := text })
  | .other block => (none, .other block)

def compressAssistantItem : AssistantContent → Option (Nat × Nat) × AssistantContent
  | .text t =>
    let (found, text) := compressText tables round config t.text
    (found, .text { t with text := text })
  | .other block => (none, .other block)

def compressUserContent : OneOrMany UserContent → Option (Nat × Nat) × OneOrMany UserContent :=
  compressContent (compressUserItem tables round config)

def compressAssistantContent :
    OneOrMany AssistantContent → Option (Nat × Nat) × OneOrMany AssistantContent :=
  compressContent (compressAssistantItem tables round config)

def compressMessage : Message → Option (Nat × Nat) × Message
  | .system content =>
    let (found, content) := compressText tables round config content
    (found, .system content)
  | .user content =>
    let (found, content) := compressUserContent tables round config content
    (found, .user content)
  | .assistant id content =>
    let (found, content) := compressAssistantContent tables round config content
    (found, .assistant id content)

def compressDocument (document : Document) : Option (Nat × Nat) × Document :=
  let (found, text) := compressText tables round config document.text
  (found, { document with text := text })

def compressPreamble : Option String → Option (Nat × Nat) × Option String
  | none => (none, none)
  | some preamble =>
    let (found, preamble) := compressText tables round config preamble
    (found, some preamble)

def compress (request : CompletionRequest) : Option CompressionStats × CompletionRequest :=
  let (found, preamble) := compressPreamble tables round config request.preamble
  let (chatHistory, counts) := compressOneOrMany (compressMessage tables round config)
    (WordCounts.zero.add found) request.chatHistory
  let (documents, counts) := compressEach (compressDocument tables round config) counts
    request.documents
  (if counts.touched then some ⟨min counts.input u32Max, min counts.output u32Max⟩ else none,
    { request with preamble := preamble, chatHistory := chatHistory, documents := documents })

end

end LlmlinguaCompressor

def LlmlinguaCompressor (tables : CharTables) (round : ℚ → F32) (config : LlmlinguaConfig) :
    Compressor where
  compress request _ := .ok (LlmlinguaCompressor.compress tables round config request)

end Tokudo
