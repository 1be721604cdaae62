import Tokudo.Json.Value
import Mathlib.Data.Rat.Floor
import Mathlib.Algebra.Order.Round

/-!
# The request and response types of the wrapped library

The types of `rig::completion` that the crate reads or copies.  A block or a field that the crate
only carries along is kept as the JSON it is serialised to (`extra`, `block`).

Floating-point values are taken as exact rationals, and 64-bit counters as natural numbers.
-/

namespace Tokudo

/-- an `f32`, as the exact value it denotes; a decimal constant of the source stands for itself, not
for the `f32` next to it -/
abbrev F32 := ℚ

/-- an `f64`, in the same way -/
abbrev F64 := ℚ

def u64Max : Nat := 2 ^ 64 - 1

def u32Max : Nat := 2 ^ 32 - 1

/-- `u64::saturating_add` -/
def saturatingAdd (a b : Nat) : Nat := min (a + b) u64Max

theorem saturatingAdd_le (a b : Nat) : saturatingAdd a b ≤ a + b := Nat.min_le_left _ _

theorem saturatingAdd_mono {a a' b b' : Nat} (h : a ≤ a') (hb : b ≤ b') :
    saturatingAdd a b ≤ saturatingAdd a' b' := by
  unfold saturatingAdd
  omega

theorem saturatingAdd_min (a b : Nat) : saturatingAdd (min a u64Max) b = min (a + b) u64Max := by
  unfold saturatingAdd
  omega

/-- `rig::OneOrMany`: a list that is never empty -/
structure OneOrMany (α : Type) where
  first : α
  rest : List α

def OneOrMany.one {α : Type} (a : α) : OneOrMany α := ⟨a, []⟩

def OneOrMany.toList {α : Type} (l : OneOrMany α) : List α := l.first :: l.rest

def OneOrMany.map {α β : Type} (f : α → β) (l : OneOrMany α) : OneOrMany β := ⟨f l.first, l.rest.map f⟩

/-- `rig::completion::message::Text`; `extra` is every field but the text -/
structure Text where
  text : String
  extra : Json

inductive UserContent where
  | text (t : Text)
  | other (block : Json)

inductive AssistantContent where
  | text (t : Text)
  | other (block : Json)

inductive Message where
  | system (content : String)
  | user (content : OneOrMany UserContent)
  | assistant (id : Option String) (content : OneOrMany AssistantContent)

structure Document where
  id : String
  text : String
  additionalProps : Json

structure ToolDefinition where
  name : String
  description : String
  parameters : Json

structure CompletionRequest where
  model : Option String
  preamble : Option String
  chatHistory : OneOrMany Message
  documents : List Document
  tools : List ToolDefinition
  temperature : Option F64
  maxTokens : Option Nat
  toolChoice : Option Json
  additionalParams : Option Json
  outputSchema : Option Json

structure Usage where
  inputTokens : Nat
  outputTokens : Nat
  totalTokens : Nat
  cachedInputTokens : Nat
  cacheCreationInputTokens : Nat
  reasoningTokens : Nat
  deriving DecidableEq

/-- `Usage::new()` -/
def Usage.zero : Usage := ⟨0, 0, 0, 0, 0, 0⟩

/-- `R` is the provider's own response type -/
structure CompletionResponse (R : Type) where
  choice : OneOrMany AssistantContent
  usage : Usage
  messageId : Option String
  rawResponse : R

end Tokudo
