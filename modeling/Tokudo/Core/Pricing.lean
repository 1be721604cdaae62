import Tokudo.Core.Rig

/-!
# Pricing

`pricing.rs`.  The catalog (its table of prices and its cost function) belongs to
`rig-model-catalog` and is a parameter; resolving a model id and the cache delta are the crate's.
-/

namespace Tokudo

structure ModelPrice where
  inputPerMillion : F64
  outputPerMillion : F64
  cachedInputPerMillion : Option F64
  cacheWritePerMillion : Option F64
  deriving DecidableEq

structure PricingTable where
  rows : List (String × String × ModelPrice)

def PricingTable.lookup (table : PricingTable) (provider model : String) : Option ModelPrice :=
  (table.rows.find? fun row => decide (row.1 = provider ∧ row.2.1 = model)).map fun row => row.2.2

/-- the built-in table and `ModelPrice::cost_for` (input, output, cached and cache-write tokens) -/
structure Catalog where
  builtin : PricingTable
  costFor : ModelPrice → Nat → Nat → Nat → Nat → F64

structure ResolvedPrice where
  provider : String
  model : String
  price : ModelPrice
  deriving DecidableEq

/-- the characters with the Unicode property `White_Space` -/
def isWhitespace (c : Char) : Bool :=
  decide ((0x9 ≤ c.toNat ∧ c.toNat ≤ 0xD) ∨ c.toNat = 0x20 ∨ c.toNat = 0x85 ∨ c.toNat = 0xA0 ∨
    c.toNat = 0x1680 ∨ (0x2000 ≤ c.toNat ∧ c.toNat ≤ 0x200A) ∨ c.toNat = 0x2028 ∨
    c.toNat = 0x2029 ∨ c.toNat = 0x202F ∨ c.toNat = 0x205F ∨ c.toNat = 0x3000)

/-- `str::trim` -/
def trim (s : String) : String :=
  String.ofList ((s.toList.dropWhile isWhitespace).reverse.dropWhile isWhitespace).reverse

/-- `str::split_whitespace` -/
def splitWhitespace (s : String) : List String :=
  ((s.toList.splitOnP isWhitespace).filter fun word => !word.isEmpty).map String.ofList

/-- `str::split_once` -/
def splitOnce (s : String) (delimiter : Char) : Option (String × String) :=
  if delimiter ∈ s.toList then
    some (String.ofList (s.toList.takeWhile fun c => decide (c ≠ delimiter)),
      String.ofList ((s.toList.dropWhile fun c => decide (c ≠ delimiter)).drop 1))
  else none

def resolveExplicit (table : PricingTable) (modelId : String) (delimiter : Char) :
    Option ResolvedPrice :=
  match splitOnce modelId delimiter with
  | none => none
  | some (provider, model) =>
    if provider = "" ∨ model = "" then none
    else (table.lookup provider model).map fun price => ⟨provider, model, price⟩

/-- the only row of this model; a second one ends the search with nothing -/
def findModel (trimmed : String) : List (String × String × ModelPrice) → Option ResolvedPrice →
    Option ResolvedPrice
  | [], found => found
  | (provider, model, price) :: rows, found =>
    if model ≠ trimmed then findModel trimmed rows found
    else if found.isSome then none
    else findModel trimmed rows (some ⟨provider, model, price⟩)

def resolvePrice (table : PricingTable) (modelId : String) : Option ResolvedPrice :=
  let trimmed := trim modelId
  if trimmed = "" then none
  else match resolveExplicit table trimmed ':' with
    | some resolved => some resolved
    | none => match resolveExplicit table trimmed '/' with
      | some resolved => some resolved
      | none => findModel trimmed table.rows none

/-- `None` without the `model-catalog` feature -/
def estimateActualUsd (catalog : Option Catalog) (model : Option String) (usage : Usage) :
    Option F64 := do
  let catalog ← catalog
  let resolved ← resolvePrice catalog.builtin (← model)
  return catalog.costFor resolved.price usage.inputTokens usage.outputTokens
    usage.cachedInputTokens usage.cacheCreationInputTokens

def estimateProviderCacheUsdDelta (catalog : Option Catalog) (model : Option String)
    (usage : Usage) : Option F64 := do
  let catalog ← catalog
  let resolved ← resolvePrice catalog.builtin (← model)
  let inputRate := resolved.price.inputPerMillion
  let cachedRate := resolved.price.cachedInputPerMillion.getD inputRate
  let cacheWriteRate := resolved.price.cacheWritePerMillion.getD inputRate
  let readDelta := (usage.cachedInputTokens : ℚ) * (inputRate - cachedRate)
  let writeDelta := (usage.cacheCreationInputTokens : ℚ) * (inputRate - cacheWriteRate)
  return (readDelta + writeDelta) / 1000000

end Tokudo
