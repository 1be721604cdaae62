import Tokudo.Core.Traits
import Tokudo.Json.Path
import Tokudo.Json.Size
import Mathlib.Data.Finset.Basic

/-!
# `JsonKeyPruner`

`compress/json_pruner.rs`.  `walk` prunes a value: it collapses what is too deep, cuts arrays and
strings, and leaves alone what stands under a preserved key.  `compress` prunes the parameters of
a request, and the documents whose text is JSON.

`JsonSerde` is what it takes from `serde_json`: the text of a number, and the parser.
-/

namespace Tokudo

structure JsonKeyPrunerConfig where
  preserveKeys : Finset String
  maxDepth : Nat
  maxArrayLen : Nat
  maxStringLen : Nat

instance : Inhabited JsonKeyPrunerConfig :=
  ⟨{ preserveKeys := ∅, maxDepth := 4, maxArrayLen := 8, maxStringLen := 512 }⟩

namespace JsonKeyPruner

/-- `ELIDED` -/
def elided : String := "..."

/-! ## pruning a value -/

section
variable (config : JsonKeyPrunerConfig)

/-- a longer string is cut, and marked -/
def truncateString (s : String) : String :=
  if config.maxStringLen < s.toList.length then
    String.ofList (s.toList.take config.maxStringLen) ++ elided
  else s

/-- the elements that are kept, of all; the others leave one mark -/
def truncateItems (items : List Json) : List Json :=
  if config.maxArrayLen < items.length then
    items.take config.maxArrayLen ++ [.str elided]
  else items

mutual

/-- The elements of an array are pruned before the array is cut, which is the same (`walk_arr_take`). -/
def walk (value : Json) (depth : Nat) : Json :=
  if config.maxDepth < depth then .str elided
  else match value with
    | .obj map => .obj (walkFields map (depth + 1))
    | .arr items => .arr (truncateItems config (walkItems items (depth + 1)))
    | .str s => .str (truncateString config s)
    | value => value

def walkFields (map : List (String × Json)) (depth : Nat) : List (String × Json) :=
  match map with
  | [] => []
  | (k, v) :: map =>
    (k, if k ∈ config.preserveKeys then v else walk v depth) :: walkFields map depth

def walkItems (items : List Json) (depth : Nat) : List Json :=
  match items with
  | [] => []
  | item :: items => walk item depth :: walkItems items depth

end

def pruneValue (value : Json) : Json := walk config value 0

end

/-! ## what pruning does to one value -/

section
variable {config : JsonKeyPrunerConfig} {depth : Nat}

theorem walk_of_deep (h : config.maxDepth < depth) (value : Json) :
    walk config value depth = .str elided := by
  unfold walk
  exact if_pos h

theorem walk_obj (h : depth ≤ config.maxDepth) (map : List (String × Json)) :
    walk config (.obj map) depth = .obj (walkFields config map (depth + 1)) := by
  unfold walk
  exact if_neg (Nat.not_lt.mpr h)

theorem walk_arr (h : depth ≤ config.maxDepth) (items : List Json) :
    walk config (.arr items) depth = .arr (truncateItems config (walkItems config items (depth + 1))) := by
  unfold walk
  exact if_neg (Nat.not_lt.mpr h)

theorem walk_str (h : depth ≤ config.maxDepth) (s : String) :
    walk config (.str s) depth = .str (truncateString config s) := by
  unfold walk
  exact if_neg (Nat.not_lt.mpr h)

theorem walk_null (h : depth ≤ config.maxDepth) : walk config .null depth = .null := by
  unfold walk
  exact if_neg (Nat.not_lt.mpr h)

theorem walk_bool (h : depth ≤ config.maxDepth) (b : Bool) :
    walk config (.bool b) depth = .bool b := by
  unfold walk
  exact if_neg (Nat.not_lt.mpr h)

theorem walk_num (h : depth ≤ config.maxDepth) (n : JsonNumber) :
    walk config (.num n) depth = .num n := by
  unfold walk
  exact if_neg (Nat.not_lt.mpr h)

theorem walkItems_eq_map (items : List Json) (depth : Nat) :
    walkItems config items depth = items.map fun item => walk config item depth := by
  induction items with
  | nil => rfl
  | cons item items ih => rw [walkItems, ih, List.map_cons]

theorem keys_walkFields (map : List (String × Json)) (depth : Nat) :
    (walkFields config map depth).map Prod.fst = map.map Prod.fst := by
  induction map with
  | nil => rfl
  | cons p map ih =>
    obtain ⟨k, v⟩ := p
    rw [walkFields, List.map_cons, List.map_cons, ih]

theorem field?_walkFields (k : String) (map : List (String × Json)) (depth : Nat) :
    Json.field? k (walkFields config map depth) =
      (Json.field? k map).map fun v =>
        if k ∈ config.preserveKeys then v else walk config v depth := by
  induction map with
  | nil => rfl
  | cons p map ih =>
    obtain ⟨k', v⟩ := p
    rw [walkFields, Json.field?_cons, Json.field?_cons, ih]
    by_cases h : k = k'
    · rw [if_pos h, if_pos h, h, Option.map_some]
    · rw [if_neg h, if_neg h]

/-- the elements that are kept, and the mark -/
theorem truncateItems_eq (items : List Json) :
    truncateItems config items = items.take config.maxArrayLen ++
      if config.maxArrayLen < items.length then [.str elided] else [] := by
  unfold truncateItems
  by_cases h : config.maxArrayLen < items.length
  · rw [if_pos h, if_pos h]
  · rw [if_neg h, if_neg h, List.append_nil, List.take_of_length_le (Nat.le_of_not_lt h)]

/-- the array may as well be cut first -/
theorem walk_arr_take (h : depth ≤ config.maxDepth) (items : List Json) :
    walk config (.arr items) depth =
      .arr (walkItems config (items.take config.maxArrayLen) (depth + 1) ++
        if config.maxArrayLen < items.length then [.str elided] else []) := by
  rw [walk_arr h, truncateItems_eq, walkItems_eq_map, walkItems_eq_map, List.map_take,
    List.length_map]

end

/-! ## pruning a request -/

/-- what the compressor takes from `serde_json`: the text of a number, and the parser -/
structure JsonSerde where
  number : JsonNumber → List Char
  fromStr : String → Except String Json

section
variable (serde : JsonSerde)

/-- the compact text of a value -/
def JsonSerde.text (v : Json) : String := String.ofList (Json.write serde.number v)

/-- `serde_json::to_string`; a value can always be written -/
def JsonSerde.toString (v : Json) : Except String String := .ok (serde.text v)

def approxChars (value : Json) : Nat :=
  match serde.toString value with
  | .ok s => min s.utf8ByteSize u32Max
  | .error _ => 0

/-- the counters of `compress` -/
structure CharCounts where
  input : Nat
  output : Nat
  touched : Bool

def CharCounts.add (counts : CharCounts) (before after : Nat) : CharCounts where
  input := saturatingAdd counts.input before
  output := saturatingAdd counts.output after
  touched := true

variable (config : JsonKeyPrunerConfig)

/-- `additional_params` -/
def compressParams (counts : CharCounts) : Option Json → Option Json × CharCounts
  | none => (none, counts)
  | some params =>
    let before := approxChars serde params
    let params := pruneValue config params
    (some params, counts.add before (approxChars serde params))

/-- a document whose text is JSON -/
def compressDocument (counts : CharCounts) (doc : Document) : Document × CharCounts :=
  match serde.fromStr doc.text with
  | .error _ => (doc, counts)
  | .ok parsed =>
    match serde.toString (pruneValue config parsed) with
    | .error _ => (doc, counts)
    | .ok newText =>
      ({ doc with text := newText },
        counts.add (min doc.text.utf8ByteSize u64Max) (min newText.utf8ByteSize u64Max))

def compressDocuments (counts : CharCounts) : List Document → List Document × CharCounts
  | [] => ([], counts)
  | doc :: docs =>
    let (doc, counts) := compressDocument serde config counts doc
    let (docs, counts) := compressDocuments counts docs
    (doc :: docs, counts)

def compress (request : CompletionRequest) : Option CompressionStats × CompletionRequest :=
  let (params, counts) := compressParams serde config ⟨0, 0, false⟩ request.additionalParams
  let (documents, counts) := compressDocuments serde config counts request.documents
  (if counts.touched then some ⟨min counts.input u32Max, min counts.output u32Max⟩ else none,
    { request with additionalParams := params, documents := documents })

end

end JsonKeyPruner

def JsonKeyPruner (serde : JsonKeyPruner.JsonSerde) (config : JsonKeyPrunerConfig) : Compressor where
  compress request _ := .ok (JsonKeyPruner.compress serde config request)

end Tokudo
