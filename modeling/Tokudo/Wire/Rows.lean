import Tokudo.Wire.Provenance
import Tokudo.Report.Replay

/-!
# Saved rows

`replay.rs`: the derived writers and readers of `ReplayCallStats` and `ReplayRow`.  A host keeps the
rows of a workload and replays them later.

* `ReplayRow.read_of_carries`   a row is read back from every object that carries its fields;
* `saved_rows_read_back`        **so a saved workload is read back, row by row**, but for floats that
                                are not parsed back.
-/

namespace Tokudo

open Json

/-! ## call stats -/

namespace ReplayCallStats

/-- the counters are `u64` values -/
structure Fits (stats : ReplayCallStats) : Prop where
  promptTokens : stats.promptTokens ≤ u64Max
  completionTokens : stats.completionTokens ≤ u64Max
  wallMs : stats.wallMs ≤ u64Max
  providerCachedInputTokens : stats.providerCachedInputTokens ≤ u64Max
  providerCacheWriteTokens : stats.providerCacheWriteTokens ≤ u64Max

section
variable (floats : FloatSerde)

def toFields (self : ReplayCallStats) : List (String × Json) :=
  [("prompt_tokens", .ofNat self.promptTokens),
    ("completion_tokens", .ofNat self.completionTokens), ("wall_ms", .ofNat self.wallMs),
    ("usd", f64ToValue floats self.usd),
    ("provider_cached_input_tokens", .ofNat self.providerCachedInputTokens),
    ("provider_cache_write_tokens", .ofNat self.providerCacheWriteTokens),
    ("provider_cache_usd_delta", f64ToValue floats self.providerCacheUsdDelta)]

def fromFields (fields : List (String × Json)) : Decode ReplayCallStats := do
  let promptTokens ← requireField "prompt_tokens" u64FromValue fields
  let completionTokens ← requireField "completion_tokens" u64FromValue fields
  let wallMs ← requireField "wall_ms" u64FromValue fields
  let usd ← requireField "usd" (f64FromValue floats) fields
  let providerCachedInputTokens ←
    defaultField "provider_cached_input_tokens" 0 u64FromValue fields
  let providerCacheWriteTokens ← defaultField "provider_cache_write_tokens" 0 u64FromValue fields
  let providerCacheUsdDelta ←
    defaultField "provider_cache_usd_delta" 0 (f64FromValue floats) fields
  .ok { promptTokens, completionTokens, wallMs, usd, providerCachedInputTokens,
        providerCacheWriteTokens, providerCacheUsdDelta }

def fromValue : Json → Decode ReplayCallStats
  | .obj fields => fromFields floats fields
  | _ => .error (.invalidType "struct ReplayCallStats")

end

def fieldNames : List String :=
  ["prompt_tokens", "completion_tokens", "wall_ms", "usd", "provider_cached_input_tokens",
    "provider_cache_write_tokens", "provider_cache_usd_delta"]

theorem names_toFields (floats : FloatSerde) (self : ReplayCallStats) :
    (self.toFields floats).map Prod.fst = fieldNames := rfl

/-- the stats, with both floats as they are parsed back -/
def reparsed (floats : FloatSerde) (self : ReplayCallStats) : ReplayCallStats :=
  { self with
    usd := floats.reparse self.usd
    providerCacheUsdDelta := floats.reparse self.providerCacheUsdDelta }

structure FloatsKept (floats : FloatSerde) (stats : ReplayCallStats) : Prop where
  usd : floats.reparse stats.usd = stats.usd
  providerCacheUsdDelta : floats.reparse stats.providerCacheUsdDelta = stats.providerCacheUsdDelta

theorem reparsed_eq_iff {floats : FloatSerde} {self : ReplayCallStats} :
    self.reparsed floats = self ↔ self.FloatsKept floats := by
  obtain ⟨prompt, completion, wall, usd, cached, written, delta⟩ := self
  unfold reparsed
  simp only [ReplayCallStats.mk.injEq, true_and]
  exact ⟨fun h => ⟨h.1, h.2⟩, fun h => ⟨h.usd, h.providerCacheUsdDelta⟩⟩

theorem read_of_carries {floats : FloatSerde} {self : ReplayCallStats} (h : self.Fits)
    {fields : List (String × Json)} (hf : Carries fieldNames (self.toFields floats) fields) :
    fromFields floats fields = .ok (self.reparsed floats) := by
  have require {name : String} {n : Nat} (hn : n ≤ u64Max)
      (hm : (name, Json.ofNat n) ∈ self.toFields floats) (hk : name ∈ fieldNames) :
      requireField name u64FromValue fields = .ok n ∧ defaultField name 0 u64FromValue fields = .ok n :=
    ⟨requireField_of_carries _ hf hk hm (u64FromValue_ofNat hn),
      skippedField_of_carries _ _ hf hk (.inl ⟨_, hm, u64FromValue_ofNat hn⟩)⟩
  have prompt := @require "prompt_tokens" _ h.promptTokens (by simp [toFields]) (by decide)
  have completion := @require "completion_tokens" _ h.completionTokens (by simp [toFields])
    (by decide)
  have wall := @require "wall_ms" _ h.wallMs (by simp [toFields]) (by decide)
  have usd : requireField "usd" (f64FromValue floats) fields = .ok (floats.reparse self.usd) :=
    requireField_of_carries (v := f64ToValue floats self.usd) _ hf (by decide) (by simp [toFields])
      rfl
  have cachedInput := @require "provider_cached_input_tokens" _ h.providerCachedInputTokens
    (by simp [toFields]) (by decide)
  have cacheWrite := @require "provider_cache_write_tokens" _ h.providerCacheWriteTokens
    (by simp [toFields]) (by decide)
  have delta : defaultField "provider_cache_usd_delta" 0 (f64FromValue floats) fields =
      .ok (floats.reparse self.providerCacheUsdDelta) :=
    skippedField_of_carries _ _ hf (by decide)
      (.inl ⟨f64ToValue floats self.providerCacheUsdDelta, by simp [toFields], rfl⟩)
  unfold fromFields
  rw [prompt.1, completion.1, wall.1, usd, cachedInput.2, cacheWrite.2, delta]
  rfl

theorem fromValue_toFields {floats : FloatSerde} {self : ReplayCallStats} (h : self.Fits) :
    fromValue floats (.obj (self.toFields floats)) = .ok (self.reparsed floats) := by
  apply read_of_carries h
  apply carries_self
  · rw [names_toFields]
    decide
  · intro p hp
    rw [← self.names_toFields floats]
    exact List.mem_map_of_mem hp

end ReplayCallStats

/-! ## rows -/

namespace ReplayRow

structure Fits (row : ReplayRow) : Prop where
  baseline : row.baseline.Fits
  tokudo : row.tokudo.Fits
  provenance : row.provenance.Fits

section
variable (floats : WireFloats)

def toFields (self : ReplayRow) : List (String × Json) :=
  [("query_id", .str self.queryId), ("baseline", .obj (self.baseline.toFields floats.double)),
    ("tokudo", .obj (self.tokudo.toFields floats.double)),
    ("provenance", .obj (self.provenance.toFields floats))] ++
  skipNone "baseline_output" .str self.baselineOutput ++
  skipNone "tokudo_output" .str self.tokudoOutput

def fromFields (fields : List (String × Json)) : Decode ReplayRow := do
  let queryId ← requireField "query_id" stringFromValue fields
  let baseline ← requireField "baseline" (ReplayCallStats.fromValue floats.double) fields
  let tokudo ← requireField "tokudo" (ReplayCallStats.fromValue floats.double) fields
  let provenance ← requireField "provenance" (Provenance.fromValue floats) fields
  let baselineOutput ← defaultField "baseline_output" none optionStringFromValue fields
  let tokudoOutput ← defaultField "tokudo_output" none optionStringFromValue fields
  .ok { queryId, baseline, tokudo, provenance, baselineOutput, tokudoOutput }

def fromValue : Json → Decode ReplayRow
  | .obj fields => fromFields floats fields
  | _ => .error (.invalidType "struct ReplayRow")

def toJson (self : ReplayRow) : String := compactText (.obj (self.toFields floats))

def fromJson (text : String) : Decode ReplayRow :=
  match read text.toList with
  | some v => fromValue floats v
  | none => .error .notJson

end

def fieldNames : List String :=
  ["query_id", "baseline", "tokudo", "provenance", "baseline_output", "tokudo_output"]

theorem names_sublist (floats : WireFloats) (self : ReplayRow) :
    ((self.toFields floats).map Prod.fst).Sublist fieldNames := by
  unfold toFields
  rw [List.map_append, List.map_append]
  exact ((List.Sublist.refl _).append (names_skipNone _ _ _)).append (names_skipNone _ _ _)

theorem name_mem_toFields {floats : WireFloats} {self : ReplayRow} {name : String} :
    name ∈ (self.toFields floats).map Prod.fst ↔
      name ∈ ["query_id", "baseline", "tokudo", "provenance"] ∨
      self.baselineOutput.isSome ∧ name = "baseline_output" ∨
      self.tokudoOutput.isSome ∧ name = "tokudo_output" := by
  simp only [toFields, List.map_append, List.mem_append, name_mem_skipNone, List.map_cons,
    List.map_nil, or_assoc]

/-- the row, with every float as it is parsed back -/
def reparsed (floats : WireFloats) (self : ReplayRow) : ReplayRow :=
  { self with
    baseline := self.baseline.reparsed floats.double
    tokudo := self.tokudo.reparsed floats.double
    provenance := self.provenance.reparsed floats }

structure FloatsKept (floats : WireFloats) (row : ReplayRow) : Prop where
  baseline : row.baseline.FloatsKept floats.double
  tokudo : row.tokudo.FloatsKept floats.double
  provenance : row.provenance.FloatsKept floats

theorem reparsed_eq_iff {floats : WireFloats} {self : ReplayRow} :
    self.reparsed floats = self ↔ self.FloatsKept floats := by
  obtain ⟨queryId, baseline, tokudo, provenance, baselineOutput, tokudoOutput⟩ := self
  unfold reparsed
  simp only [ReplayRow.mk.injEq, ReplayCallStats.reparsed_eq_iff, Provenance.reparsed_eq_iff,
    true_and, and_true]
  exact ⟨fun h => ⟨h.1, h.2.1, h.2.2⟩, fun h => ⟨h.baseline, h.tokudo, h.provenance⟩⟩

/-- **A row is read back from every object that carries its fields.** -/
theorem read_of_carries {floats : WireFloats} {self : ReplayRow} (h : self.Fits)
    {fields : List (String × Json)} (hf : Carries fieldNames (self.toFields floats) fields) :
    fromFields floats fields = .ok (self.reparsed floats) := by
  have queryId : requireField "query_id" stringFromValue fields = .ok self.queryId :=
    requireField_of_carries (v := .str self.queryId) _ hf (by decide) (by simp [toFields]) rfl
  have baseline : requireField "baseline" (ReplayCallStats.fromValue floats.double) fields =
      .ok (self.baseline.reparsed floats.double) :=
    requireField_of_carries _ hf (by decide) (by simp [toFields])
      (ReplayCallStats.fromValue_toFields h.baseline)
  have tokudo : requireField "tokudo" (ReplayCallStats.fromValue floats.double) fields =
      .ok (self.tokudo.reparsed floats.double) :=
    requireField_of_carries _ hf (by decide) (by simp [toFields])
      (ReplayCallStats.fromValue_toFields h.tokudo)
  have provenance : requireField "provenance" (Provenance.fromValue floats) fields =
      .ok (self.provenance.reparsed floats) :=
    requireField_of_carries _ hf (by decide) (by simp [toFields])
      (Provenance.fromValue_toFields h.provenance)
  have string : ∀ s, optionStringFromValue (.str s) = .ok (some s) := fun _ => rfl
  have baselineOutput : defaultField "baseline_output" none optionStringFromValue fields =
      .ok self.baselineOutput :=
    noneField_of_carries hf (by decide) string (fun p hp => by simp [toFields, hp])
      (fun hz => by rw [name_mem_toFields]; simp [hz])
  have tokudoOutput : defaultField "tokudo_output" none optionStringFromValue fields =
      .ok self.tokudoOutput :=
    noneField_of_carries hf (by decide) string (fun p hp => by simp [toFields, hp])
      (fun hz => by rw [name_mem_toFields]; simp [hz])
  unfold fromFields
  rw [queryId, baseline, tokudo, provenance, baselineOutput, tokudoOutput]
  rfl

theorem carries_toFields (floats : WireFloats) (self : ReplayRow) :
    Carries fieldNames (self.toFields floats) (self.toFields floats) := by
  apply carries_self ((self.names_sublist floats).nodup (by decide))
  intro p hp
  exact (self.names_sublist floats).subset (List.mem_map_of_mem hp)

/-- the line is the text of an object that carries the fields of the row -/
def SavedAs (floats : WireFloats) (self : ReplayRow) (line : String) : Prop :=
  ∃ fields, Carries fieldNames (self.toFields floats) fields ∧ line = compactText (.obj fields)

theorem savedAs_toJson (floats : WireFloats) (self : ReplayRow) :
    self.SavedAs floats (self.toJson floats) := ⟨_, self.carries_toFields floats, rfl⟩

theorem fromJson_of_saved {floats : WireFloats} {self : ReplayRow} (h : self.Fits) {line : String}
    (hl : self.SavedAs floats line) : fromJson floats line = .ok (self.reparsed floats) := by
  obtain ⟨fields, hf, rfl⟩ := hl
  unfold fromJson
  rw [read_compactText]
  exact read_of_carries h hf

end ReplayRow

/-! ## workloads -/

/-- the rows of a workload that was saved row by row -/
def loadRows (floats : WireFloats) (lines : List String) : Decode (List ReplayRow) :=
  lines.mapM (ReplayRow.fromJson floats)

theorem loadRows_of_saved {floats : WireFloats} {rows : List ReplayRow}
    (h : ∀ row ∈ rows, row.Fits) {lines : List String}
    (hl : List.Forall₂ (ReplayRow.SavedAs floats) rows lines) :
    loadRows floats lines = .ok (rows.map (ReplayRow.reparsed floats)) := by
  unfold loadRows
  induction hl with
  | nil => rfl
  | @cons row line rows lines hline _ ih =>
    have hrow := ReplayRow.fromJson_of_saved (h row List.mem_cons_self) hline
    rw [List.mapM_cons, hrow, ih fun r hr => h r (List.mem_cons_of_mem _ hr)]
    rfl

theorem map_reparsed_eq_iff {floats : WireFloats} {rows : List ReplayRow} :
    rows.map (ReplayRow.reparsed floats) = rows ↔ ∀ row ∈ rows, row.FloatsKept floats := by
  induction rows with
  | nil => simp
  | cons row rows ih =>
    rw [List.map_cons, List.cons.injEq, ReplayRow.reparsed_eq_iff, ih, List.forall_mem_cons]

/-- **A saved workload is read back**, with its floats parsed back; so its replay is the replay of the
rows that were saved, if their floats are.  The fields of a saved row may be in any order, and among
others. -/
theorem saved_rows_read_back {floats : WireFloats} {rows : List ReplayRow}
    (h : ∀ row ∈ rows, row.Fits) {lines : List String}
    (hl : List.Forall₂ (ReplayRow.SavedAs floats) rows lines) :
    loadRows floats lines = .ok (rows.map (ReplayRow.reparsed floats)) ∧
      (rows.map (ReplayRow.reparsed floats) = rows ↔ ∀ row ∈ rows, row.FloatsKept floats) :=
  ⟨loadRows_of_saved h hl, map_reparsed_eq_iff⟩

/-- a hit of a call that the baseline paid for -/
def savedHit : ReplayRow where
  queryId := "q1"
  baseline := { promptTokens := 10, completionTokens := 5, usd := 1 / 2 }
  tokudo := {}
  provenance := { Provenance.passThrough with cacheHit := true, routerChoice := .cacheHit }
  tokudoOutput := some "hello"

theorem savedHit_read_back :
    loadRows ⟨decimalFloats, decimalFloats⟩
      [savedHit.toJson ⟨decimalFloats, decimalFloats⟩] = .ok [savedHit] := by
  have hfits : savedHit.Fits := by
    constructor <;> constructor <;> decide
  have hrows : ∀ row ∈ [savedHit], row.Fits := by
    intro row hrow
    rw [List.mem_singleton.mp hrow]
    exact hfits
  have hkept : ∀ row ∈ [savedHit], row.FloatsKept ⟨decimalFloats, decimalFloats⟩ := by
    have hexact := decimalFloats_exact
    intro row _
    exact ⟨⟨hexact _, hexact _⟩, ⟨hexact _, hexact _⟩,
      fun x _ => hexact x, fun x _ => hexact x, fun x _ => hexact x, fun x _ => hexact x,
      fun x _ => hexact x, fun x _ => hexact x⟩
  obtain ⟨hload, hsame⟩ := saved_rows_read_back hrows (.cons (savedHit.savedAs_toJson _) .nil)
  rw [hload, hsame.mpr hkept]

end Tokudo
