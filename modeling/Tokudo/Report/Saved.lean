import Tokudo.Report.Stats
import Tokudo.Core.Provenance
import Tokudo.Json.Fields
import Tokudo.Json.Pretty
import Mathlib.Tactic.Ring

/-!
# Saved reports

`Report::to_json` of `report.rs`, and the decoder that is derived for reports.  How a finite float
is printed and parsed is a parameter; an infinite one is written as `null`, and `null` is not read
as a float.

* `reads_back_iff_finite`   a report is read back if and only if its speedup is finite;
* `report_reads_back_iff`   so a report of two runs is read back, unless only the Tokudo run took
                            no time.
-/

namespace Tokudo

open Json

/-- how `serde_json` prints and parses finite floats -/
structure FloatSerde where
  print : F64 → JsonNumber
  parse : JsonNumber → F64

def FloatSerde.Exact (floats : FloatSerde) : Prop := ∀ q, floats.parse (floats.print q) = q

/-! ## numbers -/

def u64FromValue : Json → Decode Nat
  | .num ⟨.ofNat n, .ofNat 0⟩ => if n ≤ u64Max then .ok n else .error (.invalidType "u64")
  | _ => .error (.invalidType "u64")

section
variable (floats : FloatSerde)

def f64ToValue (q : F64) : Json := .num (floats.print q)

def ExtF64.toValue : ExtF64 → Json
  | .finite q => f64ToValue floats q
  | .infinity => .null

def f64FromValue : Json → Decode F64
  | .num n => .ok (floats.parse n)
  | _ => .error (.invalidType "f64")

def optionF64FromValue : Json → Decode (Option F64)
  | .null => .ok none
  | v => (f64FromValue floats v).map some

end

/-! ## structs -/

section
variable (floats : FloatSerde)

def RunStats.toFields (self : RunStats) : List (String × Json) :=
  [("requests", .ofNat self.requests),
    ("prompt_tokens", .ofNat self.promptTokens),
    ("completion_tokens", .ofNat self.completionTokens),
    ("wall_ms", .ofNat self.wallMs),
    ("usd", f64ToValue floats self.usd),
    ("provider_cached_input_tokens", .ofNat self.providerCachedInputTokens),
    ("provider_cache_write_tokens", .ofNat self.providerCacheWriteTokens),
    ("provider_cache_usd_delta", f64ToValue floats self.providerCacheUsdDelta),
    ("cache_hits", .ofNat self.cacheHits),
    ("cheap_calls", .ofNat self.cheapCalls),
    ("strong_calls", .ofNat self.strongCalls)]

def RunStats.fromFields (fields : List (String × Json)) : Decode RunStats := do
  let requests ← requireField "requests" u64FromValue fields
  let promptTokens ← requireField "prompt_tokens" u64FromValue fields
  let completionTokens ← requireField "completion_tokens" u64FromValue fields
  let wallMs ← requireField "wall_ms" u64FromValue fields
  let usd ← requireField "usd" (f64FromValue floats) fields
  let providerCachedInputTokens ←
    defaultField "provider_cached_input_tokens" 0 u64FromValue fields
  let providerCacheWriteTokens ← defaultField "provider_cache_write_tokens" 0 u64FromValue fields
  let providerCacheUsdDelta ←
    defaultField "provider_cache_usd_delta" 0 (f64FromValue floats) fields
  let cacheHits ← requireField "cache_hits" u64FromValue fields
  let cheapCalls ← requireField "cheap_calls" u64FromValue fields
  let strongCalls ← requireField "strong_calls" u64FromValue fields
  .ok { requests, promptTokens, completionTokens, wallMs, usd, providerCachedInputTokens,
        providerCacheWriteTokens, providerCacheUsdDelta, cacheHits, cheapCalls, strongCalls }

def RunStats.fromValue : Json → Decode RunStats
  | .obj fields => RunStats.fromFields floats fields
  | _ => .error (.invalidType "struct RunStats")

def Deltas.toFields (self : Deltas) : List (String × Json) :=
  [("gross_usd_saved", f64ToValue floats self.grossUsdSaved),
    ("provider_cache_usd_delta", f64ToValue floats self.providerCacheUsdDelta),
    ("usd_saved", f64ToValue floats self.usdSaved),
    ("usd_saved_pct", f64ToValue floats self.usdSavedPct),
    ("cache_hit_rate", f64ToValue floats self.cacheHitRate),
    ("cheap_model_share", f64ToValue floats self.cheapModelShare),
    ("speedup", self.speedup.toValue floats),
    ("quality_score", ofOption (f64ToValue floats) self.qualityScore)]

/-- an absent `Option` field is `None` -/
def Deltas.fromFields (fields : List (String × Json)) : Decode Deltas := do
  let grossUsdSaved ← requireField "gross_usd_saved" (f64FromValue floats) fields
  let providerCacheUsdDelta ← requireField "provider_cache_usd_delta" (f64FromValue floats) fields
  let usdSaved ← requireField "usd_saved" (f64FromValue floats) fields
  let usdSavedPct ← requireField "usd_saved_pct" (f64FromValue floats) fields
  let cacheHitRate ← requireField "cache_hit_rate" (f64FromValue floats) fields
  let cheapModelShare ← requireField "cheap_model_share" (f64FromValue floats) fields
  let speedup ← requireField "speedup" (f64FromValue floats) fields
  let qualityScore ← defaultField "quality_score" none (optionF64FromValue floats) fields
  let speedup := .finite speedup
  .ok { grossUsdSaved, providerCacheUsdDelta, usdSaved, usdSavedPct, cacheHitRate, cheapModelShare,
        speedup, qualityScore }

def Deltas.fromValue : Json → Decode Deltas
  | .obj fields => Deltas.fromFields floats fields
  | _ => .error (.invalidType "struct Deltas")

def Report.toFields (self : Report) : List (String × Json) :=
  [("baseline", .obj (self.baseline.toFields floats)),
    ("tokudo", .obj (self.tokudo.toFields floats)),
    ("deltas", .obj (self.deltas.toFields floats))]

def Report.fromFields (fields : List (String × Json)) : Decode Report := do
  let baseline ← requireField "baseline" (RunStats.fromValue floats) fields
  let tokudo ← requireField "tokudo" (RunStats.fromValue floats) fields
  let deltas ← requireField "deltas" (Deltas.fromValue floats) fields
  .ok { baseline, tokudo, deltas }

def Report.fromValue : Json → Decode Report
  | .obj fields => Report.fromFields floats fields
  | _ => .error (.invalidType "struct Report")

/-- no value of a report is refused by the writer -/
def Report.toJson (self : Report) : Result String := .ok (prettyText (.obj (self.toFields floats)))

/-- what `serde_json` reads as a `Report`; what follows the object is not looked at -/
def Report.fromJson (text : String) : Decode Report :=
  match read text.toList with
  | some v => Report.fromValue floats v
  | none => .error .notJson

/-- the text that is saved is read as the report -/
def Report.ReadsBack (self : Report) : Prop :=
  ∃ text, self.toJson floats = .ok text ∧ Report.fromJson floats text = .ok self

end

/-! ## numbers read back -/

theorem u64FromValue_ofNat {n : Nat} (h : n ≤ u64Max) : u64FromValue (.ofNat n) = .ok n :=
  if_pos h

section
variable {floats : FloatSerde} (hfloats : floats.Exact)
include hfloats

theorem f64FromValue_toValue (q : F64) : f64FromValue floats (f64ToValue floats q) = .ok q :=
  congrArg Except.ok (hfloats q)

theorem optionF64FromValue_toValue (q : Option F64) :
    optionF64FromValue floats (ofOption (f64ToValue floats) q) = .ok q := by
  cases q with
  | none => rfl
  | some q =>
    show (f64FromValue floats (f64ToValue floats q)).map some = _
    rw [f64FromValue_toValue hfloats]
    rfl

end

/-! ## structs read back -/

/-- the counters are `u64` values -/
structure RunStats.Fits (stats : RunStats) : Prop where
  requests : stats.requests ≤ u64Max
  promptTokens : stats.promptTokens ≤ u64Max
  completionTokens : stats.completionTokens ≤ u64Max
  wallMs : stats.wallMs ≤ u64Max
  providerCachedInputTokens : stats.providerCachedInputTokens ≤ u64Max
  providerCacheWriteTokens : stats.providerCacheWriteTokens ≤ u64Max
  cacheHits : stats.cacheHits ≤ u64Max
  cheapCalls : stats.cheapCalls ≤ u64Max
  strongCalls : stats.strongCalls ≤ u64Max

section
variable (floats : FloatSerde)

theorem RunStats.names_nodup (self : RunStats) :
    ((self.toFields floats).map Prod.fst).Nodup := by
  show ["requests", "prompt_tokens", "completion_tokens", "wall_ms", "usd",
    "provider_cached_input_tokens", "provider_cache_write_tokens", "provider_cache_usd_delta",
    "cache_hits", "cheap_calls", "strong_calls"].Nodup
  decide

theorem Deltas.names_nodup (self : Deltas) : ((self.toFields floats).map Prod.fst).Nodup := by
  show ["gross_usd_saved", "provider_cache_usd_delta", "usd_saved", "usd_saved_pct",
    "cache_hit_rate", "cheap_model_share", "speedup", "quality_score"].Nodup
  decide

theorem Report.names_nodup (self : Report) : ((self.toFields floats).map Prod.fst).Nodup := by
  show ["baseline", "tokudo", "deltas"].Nodup
  decide

end

section
variable {floats : FloatSerde} (hfloats : floats.Exact)
include hfloats

theorem RunStats.fromFields_toFields {self : RunStats} (h : self.Fits) :
    RunStats.fromFields floats (self.toFields floats) = .ok self := by
  have names := self.names_nodup floats
  have u64 {name : String} {n : Nat} (hn : n ≤ u64Max)
      (hmem : (name, Json.ofNat n) ∈ self.toFields floats) :
      requireField name u64FromValue (self.toFields floats) = .ok n ∧
        defaultField name 0 u64FromValue (self.toFields floats) = .ok n := by
    rw [requireField_of_mem _ names hmem, defaultField_of_mem _ _ names hmem,
      u64FromValue_ofNat hn]
    exact ⟨rfl, rfl⟩
  have f64 {name : String} {q : F64} (hmem : (name, f64ToValue floats q) ∈ self.toFields floats) :
      requireField name (f64FromValue floats) (self.toFields floats) = .ok q ∧
        defaultField name 0 (f64FromValue floats) (self.toFields floats) = .ok q := by
    rw [requireField_of_mem _ names hmem, defaultField_of_mem _ _ names hmem,
      f64FromValue_toValue hfloats]
    exact ⟨rfl, rfl⟩
  have requests := @u64 "requests" _ h.requests (by simp [toFields])
  have promptTokens := @u64 "prompt_tokens" _ h.promptTokens (by simp [toFields])
  have completionTokens := @u64 "completion_tokens" _ h.completionTokens (by simp [toFields])
  have wallMs := @u64 "wall_ms" _ h.wallMs (by simp [toFields])
  have usd := @f64 "usd" self.usd (by simp [toFields])
  have cachedInput := @u64 "provider_cached_input_tokens" _ h.providerCachedInputTokens
    (by simp [toFields])
  have cacheWrite := @u64 "provider_cache_write_tokens" _ h.providerCacheWriteTokens
    (by simp [toFields])
  have usdDelta := @f64 "provider_cache_usd_delta" self.providerCacheUsdDelta (by simp [toFields])
  have cacheHits := @u64 "cache_hits" _ h.cacheHits (by simp [toFields])
  have cheapCalls := @u64 "cheap_calls" _ h.cheapCalls (by simp [toFields])
  have strongCalls := @u64 "strong_calls" _ h.strongCalls (by simp [toFields])
  unfold fromFields
  rw [requests.1, promptTokens.1, completionTokens.1, wallMs.1, usd.1, cachedInput.2,
    cacheWrite.2, usdDelta.2, cacheHits.1, cheapCalls.1, strongCalls.1]
  rfl

/-- every field is read back, but an infinite speedup is refused -/
theorem Deltas.fromFields_toFields (self : Deltas) :
    Deltas.fromFields floats (self.toFields floats) =
      match self.speedup with
      | .finite _ => .ok self
      | .infinity => .error (.invalidType "f64") := by
  have names := self.names_nodup floats
  have f64 {name : String} {q : F64} (hmem : (name, f64ToValue floats q) ∈ self.toFields floats) :
      requireField name (f64FromValue floats) (self.toFields floats) = .ok q := by
    rw [requireField_of_mem _ names hmem, f64FromValue_toValue hfloats]
  have grossUsdSaved := @f64 "gross_usd_saved" self.grossUsdSaved (by simp [toFields])
  have usdDelta := @f64 "provider_cache_usd_delta" self.providerCacheUsdDelta (by simp [toFields])
  have usdSaved := @f64 "usd_saved" self.usdSaved (by simp [toFields])
  have usdSavedPct := @f64 "usd_saved_pct" self.usdSavedPct (by simp [toFields])
  have cacheHitRate := @f64 "cache_hit_rate" self.cacheHitRate (by simp [toFields])
  have cheapModelShare := @f64 "cheap_model_share" self.cheapModelShare (by simp [toFields])
  have speedup : requireField "speedup" (f64FromValue floats) (self.toFields floats) =
      f64FromValue floats (self.speedup.toValue floats) :=
    requireField_of_mem _ names (by simp [toFields])
  have qualityScore : defaultField "quality_score" none (optionF64FromValue floats)
      (self.toFields floats) = .ok self.qualityScore := by
    rw [← optionF64FromValue_toValue hfloats self.qualityScore]
    exact defaultField_of_mem _ _ names (by simp [toFields])
  unfold fromFields
  rw [grossUsdSaved, usdDelta, usdSaved, usdSavedPct, cacheHitRate, cheapModelShare, speedup,
    qualityScore]
  cases hspeed : self.speedup with
  | infinity => rfl
  | finite q =>
    have hfinite : f64FromValue floats (ExtF64.toValue floats (.finite q)) = .ok q :=
      f64FromValue_toValue hfloats q
    rw [hfinite]
    show Except.ok { self with speedup := ExtF64.finite q } = Except.ok self
    rw [← hspeed]

/-- **A saved report is read back if and only if its speedup is finite.** -/
theorem reads_back_iff_finite {self : Report} (hb : self.baseline.Fits) (ht : self.tokudo.Fits) :
    self.ReadsBack floats ↔ self.deltas.speedup ≠ .infinity := by
  have names := self.names_nodup floats
  have baseline : requireField "baseline" (RunStats.fromValue floats) (self.toFields floats) =
      .ok self.baseline := by
    rw [← RunStats.fromFields_toFields hfloats hb]
    exact requireField_of_mem _ names List.mem_cons_self
  have tokudo : requireField "tokudo" (RunStats.fromValue floats) (self.toFields floats) =
      .ok self.tokudo := by
    rw [← RunStats.fromFields_toFields hfloats ht]
    exact requireField_of_mem _ names (List.mem_cons_of_mem _ List.mem_cons_self)
  have deltas : requireField "deltas" (Deltas.fromValue floats) (self.toFields floats) =
      Deltas.fromFields floats (self.deltas.toFields floats) :=
    requireField_of_mem _ names
      (List.mem_cons_of_mem _ (List.mem_cons_of_mem _ List.mem_cons_self))
  have hread : Report.fromJson floats (prettyText (.obj (self.toFields floats))) =
      Report.fromFields floats (self.toFields floats) := by
    unfold Report.fromJson prettyText
    rw [String.toList_ofList, read_pretty]
    rfl
  have hfields : Report.fromFields floats (self.toFields floats) = .ok self ↔
      self.deltas.speedup ≠ .infinity := by
    unfold Report.fromFields
    rw [baseline, tokudo, deltas, Deltas.fromFields_toFields hfloats]
    cases hspeed : self.deltas.speedup with
    | finite q => exact iff_of_true rfl (fun h => by cases h)
    | infinity => exact iff_of_false (fun h => by cases h) (fun h => h rfl)
  constructor
  · intro h
    obtain ⟨text, htext, htoo⟩ := h
    cases htext
    exact hfields.mp (hread ▸ htoo)
  · intro h
    exact ⟨_, rfl, hread.trans (hfields.mpr h)⟩

end

/-! ## reports of two runs -/

theorem speedupRatio_ne_infinity_iff (baselineMs tokudoMs : Nat) :
    speedupRatio baselineMs tokudoMs ≠ .infinity ↔ tokudoMs ≠ 0 ∨ baselineMs = 0 := by
  unfold speedupRatio
  by_cases ht : tokudoMs = 0
  · by_cases hb : baselineMs = 0
    · simp [ht, hb]
    · simp [ht, hb]
  · simp [ht]

/-- **A saved report of two runs is read back** if and only if the Tokudo run took some time, or
both took none. -/
theorem report_reads_back_iff (floats : FloatSerde) (hfloats : floats.Exact)
    (baseline tokudo : RunStats) (qualityScore : Option F64) (hb : baseline.Fits)
    (ht : tokudo.Fits) :
    (Report.fromRuns baseline tokudo qualityScore).ReadsBack floats ↔
      tokudo.wallMs ≠ 0 ∨ baseline.wallMs = 0 :=
  (reads_back_iff_finite hfloats hb ht).trans
    (speedupRatio_ne_infinity_iff baseline.wallMs tokudo.wallMs)

/-! ## a run of cache hits -/

/-- one digit after the point where this is exact; an exponent above zero stands for a
denominator -/
def decimalFloats : FloatSerde where
  print q := if (10 * q).den = 1 then ⟨(10 * q).num, -1⟩ else ⟨q.num, q.den⟩
  parse n :=
    if n.exponent ≤ 0 then (n.mantissa : ℚ) / 10 ^ n.exponent.natAbs
    else (n.mantissa : ℚ) / (n.exponent : ℚ)

theorem decimalFloats_exact : decimalFloats.Exact := by
  intro q
  by_cases h : (10 * q).den = 1
  · have hnum : (((10 * q).num : ℤ) : ℚ) = 10 * q := Rat.coe_int_num_of_den_eq_one h
    have hprint : decimalFloats.print q = ⟨(10 * q).num, -1⟩ := if_pos h
    rw [hprint]
    show (((10 * q).num : ℤ) : ℚ) / 10 ^ 1 = q
    rw [hnum]
    ring
  · have hprint : decimalFloats.print q = ⟨q.num, q.den⟩ := if_neg h
    have hpos : ¬ (q.den : ℤ) ≤ 0 := by
      have := q.den_pos
      omega
    rw [hprint]
    show (if (q.den : ℤ) ≤ 0 then _ else ((q.num : ℤ) : ℚ) / (((q.den : ℕ) : ℤ) : ℚ)) = q
    rw [if_neg hpos, Int.cast_natCast]
    exact Rat.num_div_den q

/-- one request that the provider answered -/
def answeredRun : RunStats where
  requests := 1
  promptTokens := 12
  completionTokens := 3
  wallMs := 5
  usd := 1 / 2
  strongCalls := 1

/-- one request that the cache answered -/
def cachedRun (wallMs : Nat) : RunStats := { requests := 1, wallMs := wallMs, cacheHits := 1 }

theorem answeredRun_fits : answeredRun.Fits := by
  constructor <;> decide

theorem slow_hit_reads_back :
    (Report.fromRuns answeredRun (cachedRun 2) none).ReadsBack decimalFloats :=
  (report_reads_back_iff decimalFloats decimalFloats_exact answeredRun (cachedRun 2) none
    answeredRun_fits (by constructor <;> decide)).mpr (.inl (by decide))

/-- a hit within the millisecond: the speedup is written as `null`, and the report is lost -/
theorem fast_hit_lost :
    decimalFloats.Exact ∧ answeredRun.Fits ∧ (cachedRun 0).Fits ∧
      ¬ (Report.fromRuns answeredRun (cachedRun 0) none).ReadsBack decimalFloats := by
  have hfits : (cachedRun 0).Fits := by
    constructor <;> decide
  refine ⟨decimalFloats_exact, answeredRun_fits, hfits, ?_⟩
  intro h
  exact (reads_back_iff_finite decimalFloats_exact answeredRun_fits hfits).mp h rfl

end Tokudo
