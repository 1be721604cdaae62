import Tokudo.Core.Rig
import Mathlib.Tactic.Linarith
import Mathlib.Tactic.Positivity

/-!
# Run statistics and what is derived from them

`report.rs`: the counters of a run over a workload, and the comparison of a baseline run with a
Tokudo run.

* `cacheHitRate_mem`, `cheapShare_mem`   the two rates are fractions, if the calls they count are
                                         among the requests;
* `usdSaved_eq`                          the savings are the difference of what the runs would have
                                         cost without the provider's cache.
-/

namespace Tokudo

structure RunStats where
  requests : Nat := 0
  promptTokens : Nat := 0
  completionTokens : Nat := 0
  wallMs : Nat := 0
  usd : F64 := 0
  providerCachedInputTokens : Nat := 0
  providerCacheWriteTokens : Nat := 0
  providerCacheUsdDelta : F64 := 0
  cacheHits : Nat := 0
  cheapCalls : Nat := 0
  strongCalls : Nat := 0
  deriving DecidableEq

instance : Inhabited RunStats := ⟨{}⟩

namespace RunStats
variable (self : RunStats)

def cacheHitRate : F64 :=
  if self.requests = 0 then 0 else (self.cacheHits : ℚ) / (self.requests : ℚ)

def cheapShare : F64 :=
  let dispatched := self.requests - self.cacheHits
  if dispatched = 0 then 0 else (self.cheapCalls : ℚ) / (dispatched : ℚ)

end RunStats

/-- an `f64` that may be infinite -/
inductive ExtF64 where
  | finite (q : F64)
  | infinity
  deriving DecidableEq

/-- `f64::clamp` -/
def clamp (low high q : F64) : F64 := max low (min high q)

structure Deltas where
  grossUsdSaved : F64
  providerCacheUsdDelta : F64
  usdSaved : F64
  usdSavedPct : F64
  cacheHitRate : F64
  cheapModelShare : F64
  speedup : ExtF64
  qualityScore : Option F64
  deriving DecidableEq

/-- `f64::INFINITY` if only the Tokudo run took no time -/
def speedupRatio (baselineMs tokudoMs : Nat) : ExtF64 :=
  if tokudoMs = 0 then if baselineMs = 0 then .finite 1 else .infinity
  else .finite ((baselineMs : ℚ) / (tokudoMs : ℚ))

def Deltas.compute (baseline tokudo : RunStats) (qualityScore : Option F64) : Deltas :=
  let grossUsdSaved := baseline.usd - tokudo.usd
  let providerCacheUsdDelta := tokudo.providerCacheUsdDelta - baseline.providerCacheUsdDelta
  let usdSaved := grossUsdSaved - providerCacheUsdDelta
  { grossUsdSaved := grossUsdSaved
    providerCacheUsdDelta := providerCacheUsdDelta
    usdSaved := usdSaved
    usdSavedPct := if 0 < baseline.usd then clamp (-1) 1 (usdSaved / baseline.usd) else 0
    cacheHitRate := tokudo.cacheHitRate
    cheapModelShare := tokudo.cheapShare
    speedup := speedupRatio baseline.wallMs tokudo.wallMs
    qualityScore := qualityScore }

structure Report where
  baseline : RunStats
  tokudo : RunStats
  deltas : Deltas
  deriving DecidableEq

def Report.fromRuns (baseline tokudo : RunStats) (qualityScore : Option F64) : Report where
  baseline := baseline
  tokudo := tokudo
  deltas := .compute baseline tokudo qualityScore

/-! ## rates -/

theorem fraction_mem {part whole : Nat} (h : part ≤ whole) (hw : whole ≠ 0) :
    0 ≤ (part : ℚ) / (whole : ℚ) ∧ (part : ℚ) / (whole : ℚ) ≤ 1 := by
  have hpos : (0 : ℚ) < whole := by
    exact_mod_cast Nat.pos_of_ne_zero hw
  have hle : (part : ℚ) ≤ whole := by
    exact_mod_cast h
  constructor
  · positivity
  · rw [div_le_one hpos]
    exact hle

namespace RunStats
variable {self : RunStats}

theorem cacheHitRate_mem (h : self.cacheHits ≤ self.requests) :
    0 ≤ self.cacheHitRate ∧ self.cacheHitRate ≤ 1 := by
  unfold cacheHitRate
  by_cases hr : self.requests = 0
  · rw [if_pos hr]
    exact ⟨le_refl 0, zero_le_one⟩
  · rw [if_neg hr]
    exact fraction_mem h hr

theorem cheapShare_mem (h : self.cacheHits + self.cheapCalls ≤ self.requests) :
    0 ≤ self.cheapShare ∧ self.cheapShare ≤ 1 := by
  unfold cheapShare
  dsimp only
  by_cases hd : self.requests - self.cacheHits = 0
  · rw [if_pos hd]
    exact ⟨le_refl 0, zero_le_one⟩
  · rw [if_neg hd]
    exact fraction_mem (by omega) hd

end RunStats

/-- **What Tokudo saved** is what the runs would have cost without the provider's cache, the one
less the other. -/
theorem usdSaved_eq (baseline tokudo : RunStats) (qualityScore : Option F64) :
    (Deltas.compute baseline tokudo qualityScore).usdSaved =
      (baseline.usd + baseline.providerCacheUsdDelta) -
        (tokudo.usd + tokudo.providerCacheUsdDelta) := by
  show baseline.usd - tokudo.usd - (tokudo.providerCacheUsdDelta - baseline.providerCacheUsdDelta) = _
  linarith

end Tokudo
