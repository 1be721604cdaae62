import Tokudo.Report.Replay
import Mathlib.Tactic.Ring

/-!
# Provider discounts are not savings

The bill of a call is a price row and its usage; a cache hit costs nothing.  `undiscounted` is what
a call or a run would have cost without the provider's cache: its `usd`, with the provider's delta
put back.

* `undiscounted_of_bill`   for a call, this is its price with every input token at the plain rate;
* `undiscounted_of_rows`   for a run, it is the sum over its calls;
* `discounts_not_saved`    **so the savings of a replay are the difference of the plain prices, and
                           the rates for cached input and cache writes do not matter.**
-/

namespace Tokudo

/-- `cost_for` charges every kind of token at its rate, which may be the input rate -/
def Catalog.Additive (catalog : Catalog) : Prop :=
  ∀ price input output cachedInput cacheWrite,
    catalog.costFor price input output cachedInput cacheWrite =
      ((input : ℚ) * price.inputPerMillion + (output : ℚ) * price.outputPerMillion +
        (cachedInput : ℚ) * price.cachedInputPerMillion.getD price.inputPerMillion +
        (cacheWrite : ℚ) * price.cacheWritePerMillion.getD price.inputPerMillion) / 1000000

/-! ## bills -/

/-- what a call is charged for -/
inductive Bill where
  | cacheHit
  | charged (model : String) (price : ModelPrice) (usage : Usage)

namespace Bill

/-- the recorded `usd` and delta are what the estimates give -/
def Matches (catalog : Catalog) (stats : ReplayCallStats) : Bill → Prop
  | .cacheHit => stats.usd = 0 ∧ stats.providerCacheUsdDelta = 0
  | .charged model price usage =>
    (resolvePrice catalog.builtin model).map ResolvedPrice.price = some price ∧
      estimateActualUsd (some catalog) (some model) usage = some stats.usd ∧
      estimateProviderCacheUsdDelta (some catalog) (some model) usage =
        some stats.providerCacheUsdDelta

/-- the price with all input, cached and cache-write tokens at the plain input rate -/
def plainUsd : Bill → F64
  | .cacheHit => 0
  | .charged _ price usage =>
    (((usage.inputTokens + usage.cachedInputTokens + usage.cacheCreationInputTokens : Nat) : ℚ) *
      price.inputPerMillion + (usage.outputTokens : ℚ) * price.outputPerMillion) / 1000000

/-- the same usage at the same plain rates; the other rates may differ -/
inductive SamePlain : Bill → Bill → Prop where
  | cacheHit : SamePlain .cacheHit .cacheHit
  | charged {model model' : String} {price price' : ModelPrice} {usage : Usage}
      (hinput : price.inputPerMillion = price'.inputPerMillion)
      (houtput : price.outputPerMillion = price'.outputPerMillion) :
      SamePlain (.charged model price usage) (.charged model' price' usage)

theorem SamePlain.plainUsd_eq {bill bill' : Bill} (h : SamePlain bill bill') :
    bill.plainUsd = bill'.plainUsd := by
  cases h with
  | cacheHit => rfl
  | charged hinput houtput =>
    simp only [plainUsd, hinput, houtput]

end Bill

/-! ## costs without the provider's cache -/

def ReplayCallStats.undiscounted (stats : ReplayCallStats) : F64 :=
  stats.usd + stats.providerCacheUsdDelta

def RunStats.undiscounted (run : RunStats) : F64 := run.usd + run.providerCacheUsdDelta

/-- **The delta undoes the discounts and premiums in the price.** -/
theorem undiscounted_of_bill {catalog : Catalog} (hadd : catalog.Additive)
    {stats : ReplayCallStats} {bill : Bill} (h : bill.Matches catalog stats) :
    stats.undiscounted = bill.plainUsd := by
  unfold ReplayCallStats.undiscounted
  cases bill with
  | cacheHit =>
    obtain ⟨husd, hdelta⟩ := h
    rw [husd, hdelta]
    exact add_zero 0
  | charged model price usage =>
    obtain ⟨hprice, husd, hdelta⟩ := h
    obtain ⟨resolved, hr, rfl⟩ := Option.map_eq_some_iff.mp hprice
    simp only [estimateActualUsd, estimateProviderCacheUsdDelta, hr, Option.bind_eq_bind,
      Option.bind_some, Option.pure_def, Option.some.injEq] at husd hdelta
    rw [← husd, ← hdelta, hadd, Bill.plainUsd]
    push_cast
    ring

theorem undiscounted_accumulateInto (stats : ReplayCallStats) (run : RunStats) :
    (stats.accumulateInto run).undiscounted = run.undiscounted + stats.undiscounted := by
  show run.usd + stats.usd + (run.providerCacheUsdDelta + stats.providerCacheUsdDelta) =
    run.usd + run.providerCacheUsdDelta + (stats.usd + stats.providerCacheUsdDelta)
  ring

theorem undiscounted_accumulateRoute (provenance : Provenance) (run : RunStats) :
    (accumulateRoute provenance run).undiscounted = run.undiscounted := by
  unfold accumulateRoute
  cases provenance.routerChoice <;> rfl

/-- **The cost of a run without the provider's cache is that of its calls.** -/
theorem undiscounted_of_rows (rows : List ReplayRow) :
    (replayRows rows).baseline.undiscounted =
        (rows.map fun row => row.baseline.undiscounted).sum ∧
      (replayRows rows).tokudo.undiscounted =
        (rows.map fun row => row.tokudo.undiscounted).sum := by
  induction rows using List.reverseRecOn with
  | nil => exact ⟨add_zero 0, add_zero 0⟩
  | append_singleton rows row ih =>
    obtain ⟨hb, ht⟩ := ih
    rw [replayRows_append, List.map_append, List.map_append, List.sum_append, List.sum_append]
    constructor
    · show (row.baseline.accumulateInto (replayRows rows).baseline).undiscounted = _
      rw [undiscounted_accumulateInto, hb, List.map_singleton, List.sum_singleton]
    · show (accumulateRoute row.provenance
        (row.tokudo.accumulateInto (replayRows rows).tokudo)).undiscounted = _
      rw [undiscounted_accumulateRoute, undiscounted_accumulateInto, ht, List.map_singleton,
        List.sum_singleton]

/-! ## main result -/

/-- a row with the bills of its two calls -/
structure BilledRow (catalog : Catalog) where
  row : ReplayRow
  baselineBill : Bill
  tokudoBill : Bill
  baseline : baselineBill.Matches catalog row.baseline
  tokudo : tokudoBill.Matches catalog row.tokudo

/-- what the calls cost at the plain rates, the baseline less Tokudo -/
def plainSaved {catalog : Catalog} (rows : List (BilledRow catalog)) : F64 :=
  (rows.map fun x => x.baselineBill.plainUsd).sum - (rows.map fun x => x.tokudoBill.plainUsd).sum

theorem usdSaved_of_bills {catalog : Catalog} (hadd : catalog.Additive)
    (rows : List (BilledRow catalog)) {report : ReplayReport}
    (h : replayReport (rows.map BilledRow.row) = .ok report) :
    report.savings.deltas.usdSaved = plainSaved rows := by
  obtain ⟨-, rfl⟩ := replayReport_eq_ok.mp h
  obtain ⟨hb, ht⟩ := undiscounted_of_rows (rows.map BilledRow.row)
  have hbills : (rows.map BilledRow.row).map (fun row => row.baseline.undiscounted) =
      rows.map fun x => x.baselineBill.plainUsd := by
    rw [List.map_map]
    apply List.map_congr_left
    intro x _
    exact undiscounted_of_bill hadd x.baseline
  have tbills : (rows.map BilledRow.row).map (fun row => row.tokudo.undiscounted) =
      rows.map fun x => x.tokudoBill.plainUsd := by
    rw [List.map_map]
    apply List.map_congr_left
    intro x _
    exact undiscounted_of_bill hadd x.tokudo
  rw [hbills] at hb
  rw [tbills] at ht
  show (Deltas.compute _ _ _).usdSaved = _
  rw [usdSaved_eq]
  exact congrArg₂ (· - ·) hb ht

theorem plainSaved_congr {catalog catalog' : Catalog} {rows : List (BilledRow catalog)}
    {rows' : List (BilledRow catalog')}
    (h : List.Forall₂ (fun x x' => x.baselineBill.SamePlain x'.baselineBill ∧
      x.tokudoBill.SamePlain x'.tokudoBill) rows rows') : plainSaved rows = plainSaved rows' := by
  have hsums : (rows.map fun x => x.baselineBill.plainUsd) =
        (rows'.map fun x => x.baselineBill.plainUsd) ∧
      (rows.map fun x => x.tokudoBill.plainUsd) = rows'.map fun x => x.tokudoBill.plainUsd := by
    induction h with
    | nil => exact ⟨rfl, rfl⟩
    | cons hx _ ih =>
      obtain ⟨hb, ht⟩ := hx
      obtain ⟨ihb, iht⟩ := ih
      rw [List.map_cons, List.map_cons, List.map_cons, List.map_cons, hb.plainUsd_eq,
        ht.plainUsd_eq, ihb, iht]
      exact ⟨rfl, rfl⟩
  unfold plainSaved
  rw [hsums.1, hsums.2]

/-- **Provider discounts are never counted as savings.**  If every call's `usd` and delta are the
estimates for its usage, the savings of a replay are the plain price of the baseline calls less
that of the Tokudo calls.  So any two replays of the same usage at the same plain rates save the
same, whatever their rates for cached input and cache writes. -/
theorem discounts_not_saved (catalog : Catalog) (hadd : catalog.Additive)
    (rows : List (BilledRow catalog)) {report : ReplayReport}
    (h : replayReport (rows.map BilledRow.row) = .ok report) :
    report.savings.deltas.usdSaved = plainSaved rows ∧
      ∀ (catalog' : Catalog) (rows' : List (BilledRow catalog')) (report' : ReplayReport),
        catalog'.Additive → replayReport (rows'.map BilledRow.row) = .ok report' →
        List.Forall₂ (fun x x' => x.baselineBill.SamePlain x'.baselineBill ∧
          x.tokudoBill.SamePlain x'.tokudoBill) rows rows' →
        report'.savings.deltas.usdSaved = report.savings.deltas.usdSaved := by
  have hsaved := usdSaved_of_bills hadd rows h
  refine ⟨hsaved, ?_⟩
  intro catalog' rows' report' hadd' h' hsame
  rw [usdSaved_of_bills hadd' rows' h', hsaved]
  exact (plainSaved_congr hsame).symm

/-! ## one discounted call, and one hit -/

/-- cached input is cheaper than input, and cache writes are dearer -/
def discountPrice : ModelPrice := ⟨10, 30, some 1, some 12⟩

def discountCatalog : Catalog where
  builtin := ⟨[("p", "m", discountPrice)]⟩
  costFor price input output cachedInput cacheWrite :=
    ((input : ℚ) * price.inputPerMillion + (output : ℚ) * price.outputPerMillion +
      (cachedInput : ℚ) * price.cachedInputPerMillion.getD price.inputPerMillion +
      (cacheWrite : ℚ) * price.cacheWritePerMillion.getD price.inputPerMillion) / 1000000

/-- half of the input was in the provider's cache -/
def discountUsage : Usage := ⟨50, 20, 120, 50, 0, 0⟩

def discountBill : Bill := .charged "p:m" discountPrice discountUsage

theorem discountBill_matches : ∃ stats, discountBill.Matches discountCatalog stats :=
  ⟨{ usd := (discountCatalog.costFor discountPrice 50 20 50 0)
     providerCacheUsdDelta := (50 * (10 - 1) + 0 * (10 - 12)) / 1000000 }, rfl, rfl, rfl⟩

/-- a discounted baseline call that Tokudo answered from its cache: what is saved is the plain
price of the call -/
theorem discounted_call_saved : ∃ (rows : List (BilledRow discountCatalog)) (report : ReplayReport),
    replayReport (rows.map BilledRow.row) = .ok report ∧
      report.savings.deltas.usdSaved = discountBill.plainUsd := by
  obtain ⟨stats, hstats⟩ := discountBill_matches
  let row : BilledRow discountCatalog :=
    ⟨{ queryId := "q1", baseline := stats, tokudo := {}, provenance := .passThrough },
      discountBill, .cacheHit, hstats, ⟨rfl, rfl⟩⟩
  have hreport : replayReport ([row].map BilledRow.row) = .ok _ := rfl
  refine ⟨[row], _, hreport, ?_⟩
  rw [(discounts_not_saved discountCatalog (fun _ _ _ _ _ => rfl) [row] hreport).1]
  show (discountBill.plainUsd + 0) - (0 + 0) = _
  ring

end Tokudo
