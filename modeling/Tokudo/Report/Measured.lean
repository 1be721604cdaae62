import Tokudo.Report.Measure
import Tokudo.Report.Saved
import Tokudo.Report.Savings
import Tokudo.Seq.Firsts

/-!
# What the program measures

`examples/measure_savings.rs`: the loops over the workload, and the report.  An item is marked if it
is no tool call and its prompt was asked before; `repeated items` are the marked ones.

* `runTokudo_spec`     a call is a hit only if its item is marked, and always then while the cache has
                       room for all prompts;
* `bypass_kept`        **the program never finds its bypass violated**, and pays for every prompt once;
                       its counters do not overflow, if the tokens of all items together do not;
* `measured_savings`   **what it measures is what the repeated prompts cost**, and so is whether it
                       exits with an error.
-/

namespace Tokudo
open Effect Seq

variable {R : Type}

namespace Measurement
variable {self : Measurement R} {seen : List String} {inner : Inner} {item : WorkloadItem}
  {clock : Clock}

/-! ## the loops -/

/-- every prompt asked before is still stored -/
def Keeps (m : Measurement R) (seen : List String) (inner : Inner) : Prop :=
  ∀ prompt ∈ seen, ∃ entry, InMemoryCache.contents inner (m.keyOf prompt) = some entry

theorem Holds.init (m : Measurement R) : m.Holds [] InMemoryCache.init := by
  refine ⟨InMemoryCache.init_good, fun k entry hk => ?_⟩
  rw [InMemoryCache.contents_init] at hk
  cases hk

theorem Holds.more (h : self.Holds seen inner) (prompt : String) :
    self.Holds (prompt :: seen) inner := by
  refine ⟨h.good, fun k entry hk => ?_⟩
  obtain ⟨p, hp, hrest⟩ := h.entries k entry hk
  exact ⟨p, List.mem_cons_of_mem _ hp, hrest⟩

theorem Holds.put (h : self.Holds seen inner) (now : Nat) {prompt : String}
    {resp : CompletionResponse R} {entry : CachedEntry}
    (he : self.tokudo.entryOf (self.keyOf prompt) resp = .ok entry) :
    self.Holds (prompt :: seen)
      (InMemoryCache.put default now (self.keyOf prompt) entry inner) := by
  have hgood : InMemoryCache.Good (default : InMemoryCacheConfig).maxEntries inner := h.good
  refine ⟨InMemoryCache.put_good hgood _ _ _, fun k v hk => ?_⟩
  rcases InMemoryCache.put_lossy hgood now (self.keyOf prompt) entry k v hk with hw | ⟨hold, -⟩
  · rw [InMemoryCache.stamp_of_none rfl] at hw
    obtain ⟨rfl, rfl⟩ := Prod.mk.inj (Option.some.inj hw)
    exact ⟨prompt, List.mem_cons_self, rfl, resp, he⟩
  · exact (h.more prompt).entries k v hold

/-- while all prompts fit, nothing is evicted -/
theorem Keeps.put (hk : self.Keeps seen inner) (h : self.Holds seen inner) {prompt : String}
    (hcard : (prompt :: seen).toFinset.card ≤ 1024) (now : Nat) (entry : CachedEntry) :
    self.Keeps (prompt :: seen)
      (InMemoryCache.put default now (self.keyOf prompt) entry inner) := by
  let keys := (prompt :: seen).toFinset.image self.keyOf
  have hamong : InMemoryCache.Among keys inner := by
    intro k hmem
    have hfound := Finmap.lookup_isSome.mpr (Finmap.mem_keys.mp hmem)
    obtain ⟨v, hv⟩ := Option.isSome_iff_exists.mp hfound
    obtain ⟨p, hp, rfl, -⟩ := h.entries k v hv
    exact Finset.mem_image_of_mem _ (List.mem_toFinset.mpr (List.mem_cons_of_mem _ hp))
  have hkey : self.keyOf prompt ∈ keys :=
    Finset.mem_image_of_mem _ (List.mem_toFinset.mpr List.mem_cons_self)
  have hbound : (default : InMemoryCacheConfig).maxEntries = some 1024 := rfl
  have hput := InMemoryCache.put_of_spare hbound (Finset.card_image_le.trans hcard) hamong now hkey
    entry
  intro p hp
  rw [hput, InMemoryCache.contents_put rfl]
  by_cases hsame : self.keyOf p = self.keyOf prompt
  · rw [hsame, Function.update_self]
    exact ⟨_, rfl⟩
  · rw [Function.update_of_ne hsame]
    rcases List.mem_cons.mp hp with rfl | hp
    · exact absurd rfl hsame
    · exact hk p hp

/-- the usage of the answer to the prompt -/
def usageOf (m : Measurement R) (prompt : String) : Usage :=
  match m.completion (m.request prompt) with
  | .ok resp => resp.usage
  | .error _ => .zero

theorem usageOf_eq {prompt : String} {resp : CompletionResponse R}
    (h : self.completion (self.request prompt) = .ok resp) : self.usageOf prompt = resp.usage := by
  rw [usageOf, h]

/-- what a run counts of an item: a hit, if it is marked, or an answer of the provider -/
def count (m : Measurement R) (stats : RunStats) (x : WorkloadItem × Bool) : RunStats :=
  let stats := { stats with requests := stats.requests + 1 }
  if x.2 then
    { stats with cacheHits := stats.cacheHits + 1, wallMs := saturatingAdd stats.wallMs 1 }
  else m.charge (m.usageOf x.1.prompt) stats

theorem runBaseline_eq {items : List WorkloadItem} (ha : ∀ item ∈ items, self.Answers item.prompt)
    (stats : RunStats) :
    self.runBaseline items stats =
      .ok ((items.map fun item => (item, false)).foldl self.count stats) := by
  induction items generalizing stats with
  | nil => rfl
  | cons item items ih =>
    obtain ⟨resp, -, -, hresp, -⟩ := ha item List.mem_cons_self
    have hrest := ih fun item' hm => ha item' (List.mem_cons_of_mem _ hm)
    rw [runBaseline, hresp]
    dsimp only
    rw [hrest, List.map_cons, List.foldl_cons, ← usageOf_eq hresp]
    rfl

theorem addNormalized_of_hit {n : NormalizedResponse (CompletionResponse R)}
    (hit : n.provenance.cacheHit = true) (item : WorkloadItem) (stats : RunStats) :
    self.addNormalized n stats = self.count stats (item, true) := by
  unfold addNormalized
  rw [hit]
  rfl

theorem addNormalized_of_miss {n : NormalizedResponse (CompletionResponse R)}
    (miss : n.provenance.cacheHit = false)
    (ha : self.completion (self.request item.prompt) = .ok n.response) (stats : RunStats) :
    self.addNormalized n stats = self.count stats (item, false) := by
  unfold addNormalized
  rw [miss, ← usageOf_eq ha]
  rfl

theorem runTokudo_cons {n : NormalizedResponse (CompletionResponse R)}
    (hn : (self.done item clock inner).outcome.value = .ok n) (items : List (WorkloadItem × Clock))
    (stats : RunStats) :
    self.runTokudo ((item, clock) :: items) inner stats =
      self.runTokudo items (self.done item clock inner).outcome.state
        (self.addNormalized n stats) := by
  rw [runTokudo, hn]

/-- the same items, and no more of them are marked -/
def AtMost : List (WorkloadItem × Bool) → List (WorkloadItem × Bool) → Prop :=
  List.Forall₂ fun x y => x.1 = y.1 ∧ (x.2 = true → y.2 = true)

theorem seenAfter_of_prompt (hprompt : item.isToolCall = false) :
    seenAfter WorkloadItem.asked seen item = item.prompt :: seen := by
  rw [seenAfter, WorkloadItem.asked, hprompt]
  rfl

theorem seenAfter_of_tool (htool : item.isToolCall = true) :
    seenAfter WorkloadItem.asked seen item = seen := by
  rw [seenAfter, WorkloadItem.asked, htool]
  rfl

theorem isOld_of_prompt (hprompt : item.isToolCall = false) :
    isOld WorkloadItem.asked seen item = decide (item.prompt ∈ seen) := by
  rw [isOld, WorkloadItem.asked, hprompt]
  rfl

theorem isOld_of_tool (htool : item.isToolCall = true) :
    isOld WorkloadItem.asked seen item = false := by
  rw [isOld, WorkloadItem.asked, htool]
  rfl

/-- the prompts of a workload that the cache is asked for, and those seen before it -/
def promptsOf (seen : List String) (items : List WorkloadItem) : Finset String :=
  (seen ++ items.filterMap WorkloadItem.asked).toFinset

theorem promptsOf_cons (seen : List String) (item : WorkloadItem) (items : List WorkloadItem) :
    promptsOf (seenAfter WorkloadItem.asked seen item) items = promptsOf seen (item :: items) := by
  unfold promptsOf seenAfter
  cases hask : item.asked with
  | none =>
    rw [List.filterMap_cons_none hask]
    rfl
  | some prompt =>
    rw [List.filterMap_cons_some hask]
    ext p
    simp

/-- **A call is a hit only if its prompt was asked before**, and it is one while the cache has room
for all prompts. -/
theorem runTokudo_spec (hl : self.Lawful) {items : List (WorkloadItem × Clock)}
    (ha : ∀ x ∈ items, self.Answers x.1.prompt) (h : self.Holds seen inner) (stats : RunStats) :
    ∃ marks, self.runTokudo items inner stats = .ok (marks.foldl self.count stats) ∧
      AtMost marks (marked WorkloadItem.asked seen (items.map Prod.fst)) ∧
      ((promptsOf seen (items.map Prod.fst)).card ≤ 1024 → self.Keeps seen inner →
        marks = marked WorkloadItem.asked seen (items.map Prod.fst)) := by
  induction items generalizing seen inner stats with
  | nil => exact ⟨[], rfl, .nil, fun _ _ => rfl⟩
  | cons x items ih =>
    obtain ⟨item, clock⟩ := x
    have hrest := fun x hm => ha x (List.mem_cons_of_mem _ hm)
    obtain ⟨n, hn, hperf⟩ := self.performed hl h (ha _ List.mem_cons_self) clock
    rw [self.runTokudo_cons hn, List.map_cons, ← promptsOf_cons, marked]
    generalize (self.done item clock inner).outcome.state = inner' at hperf
    cases hperf with
    | @hit entry hit hprompt hc =>
      -- what is found was stored for a prompt with this key, so for this prompt
      have hseen : item.prompt ∈ seen := by
        obtain ⟨p, hp, hkey, -⟩ := h.entries _ entry hc
        rwa [keyOf_injective hl hkey]
      rw [addNormalized_of_hit hit item, seenAfter_of_prompt hprompt, isOld_of_prompt hprompt,
        decide_eq_true hseen]
      obtain ⟨marks, hrun, hmost, hexact⟩ := ih hrest (h.more item.prompt) _
      refine ⟨(item, true) :: marks, hrun, .cons ⟨rfl, id⟩ hmost, fun hcard hkeeps => ?_⟩
      rw [hexact hcard (List.forall_mem_cons.mpr ⟨⟨entry, hc⟩, hkeeps⟩)]
    | bypassed miss htool hresp =>
      rw [addNormalized_of_miss miss hresp, seenAfter_of_tool htool, isOld_of_tool htool]
      obtain ⟨marks, hrun, hmost, hexact⟩ := ih hrest h _
      refine ⟨(item, false) :: marks, hrun, .cons ⟨rfl, id⟩ hmost, fun hcard hkeeps => ?_⟩
      rw [hexact hcard hkeeps]
    | @stored entry miss hprompt hc hresp he =>
      rw [addNormalized_of_miss miss hresp, seenAfter_of_prompt hprompt, isOld_of_prompt hprompt]
      obtain ⟨marks, hrun, hmost, hexact⟩ := ih hrest (h.put clock.put he) _
      refine ⟨(item, false) :: marks, hrun, .cons ⟨rfl, fun hf => by cases hf⟩ hmost,
        fun hcard hkeeps => ?_⟩
      have hnew : item.prompt ∉ seen := by
        intro hp
        obtain ⟨v, hv⟩ := hkeeps item.prompt hp
        rw [hc] at hv
        cases hv
      have hroom : (item.prompt :: seen).toFinset.card ≤ 1024 := by
        refine (Finset.card_le_card ?_).trans hcard
        unfold promptsOf
        rw [List.toFinset_append]
        exact Finset.subset_union_left
      rw [decide_eq_false hnew, hexact hcard (hkeeps.put h hroom clock.put entry)]

/-! ## the counters -/

/-- what counting adds to a measure of the counters, it adds for every item -/
theorem measure_foldl {M : Type} [AddCommMonoid M] (measure : RunStats → M)
    (amount : WorkloadItem × Bool → M)
    (h : ∀ stats x, measure (self.count stats x) = measure stats + amount x) (stats : RunStats)
    (marks : List (WorkloadItem × Bool)) :
    measure (marks.foldl self.count stats) = measure stats + (marks.map amount).sum := by
  induction marks generalizing stats with
  | nil => exact (add_zero _).symm
  | cons x marks ih => rw [List.foldl_cons, ih, h, List.map_cons, List.sum_cons, add_assoc]

def usdOf (m : Measurement R) (item : WorkloadItem) : F64 := m.estimateUsd (m.usageOf item.prompt)

def discountOf (m : Measurement R) (item : WorkloadItem) : F64 :=
  m.estimateProviderCacheDelta (m.usageOf item.prompt)

theorem count_usd (stats : RunStats) (x : WorkloadItem × Bool) :
    (self.count stats x).usd = stats.usd + if x.2 then 0 else self.usdOf x.1 := by
  obtain ⟨item, hit⟩ := x
  cases hit with
  | true => exact (add_zero _).symm
  | false => rfl

theorem count_discount (stats : RunStats) (x : WorkloadItem × Bool) :
    (self.count stats x).providerCacheUsdDelta =
      stats.providerCacheUsdDelta + if x.2 then 0 else self.discountOf x.1 := by
  obtain ⟨item, hit⟩ := x
  cases hit with
  | true => exact (add_zero _).symm
  | false => rfl

theorem count_requests (stats : RunStats) (x : WorkloadItem × Bool) :
    (self.count stats x).requests = stats.requests + 1 := by
  obtain ⟨item, hit⟩ := x
  cases hit <;> rfl

theorem count_cacheHits (stats : RunStats) (x : WorkloadItem × Bool) :
    (self.count stats x).cacheHits = stats.cacheHits + if x.2 then 1 else 0 := by
  obtain ⟨item, hit⟩ := x
  cases hit <;> rfl

theorem count_answered (stats : RunStats) (x : WorkloadItem × Bool) :
    (self.count stats x).cacheHits + (self.count stats x).strongCalls =
      stats.cacheHits + stats.strongCalls + 1 := by
  obtain ⟨item, hit⟩ := x
  cases hit with
  | true =>
    show stats.cacheHits + 1 + stats.strongCalls = _
    omega
  | false => rfl

theorem sum_marks (marks : List (WorkloadItem × Bool)) :
    (marks.map fun x => if x.2 then 1 else 0).sum = marks.countP Prod.snd := by
  induction marks with
  | nil => rfl
  | cons x marks ih => rw [List.map_cons, List.sum_cons, ih, List.countP_cons, add_comm]

theorem AtMost.countP_le {marks marks' : List (WorkloadItem × Bool)} (h : AtMost marks marks') :
    marks.countP Prod.snd ≤ marks'.countP Prod.snd := by
  induction h with
  | nil => exact Nat.le_refl 0
  | @cons x y _ _ hxy _ ih =>
    rw [List.countP_cons, List.countP_cons]
    cases hx : x.2 with
    | false =>
      rw [if_neg Bool.false_ne_true]
      omega
    | true =>
      rw [if_pos rfl, if_pos (hxy.2 hx)]
      omega

theorem AtMost.length_eq {marks marks' : List (WorkloadItem × Bool)} (h : AtMost marks marks') :
    marks.length = marks'.length := List.Forall₂.length_eq h

theorem length_asked (items : List WorkloadItem) :
    (items.filterMap WorkloadItem.asked).length = items.countP fun item => !item.isToolCall := by
  induction items with
  | nil => rfl
  | cons item items ih =>
    rw [List.countP_cons, ← ih]
    cases htool : item.isToolCall with
    | true =>
      rw [List.filterMap_cons_none (by rw [WorkloadItem.asked, htool]; rfl)]
      rfl
    | false =>
      rw [List.filterMap_cons_some (by rw [WorkloadItem.asked, htool]; rfl)]
      rfl

/-- the items, marked if they are no tool calls and their prompt was asked before -/
def marksOf (items : List (WorkloadItem × Clock)) : List (WorkloadItem × Bool) :=
  marked WorkloadItem.asked [] (items.map Prod.fst)

/-- the items, tool calls apart, whose prompt was asked before -/
def repeated (items : List (WorkloadItem × Clock)) : List WorkloadItem :=
  repeats WorkloadItem.asked [] (items.map Prod.fst)

theorem length_marksOf (items : List (WorkloadItem × Clock)) :
    (marksOf items).length = items.length := by
  rw [marksOf, ← List.length_map Prod.fst, marked_fst, List.length_map]

theorem length_repeated (items : List (WorkloadItem × Clock)) :
    (repeated items).length = (marksOf items).countP Prod.snd := repeats_length _ _ _

theorem repeated_add_distinct (items : List (WorkloadItem × Clock)) :
    (repeated items).length + distinct WorkloadItem.asked (items.map Prod.fst) =
      (items.map Prod.fst).countP fun item => !item.isToolCall := by
  rw [← length_asked]
  exact repeats_add_distinct _ _

/-! ## the report -/

/-- the report of a run with these marks -/
def reportOfMarks (m : Measurement R) (items : List (WorkloadItem × Clock))
    (marks : List (WorkloadItem × Bool)) : Report :=
  .fromRuns (((items.map Prod.fst).map fun item => (item, false)).foldl m.count {})
    (marks.foldl m.count {}) none

theorem hits_of_marks (m : Measurement R) (marks : List (WorkloadItem × Bool)) :
    (marks.foldl m.count {}).cacheHits = marks.countP Prod.snd := by
  have hsum := measure_foldl RunStats.cacheHits _ m.count_cacheHits {} marks
  rw [sum_marks] at hsum
  exact hsum.trans (Nat.zero_add _)

theorem requests_of_marks (m : Measurement R) (marks : List (WorkloadItem × Bool)) :
    (marks.foldl m.count {}).requests = marks.length := by
  have hsum := measure_foldl RunStats.requests (fun _ => 1) m.count_requests {} marks
  rw [List.map_const', List.sum_replicate_nat, mul_one] at hsum
  exact hsum.trans (Nat.zero_add _)

theorem answered_of_marks (m : Measurement R) (marks : List (WorkloadItem × Bool)) :
    (marks.foldl m.count {}).cacheHits + (marks.foldl m.count {}).strongCalls = marks.length := by
  have hsum := measure_foldl (fun stats => stats.cacheHits + stats.strongCalls) (fun _ => 1)
    m.count_answered {} marks
  rw [List.map_const', List.sum_replicate_nat, mul_one] at hsum
  exact hsum.trans (Nat.zero_add _)

/-- the items, and the tokens that the provider reports for all of them, fit in `u64` counters -/
structure TokensFit (m : Measurement R) (items : List WorkloadItem) : Prop where
  requests : items.length ≤ u64Max
  inputTokens : (items.map fun item => (m.usageOf item.prompt).inputTokens).sum ≤ u64Max
  outputTokens : (items.map fun item => (m.usageOf item.prompt).outputTokens).sum ≤ u64Max
  cachedInputTokens :
    (items.map fun item => (m.usageOf item.prompt).cachedInputTokens).sum ≤ u64Max
  cacheCreationInputTokens :
    (items.map fun item => (m.usageOf item.prompt).cacheCreationInputTokens).sum ≤ u64Max

/-- a counter of tokens, which a hit leaves as it is, fits if what all items amount to does -/
theorem counter_fits (m : Measurement R) (counter : RunStats → Nat) (tokens : WorkloadItem → Nat)
    (hhit : ∀ stats item, counter (m.count stats (item, true)) = counter stats)
    (hmiss : ∀ stats item, counter (m.count stats (item, false)) = counter stats + tokens item)
    (hzero : counter {} = 0) {marks : List (WorkloadItem × Bool)}
    (hsum : ((marks.map Prod.fst).map tokens).sum ≤ u64Max) :
    counter (marks.foldl m.count {}) ≤ u64Max := by
  have hcount : ∀ stats x, counter (m.count stats x) =
      counter stats + if x.2 then 0 else tokens x.1 := by
    intro stats x
    obtain ⟨item, hit⟩ := x
    cases hit with
    | true => exact hhit stats item
    | false => exact hmiss stats item
  have hle : (marks.map fun x => if x.2 then 0 else tokens x.1).sum ≤
      ((marks.map Prod.fst).map tokens).sum := by
    rw [List.map_map]
    apply List.sum_le_sum
    intro x _
    show (if x.2 then 0 else tokens x.1) ≤ tokens x.1
    split <;> omega
  rw [measure_foldl counter _ hcount, hzero, Nat.zero_add]
  exact hle.trans hsum

theorem wallMs_le (m : Measurement R) {stats : RunStats} (h : stats.wallMs ≤ u64Max)
    (marks : List (WorkloadItem × Bool)) : (marks.foldl m.count stats).wallMs ≤ u64Max := by
  induction marks generalizing stats with
  | nil => exact h
  | cons x marks ih =>
    apply ih
    obtain ⟨item, hit⟩ := x
    cases hit <;> exact Nat.min_le_right _ _

/-- the counters only grow, so if their last values fit, no addition has overflowed -/
theorem fits_of_marks (m : Measurement R) {items : List WorkloadItem} (h : m.TokensFit items)
    {marks : List (WorkloadItem × Bool)} (hmarks : marks.map Prod.fst = items) :
    (marks.foldl m.count {}).Fits := by
  subst hmarks
  have hanswered := m.answered_of_marks marks
  have hlength : marks.length ≤ u64Max := by
    rw [← List.length_map Prod.fst]
    exact h.requests
  have hnone : ((marks.map Prod.fst).map fun _ => 0).sum ≤ u64Max := by
    rw [List.map_const', List.sum_replicate_nat, mul_zero]
    exact Nat.zero_le _
  exact
    { requests := by
        rw [m.requests_of_marks]
        exact hlength
      promptTokens := m.counter_fits RunStats.promptTokens _ (fun _ _ => rfl) (fun _ _ => rfl) rfl
        h.inputTokens
      completionTokens := m.counter_fits RunStats.completionTokens _ (fun _ _ => rfl)
        (fun _ _ => rfl) rfl h.outputTokens
      wallMs := m.wallMs_le (Nat.zero_le _) marks
      providerCachedInputTokens := m.counter_fits RunStats.providerCachedInputTokens _
        (fun _ _ => rfl) (fun _ _ => rfl) rfl h.cachedInputTokens
      providerCacheWriteTokens := m.counter_fits RunStats.providerCacheWriteTokens _
        (fun _ _ => rfl) (fun _ _ => rfl) rfl h.cacheCreationInputTokens
      cacheHits := by omega
      cheapCalls := m.counter_fits RunStats.cheapCalls _ (fun _ _ => rfl) (fun _ _ => rfl) rfl hnone
      strongCalls := by omega }

theorem AtMost.map_fst {marks marks' : List (WorkloadItem × Bool)} (h : AtMost marks marks') :
    marks.map Prod.fst = marks'.map Prod.fst := by
  induction h with
  | nil => rfl
  | cons hxy _ ih => rw [List.map_cons, List.map_cons, hxy.1, ih]

/-- the program ends with a report -/
theorem measureSavings_eq (hl : self.Lawful) {items : List (WorkloadItem × Clock)}
    (ha : ∀ x ∈ items, self.Answers x.1.prompt) :
    ∃ marks, AtMost marks (marksOf items) ∧
      ((promptsOf [] (items.map Prod.fst)).card ≤ 1024 → marks = marksOf items) ∧
      self.measureSavings items = .ok (self.reportOfMarks items marks) := by
  obtain ⟨marks, hrun, hmost, hexact⟩ := self.runTokudo_spec hl ha (.init self) {}
  refine ⟨marks, hmost, fun hcard => hexact hcard fun p hp => absurd hp List.not_mem_nil, ?_⟩
  have hanswers : ∀ item ∈ items.map Prod.fst, self.Answers item.prompt := by
    intro item hm
    obtain ⟨x, hx, rfl⟩ := List.mem_map.mp hm
    exact ha x hx
  have hhits : (marks.foldl self.count {}).cacheHits ≤
      (items.map Prod.fst).countP fun item => !item.isToolCall := by
    have hle : marks.countP Prod.snd ≤ (marksOf items).countP Prod.snd := hmost.countP_le
    have htotal := repeated_add_distinct items
    rw [length_repeated] at htotal
    rw [hits_of_marks]
    omega
  unfold measureSavings
  rw [self.runBaseline_eq hanswers, hrun]
  exact if_pos hhits

/-- **The program never finds its bypass violated**, however many prompts there are: it ends with a
report, in which every different prompt has been paid for at least once.  No counter overflows, if the
tokens of all items together fit in it. -/
theorem bypass_kept (hl : self.Lawful) {items : List (WorkloadItem × Clock)}
    (ha : ∀ x ∈ items, self.Answers x.1.prompt) (htokens : self.TokensFit (items.map Prod.fst)) :
    ∃ report, self.measureSavings items = .ok report ∧
      report.baseline.Fits ∧ report.tokudo.Fits ∧
      report.tokudo.cacheHits + report.tokudo.strongCalls = items.length ∧
      report.tokudo.cacheHits ≤ (repeated items).length ∧
      report.tokudo.cacheHits + distinct WorkloadItem.asked (items.map Prod.fst) ≤
        (items.map Prod.fst).countP fun item => !item.isToolCall := by
  obtain ⟨marks, hmost, -, heq⟩ := self.measureSavings_eq hl ha
  have hhits : (self.reportOfMarks items marks).tokudo.cacheHits = marks.countP Prod.snd :=
    self.hits_of_marks marks
  have hle : marks.countP Prod.snd ≤ (marksOf items).countP Prod.snd := hmost.countP_le
  rw [← length_repeated] at hle
  have htotal := repeated_add_distinct items
  have hbaseline : ((items.map Prod.fst).map fun item => (item, false)).map Prod.fst =
      items.map Prod.fst := by
    rw [List.map_map]
    exact List.map_id _
  refine ⟨_, heq, self.fits_of_marks htokens hbaseline,
    self.fits_of_marks htokens (hmost.map_fst.trans (marked_fst _ _ _)), ?_, ?_, ?_⟩
  · rw [← length_marksOf, ← hmost.length_eq]
    exact self.answered_of_marks marks
  · rw [hhits]
    exact hle
  · rw [hhits]
    omega

/-- a measure that hits add nothing to differs between the runs by what the repeats amount to -/
theorem totals_of_marks (measure : RunStats → F64) (amount : WorkloadItem → F64)
    (hcount : ∀ stats x, measure (self.count stats x) =
      measure stats + if x.2 then 0 else amount x.1)
    (hzero : measure {} = 0) (items : List (WorkloadItem × Clock)) :
    measure (((items.map Prod.fst).map fun item => (item, false)).foldl self.count {}) =
        ((items.map Prod.fst).map amount).sum ∧
      measure ((marksOf items).foldl self.count {}) + ((repeated items).map amount).sum =
        ((items.map Prod.fst).map amount).sum := by
  have hfold := measure_foldl measure (fun x => if x.2 then 0 else amount x.1) hcount {}
  have hrepeats := sum_marked amount (fun _ => 0) WorkloadItem.asked [] (items.map Prod.fst)
  rw [List.map_const', List.sum_replicate, nsmul_zero, add_zero] at hrepeats
  constructor
  · rw [hfold, hzero, zero_add, List.map_map]
    rfl
  · rw [hfold, hzero, zero_add]
    exact hrepeats

theorem deltas_of_marksOf (m : Measurement R) (items : List (WorkloadItem × Clock)) :
    (m.reportOfMarks items (marksOf items)).baseline.usd =
        ((items.map Prod.fst).map m.usdOf).sum ∧
      (m.reportOfMarks items (marksOf items)).deltas.grossUsdSaved =
        ((repeated items).map m.usdOf).sum ∧
      (m.reportOfMarks items (marksOf items)).deltas.usdSaved =
        ((repeated items).map fun item => m.usdOf item + m.discountOf item).sum := by
  obtain ⟨husd, husd'⟩ := m.totals_of_marks RunStats.usd m.usdOf count_usd rfl items
  obtain ⟨hdiscount, hdiscount'⟩ :=
    m.totals_of_marks RunStats.providerCacheUsdDelta m.discountOf count_discount rfl items
  rw [List.sum_map_add]
  refine ⟨husd, ?_, ?_⟩
  · show RunStats.usd _ - RunStats.usd _ = _
    linarith
  · show RunStats.usd _ - RunStats.usd _ -
      (RunStats.providerCacheUsdDelta _ - RunStats.providerCacheUsdDelta _) = _
    linarith

theorem exitCode_eq_zero {report : Report} :
    exitCode report = 0 ↔ (report.evaluate savingsThresholds).allPassed = true := by
  unfold exitCode
  split <;> simp [*]

theorem cheapShare_nonneg (stats : RunStats) : 0 ≤ stats.cheapShare := by
  unfold RunStats.cheapShare
  dsimp only
  split
  · exact le_refl 0
  · positivity

theorem le_cacheHitRate_iff {least : F64} (hpos : 0 < least) (stats : RunStats) :
    least ≤ stats.cacheHitRate ↔
      stats.requests ≠ 0 ∧ least * stats.requests ≤ stats.cacheHits := by
  unfold RunStats.cacheHitRate
  by_cases hzero : stats.requests = 0
  · rw [if_pos hzero]
    exact ⟨fun h => absurd h (not_le.mpr hpos), fun h => absurd hzero h.1⟩
  · rw [if_neg hzero, le_fraction_iff hzero]
    exact (and_iff_right hzero).symm

theorem le_usdSavedPct_iff {least : F64} (hpos : 0 < least) (hle : least ≤ 1)
    (baseline tokudo : RunStats) (qualityScore : Option F64) :
    least ≤ (Deltas.compute baseline tokudo qualityScore).usdSavedPct ↔ 0 < baseline.usd ∧
      least * baseline.usd ≤ (Deltas.compute baseline tokudo qualityScore).usdSaved := by
  show least ≤ (if 0 < baseline.usd then clamp (-1) 1
    ((Deltas.compute baseline tokudo qualityScore).usdSaved / baseline.usd) else 0) ↔ _
  by_cases husd : 0 < baseline.usd
  · have hnot : ¬ least ≤ -1 := by linarith
    rw [if_pos husd, le_clamp_iff, or_iff_right hnot, and_iff_right hle, le_div_iff₀ husd]
    exact (and_iff_right husd).symm
  · rw [if_neg husd]
    exact ⟨fun h => absurd h (not_le.mpr hpos), fun h => absurd h.1 husd⟩

/-- the thresholds, cleared of fractions -/
theorem exitCode_of_runs (baseline tokudo : RunStats) :
    exitCode (.fromRuns baseline tokudo none) = 0 ↔
      0 < baseline.usd ∧ baseline.usd ≤ 5 * (Deltas.compute baseline tokudo none).usdSaved ∧
        tokudo.requests ≠ 0 ∧ tokudo.requests ≤ 4 * tokudo.cacheHits := by
  have hquality : ∀ min, savingsThresholds.minQualityScore = some min →
      ∃ q, (Report.fromRuns baseline tokudo none).deltas.qualityScore = some q ∧ min ≤ q := by
    intro min hmin
    cases hmin
  have hcheap : savingsThresholds.minCheapModelShare ≤
      (Report.fromRuns baseline tokudo none).deltas.cheapModelShare := cheapShare_nonneg tokudo
  have husd := le_usdSavedPct_iff (show (0 : ℚ) < 20 / 100 by norm_num) (by norm_num) baseline tokudo
    none
  have hhits := le_cacheHitRate_iff (show (0 : ℚ) < 25 / 100 by norm_num) tokudo
  have hfifth : (20 / 100 : ℚ) * baseline.usd ≤ (Deltas.compute baseline tokudo none).usdSaved ↔
      baseline.usd ≤ 5 * (Deltas.compute baseline tokudo none).usdSaved := by
    constructor <;> intro h <;> linarith
  have hquarter : (25 / 100 : ℚ) * tokudo.requests ≤ tokudo.cacheHits ↔
      tokudo.requests ≤ 4 * tokudo.cacheHits := by
    rw [← Nat.cast_le (α := ℚ), Nat.cast_mul]
    constructor <;> intro h <;> push_cast at * <;> linarith
  rw [hfifth] at husd
  rw [hquarter] at hhits
  rw [exitCode_eq_zero, allPassed_iff, and_iff_right hcheap, and_iff_left hquality]
  exact (and_congr husd hhits).trans and_assoc

theorem exitCode_of_marks (m : Measurement R) (items : List (WorkloadItem × Clock))
    (marks : List (WorkloadItem × Bool)) :
    exitCode (m.reportOfMarks items marks) = 0 ↔
      0 < (m.reportOfMarks items marks).baseline.usd ∧
        (m.reportOfMarks items marks).baseline.usd ≤
          5 * (m.reportOfMarks items marks).deltas.usdSaved ∧
        (m.reportOfMarks items marks).tokudo.requests ≠ 0 ∧
        (m.reportOfMarks items marks).tokudo.requests ≤
          4 * (m.reportOfMarks items marks).tokudo.cacheHits := exitCode_of_runs _ _

/-- **What the program measures is what the repeated prompts cost**, if the cache has room for all
prompts; and, once the artifacts are written, it exits with 0 exactly if a quarter of the items or more are repeated, and what they
cost is a fifth or more of what all items cost. -/
theorem measured_savings (hl : self.Lawful) {items : List (WorkloadItem × Clock)}
    (ha : ∀ x ∈ items, self.Answers x.1.prompt)
    (hroom : (promptsOf [] (items.map Prod.fst)).card ≤ 1024) :
    ∃ report, self.measureSavings items = .ok report ∧
      report.tokudo.cacheHits = (repeated items).length ∧
      report.deltas.grossUsdSaved = ((repeated items).map self.usdOf).sum ∧
      report.deltas.usdSaved =
        ((repeated items).map fun item => self.usdOf item + self.discountOf item).sum ∧
      (exitCode report = 0 ↔ 0 < ((items.map Prod.fst).map self.usdOf).sum ∧
        ((items.map Prod.fst).map self.usdOf).sum ≤
          5 * ((repeated items).map fun item => self.usdOf item + self.discountOf item).sum ∧
        items.length ≤ 4 * (repeated items).length) := by
  obtain ⟨marks, -, hexact, heq⟩ := self.measureSavings_eq hl ha
  rw [hexact hroom] at heq
  obtain ⟨hbase, hgross, hsaved⟩ := self.deltas_of_marksOf items
  have hhits : (self.reportOfMarks items (marksOf items)).tokudo.cacheHits =
      (repeated items).length := (self.hits_of_marks _).trans (length_repeated items).symm
  have hrequests : (self.reportOfMarks items (marksOf items)).tokudo.requests = items.length :=
    (self.requests_of_marks _).trans (length_marksOf items)
  have hcode := exitCode_of_marks self items (marksOf items)
  rw [hbase, hsaved, hrequests, hhits] at hcode
  have hnonempty : 0 < ((items.map Prod.fst).map self.usdOf).sum → items.length ≠ 0 := by
    intro hpos hlen
    rw [List.eq_nil_of_length_eq_zero hlen] at hpos
    exact lt_irrefl 0 hpos
  refine ⟨_, heq, hhits, hgross, hsaved, hcode.trans ?_⟩
  exact and_congr_right fun hpos => and_congr_right fun _ => and_iff_right (hnonempty hpos)

/-! ### a prompt that is asked three times -/

end Measurement

/-- the program as it is, with a priced model -/
def mockMeasurement : Measurement String where
  provider := ⟨"p:m", 50⟩
  completion := MockProvider.completion ⟨"p:m", 50⟩ fun history =>
    .ok (Json.text (historyPartsToValue history))
  serde := textResponseSerde
  keys := partsKeySerde
  catalog := some discountCatalog
  lineage := none

theorem mockMeasurement_lawful : mockMeasurement.Lawful where
  keys := partsKeySerde_injective
  history := historyPartsToValue_injective
  toVec _ := ⟨_, rfl⟩
  serde := textResponseSerde_roundTrips

theorem mockMeasurement_answers (prompt : String) : mockMeasurement.Answers prompt :=
  ⟨_, _, _, rfl, rfl, rfl⟩

/-- the second time as a tool call -/
def threeItems : List (WorkloadItem × Clock) :=
  [(⟨[], "hi"⟩, ⟨0, 0⟩), (⟨["tool_call"], "hi"⟩, ⟨1, 1⟩), (⟨[], "hi"⟩, ⟨2, 2⟩)]

namespace Measurement

theorem threeItems_fit : mockMeasurement.TokensFit (threeItems.map Prod.fst) where
  requests := by decide
  inputTokens := by decide +kernel
  outputTokens := by decide +kernel
  cachedInputTokens := by decide
  cacheCreationInputTokens := by decide

theorem threeItems_bypass : ∃ report, mockMeasurement.measureSavings threeItems = .ok report ∧
    report.tokudo.Fits ∧ report.tokudo.cacheHits ≤ 1 ∧ 2 ≤ report.tokudo.strongCalls := by
  obtain ⟨report, hreport, -, hfits, htotal, hhits, -⟩ :=
    bypass_kept mockMeasurement_lawful (fun x (_ : x ∈ threeItems) => mockMeasurement_answers _)
      threeItems_fit
  have hone : (repeated threeItems).length = 1 := by decide
  have hthree : threeItems.length = 3 := rfl
  refine ⟨report, hreport, hfits, ?_, ?_⟩
  · omega
  · omega

theorem threeItems_measured : ∃ report, mockMeasurement.measureSavings threeItems = .ok report ∧
    report.tokudo.cacheHits = 1 ∧
    report.deltas.grossUsdSaved = mockMeasurement.usdOf ⟨[], "hi"⟩ := by
  have hone : repeated threeItems = [⟨[], "hi"⟩] := by decide
  obtain ⟨report, hreport, hhits, hgross, -⟩ :=
    measured_savings mockMeasurement_lawful
      (fun x (_ : x ∈ threeItems) => mockMeasurement_answers _) (by decide)
  rw [hone] at hhits hgross
  refine ⟨report, hreport, hhits, hgross.trans ?_⟩
  exact add_zero _

end Measurement

end Tokudo
