import Tokudo.Call.Concurrent
import Tokudo.Cache.Foyer

/-!
# One call model, two exact-match backends

The calls of `complete` run on an `InMemoryCache` or on a `FoyerCache`; what the second has stored it
may drop at any time (`dropping`).

* `in_memory_run_is_foyer_run`    **every interleaving of calls on an `InMemoryCache` without a default
                                  TTL is one on a `FoyerCache`**: what the bound evicts is dropped;
* `unbounded_run_iff_foyer_run`   without a bound, and if nothing is dropped, the interleavings of both
                                  are the same;
* `spare_bound_unseen`            **a bound that is not reached is not noticed.**
-/

namespace Tokudo
open Effect Store

variable {L A R M σ ω ι : Type}

/-- `impl Cache for FoyerCache`; a `put` does not read the clock -/
def FoyerCache (config : FoyerCacheConfig) (now : Nat) : Cache FoyerCache.Contents where
  get key m :=
    let (found, m) := FoyerCache.get now key m
    (.ok found, m)
  put key entry m := (.ok (), FoyerCache.put config key entry m)

/-- the object, with drops before and after every operation -/
def dropping (O : Object (Eff L A) FoyerCache.Contents) : Object (Eff L A) FoyerCache.Contents :=
  fun m e m' => ∃ n n', FoyerCache.Drops m n ∧ O n e n' ∧ FoyerCache.Drops n' m'

/-! ## the operations on the contents -/

theorem FoyerCache.get_answer (now : Nat) (key : String) (m : Contents) :
    (get now key m).1 = InMemoryCache.fresh now (m key) := by
  unfold get InMemoryCache.fresh
  cases m key with
  | none => rfl
  | some entry => cases he : isExpired entry now <;> simp only [he] <;> rfl

theorem FoyerCache.get_contents (now : Nat) (key : String) (m : Contents) :
    (get now key m).2 = Function.update m key (InMemoryCache.fresh now (m key)) := by
  have hsame : Function.update m key (m key) = m := Function.update_eq_self key m
  unfold get InMemoryCache.fresh
  cases hk : m key with
  | none =>
    rw [hk] at hsame
    exact hsame.symm
  | some entry =>
    cases he : isExpired entry now with
    | true => simp only [he, if_true]
    | false =>
      rw [hk] at hsame
      simp only [he, Bool.false_eq_true, if_false]
      exact hsame.symm

theorem FoyerCache.put_contents {config : FoyerCacheConfig} (hcap : config.capacity ≠ 0)
    (key : String) (entry : CachedEntry) (m : Contents) :
    put config key entry m = Function.update m key (some entry) := if_neg hcap

/-- what a `put` under a bound leaves is dropped from what it leaves without one -/
theorem InMemoryCache.put_drops {config : InMemoryCacheConfig} {inner : Inner}
    (hg : Good config.maxEntries inner) (httl : config.defaultTtlSecs = none) (now : Nat)
    (key : String) (entry : CachedEntry) :
    FoyerCache.Drops (Function.update (contents inner) key (some entry))
      (contents (put config now key entry inner)) := by
  intro k v hv
  rcases put_lossy hg now key entry k v hv with hw | ⟨hk, hw⟩
  · obtain ⟨rfl, hentry⟩ := Prod.mk.inj (Option.some.inj hw)
    rw [Function.update_self, ← hentry, stamp_of_none httl]
  · have hne : k ≠ key := fun hkk => hw (stamp config now entry) (by rw [hkk])
    rw [Function.update_of_ne hne, hk]

/-- a read answers and leaves the same -/
theorem foyer_get_of_in_memory (config : InMemoryCacheConfig) (foyer : FoyerCacheConfig)
    (clock : Clock) (provider : L → CompletionRequest → A) (k : String) (inner : Inner) :
    handler (FoyerCache foyer clock.get) provider (.cacheGet k) (InMemoryCache.contents inner) =
      ((handler (InMemoryCache config clock) provider (.cacheGet k) inner).1,
        InMemoryCache.contents (handler (InMemoryCache config clock) provider (.cacheGet k) inner).2) := by
  refine Prod.ext (congrArg Except.ok ?_) ?_
  · exact (FoyerCache.get_answer _ _ _).trans (InMemoryCache.get_fresh clock.get k inner).symm
  · exact (FoyerCache.get_contents _ _ _).trans (InMemoryCache.contents_get clock.get k inner).symm

/-! ## a bound that is not reached -/

namespace InMemoryCache

/-- only these keys are stored -/
def Among (keys : Finset String) (inner : Inner) : Prop := inner.map.keys ⊆ keys

theorem evict_of_short {max : Nat} {map : Finmap fun _ : String => CachedEntry}
    (h : map.keys.card ≤ max) (order : List String) : evict max map order = ⟨map, order⟩ := by
  cases order with
  | nil => rfl
  | cons oldest order => exact if_neg (Nat.not_lt.mpr h)

variable {keys : Finset String} {inner : Inner}

theorem Among.get (h : Among keys inner) (now : Nat) (key : String) :
    Among keys (get now key inner).2 := by
  unfold InMemoryCache.get
  split
  · exact h
  · split
    · show (inner.map.erase key).keys ⊆ keys
      intro k hk
      rw [Finmap.mem_keys, Finmap.mem_erase] at hk
      exact h (Finmap.mem_keys.mpr hk.2)
    · exact h

theorem Among.put (h : Among keys inner) (config : InMemoryCacheConfig) (now : Nat) {key : String}
    (hkey : key ∈ keys) (entry : CachedEntry) :
    Among keys (put { config with maxEntries := none } now key entry inner) := by
  show (inner.map.insert key _).keys ⊆ keys
  intro k hk
  rw [Finmap.mem_keys, Finmap.mem_insert] at hk
  rcases hk with rfl | hk
  · exact hkey
  · exact h (Finmap.mem_keys.mpr hk)

/-- a bound that all the keys fit under evicts nothing -/
theorem put_of_spare {config : InMemoryCacheConfig} {max : Nat} (hbound : config.maxEntries = some max)
    (hcard : keys.card ≤ max) (h : Among keys inner) (now : Nat) {key : String} (hkey : key ∈ keys)
    (entry : CachedEntry) :
    put config now key entry inner = put { config with maxEntries := none } now key entry inner := by
  have hpos : max ≠ 0 := by
    have hkeys : 0 < keys.card := Finset.card_pos.mpr ⟨key, hkey⟩
    omega
  have hshort : (inner.map.insert key (stamp config now entry)).keys.card ≤ max :=
    (Finset.card_le_card (h.put config now hkey entry)).trans hcard
  have hzero : config.maxEntries ≠ some 0 := by
    rw [hbound]
    exact fun h0 => hpos (Option.some.inj h0)
  unfold put
  dsimp only
  rw [if_neg hzero, hbound]
  exact evict_of_short hshort _

end InMemoryCache

namespace OptimizedModel
variable (self : OptimizedModel M R) [DispatchModel M L A R] [DecidableEq ι] {asks : ι → Ask}
  {log : List (ι × Event (Eff L A))}

/-- **Every interleaving on an `InMemoryCache` is one on a `FoyerCache`.**  The calls do the same, are
answered the same and return the same; the `FoyerCache` ends with what the `InMemoryCache` has
stored. -/
theorem in_memory_run_is_foyer_run {config : InMemoryCacheConfig} {foyer : FoyerCacheConfig}
    (httl : config.defaultTtlSecs = none) (hcap : foyer.capacity ≠ 0)
    {c : Pool (Eff L A) ι (Result (NormalizedResponse (CompletionResponse R))) Inner}
    (h : Exec (serve (InMemoryCache config)) (self.start asks InMemoryCache.init) log c) :
    Exec (dropping (serve (FoyerCache foyer))) (self.start asks FoyerCache.init) log
      ⟨c.threads, InMemoryCache.contents c.shared⟩ := by
  have hsim : ∀ inner m (e : Event (Eff L A)) inner',
      InMemoryCache.Good config.maxEntries inner ∧ m = InMemoryCache.contents inner →
      serve (InMemoryCache config) inner e inner' →
      ∃ m', (InMemoryCache.Good config.maxEntries inner' ∧ m' = InMemoryCache.contents inner') ∧
        dropping (serve (FoyerCache foyer)) m e m' := by
    rintro inner m ⟨o, r⟩ inner' ⟨hg, rfl⟩ hstep
    have hg' := serve_good hstep hg
    obtain ⟨clock, provider, hop⟩ := hstep
    obtain ⟨rfl, rfl⟩ : (handler (InMemoryCache config clock) provider o inner).1 = r ∧
        (handler (InMemoryCache config clock) provider o inner).2 = inner' :=
      ⟨congrArg Prod.fst hop, congrArg Prod.snd hop⟩
    refine ⟨_, ⟨hg', rfl⟩, InMemoryCache.contents inner, ?_⟩
    cases o with
    | cacheGet k =>
      exact ⟨_, .refl _, ⟨clock.get, provider, foyer_get_of_in_memory config foyer _ _ _ _⟩, .refl _⟩
    | cachePut k e =>
      refine ⟨_, .refl _, ⟨clock.get, provider, rfl⟩, ?_⟩
      show FoyerCache.Drops (FoyerCache.put foyer k e _) _
      rw [FoyerCache.put_contents hcap]
      exact InMemoryCache.put_drops hg httl clock.put k e
    | callStart leg request => exact ⟨_, .refl _, ⟨clock.get, provider, rfl⟩, .refl _⟩
    | callEnd leg request => exact ⟨_, .refl _, ⟨clock.get, provider, rfl⟩, .refl _⟩
    | emit event => exact ⟨_, .refl _, ⟨clock.get, provider, rfl⟩, .refl _⟩
  obtain ⟨m, ⟨-, rfl⟩, hexec⟩ := h.sim _ hsim (t := FoyerCache.init)
    ⟨InMemoryCache.init_good, (funext InMemoryCache.contents_init).symm⟩
  exact hexec

/-- **Without a bound, and without drops, the two backends allow the same interleavings.** -/
theorem unbounded_run_iff_foyer_run {foyer : FoyerCacheConfig} (hcap : foyer.capacity ≠ 0)
    {threads : ι → Prog (Eff L A) (Result (NormalizedResponse (CompletionResponse R)))}
    {m : FoyerCache.Contents} :
    (∃ inner, Exec (serve (InMemoryCache InMemoryCache.unbounded))
      (self.start asks InMemoryCache.init) log ⟨threads, inner⟩ ∧ InMemoryCache.contents inner = m) ↔
    Exec (serve (FoyerCache foyer)) (self.start asks FoyerCache.init) log ⟨threads, m⟩ := by
  have hput (clock : Clock) (k : String) (e : CachedEntry) (inner : Inner) :
      InMemoryCache.contents (InMemoryCache.put InMemoryCache.unbounded clock.put k e inner) =
        FoyerCache.put foyer k e (InMemoryCache.contents inner) := by
    rw [FoyerCache.put_contents hcap, InMemoryCache.contents_put rfl, InMemoryCache.stamp_of_none rfl]
  constructor
  · rintro ⟨inner, h, rfl⟩
    have hsim : ∀ inner m (e : Event (Eff L A)) inner', m = InMemoryCache.contents inner →
        serve (InMemoryCache InMemoryCache.unbounded) inner e inner' →
        ∃ m', m' = InMemoryCache.contents inner' ∧ serve (FoyerCache foyer) m e m' := by
      rintro inner m ⟨o, r⟩ inner' rfl ⟨clock, provider, hop⟩
      obtain ⟨rfl, rfl⟩ : (handler (InMemoryCache InMemoryCache.unbounded clock) provider o inner).1 = r ∧
          (handler (InMemoryCache InMemoryCache.unbounded clock) provider o inner).2 = inner' :=
        ⟨congrArg Prod.fst hop, congrArg Prod.snd hop⟩
      refine ⟨_, rfl, clock.get, provider, ?_⟩
      cases o with
      | cacheGet k => exact foyer_get_of_in_memory _ foyer _ _ _ _
      | cachePut k e => exact Prod.ext rfl (hput clock k e inner).symm
      | callStart leg request => rfl
      | callEnd leg request => rfl
      | emit event => rfl
    obtain ⟨m, rfl, hexec⟩ := h.sim _ hsim (t := FoyerCache.init)
      (funext InMemoryCache.contents_init).symm
    exact hexec
  · intro h
    have hsim : ∀ m inner (e : Event (Eff L A)) m', m = InMemoryCache.contents inner →
        serve (FoyerCache foyer) m e m' →
        ∃ inner', m' = InMemoryCache.contents inner' ∧
          serve (InMemoryCache InMemoryCache.unbounded) inner e inner' := by
      rintro m inner ⟨o, r⟩ m' rfl ⟨now, provider, hop⟩
      obtain ⟨rfl, rfl⟩ :
          (handler (FoyerCache foyer now) provider o (InMemoryCache.contents inner)).1 = r ∧
          (handler (FoyerCache foyer now) provider o (InMemoryCache.contents inner)).2 = m' :=
        ⟨congrArg Prod.fst hop, congrArg Prod.snd hop⟩
      let clock : Clock := ⟨now, now⟩
      cases o with
      | cacheGet k =>
        have hget := foyer_get_of_in_memory (L := L) InMemoryCache.unbounded foyer clock provider k inner
        exact ⟨_, congrArg Prod.snd hget, clock, provider, Prod.ext (congrArg Prod.fst hget).symm rfl⟩
      | cachePut k e => exact ⟨_, (hput clock k e inner).symm, clock, provider, rfl⟩
      | callStart leg request => exact ⟨inner, rfl, clock, provider, rfl⟩
      | callEnd leg request => exact ⟨inner, rfl, clock, provider, rfl⟩
      | emit event => exact ⟨inner, rfl, clock, provider, rfl⟩
    obtain ⟨inner, hm, hexec⟩ := h.sim _ hsim (t := InMemoryCache.init)
      (funext InMemoryCache.contents_init).symm
    exact ⟨inner, hexec, hm.symm⟩

/-- **A bound that is not reached is not noticed.**  If all calls together have no more keys than the
bound allows entries, every interleaving is one of the same calls without a bound, and conversely; map
and queue end as they do there. -/
theorem spare_bound_unseen [Nonempty A] [LawfulDispatch M] {config : InMemoryCacheConfig} {max : Nat}
    (hbound : config.maxEntries = some max) {keys : Finset String} (hcard : keys.card ≤ max)
    (hkeys : ∀ i k, self.key.key (asks i).request (asks i).options = .ok k → k ∈ keys)
    {c : Pool (Eff L A) ι (Result (NormalizedResponse (CompletionResponse R))) Inner} :
    Exec (serve (InMemoryCache config)) (self.start asks InMemoryCache.init) log c ↔
      Exec (serve (InMemoryCache { config with maxEntries := none }))
        (self.start asks InMemoryCache.init) log c := by
  let unbounded : InMemoryCacheConfig := { config with maxEntries := none }
  let Fits : Event (Eff L A) → Prop := fun e => ∀ k entry r, e = evPut k entry r → k ∈ keys
  have hlog {O : Object (Eff L A) Inner}
      (h : Exec O (self.start asks InMemoryCache.init) log c) : ∀ x ∈ log, Fits x.2 := by
    rintro ⟨j, ev⟩ hx k entry r rfl
    obtain ⟨before, after, hsplit⟩ := List.append_of_mem hx
    obtain ⟨resp, hk, -⟩ := self.writes_of_exec h hsplit
    exact hkeys j k hk
  have hop (clock : Clock) (provider : L → CompletionRequest → A) {inner : Inner}
      (hin : InMemoryCache.Among keys inner) {e : Event (Eff L A)} (he : Fits e) :
      handler (InMemoryCache config clock) provider e.op inner =
          handler (InMemoryCache unbounded clock) provider e.op inner ∧
        InMemoryCache.Among keys (handler (InMemoryCache unbounded clock) provider e.op inner).2 := by
    obtain ⟨o, r⟩ := e
    cases o with
    | cacheGet k => exact ⟨rfl, hin.get _ k⟩
    | cachePut k entry =>
      have hk : k ∈ keys := he k entry r rfl
      refine ⟨?_, hin.put config _ hk entry⟩
      exact Prod.ext rfl (InMemoryCache.put_of_spare hbound hcard hin clock.put hk entry)
    | callStart leg request => exact ⟨rfl, hin⟩
    | callEnd leg request => exact ⟨rfl, hin⟩
    | emit event => exact ⟨rfl, hin⟩
  have hinit : InMemoryCache.Among keys InMemoryCache.init := Finset.empty_subset _
  constructor
  · intro h
    refine (h.agree (InMemoryCache.Among keys) Fits ?_ hinit (hlog h)).1
    rintro s e t hin he ⟨clock, provider, hstep⟩
    obtain ⟨heq, hnext⟩ := hop clock provider hin he
    have ht : (handler (InMemoryCache unbounded clock) provider e.op s) = (e.ret, t) := by
      rw [← heq]
      exact hstep
    rw [ht] at hnext
    exact ⟨⟨clock, provider, ht⟩, hnext⟩
  · intro h
    refine (h.agree (InMemoryCache.Among keys) Fits ?_ hinit (hlog h)).1
    rintro s e t hin he ⟨clock, provider, hstep⟩
    obtain ⟨heq, hnext⟩ := hop clock provider hin he
    have ht : (handler (InMemoryCache unbounded clock) provider e.op s) = (e.ret, t) := hstep
    rw [ht] at hnext
    exact ⟨⟨clock, provider, heq.trans ht⟩, hnext⟩

/-! ## two calls, one after the other -/

def inTurn (_ : Bool) : Ask := ⟨promptRequest "hi", {}⟩

abbrev plainCalls : OptimizedModel (Dispatcher String) String :=
  textModel Dispatcher.mk preambleKey AcceptAllValidator

/-- the second call hits -/
theorem exec_inTurn (config : InMemoryCacheConfig)
    (hone : config = ⟨some 1, none⟩ ∨ config = ⟨none, none⟩) :
    ∃ log c n, Exec (serve (InMemoryCache config)) (plainCalls.start inTurn InMemoryCache.init) log c ∧
      c.threads true = .ret (.ok n) ∧ n.provenance.cacheHit = true := by
  let c₁ := plainCalls.runAlone (InMemoryCache config ⟨0, 0⟩) (replies "one") (inTurn false) false
    (plainCalls.start inTurn InMemoryCache.init)
  have h₁ : Exec (serve (InMemoryCache config)) _ _ c₁ :=
    plainCalls.exec_alone (InMemoryCache config) ⟨0, 0⟩ (replies "one") false rfl
  have h₂ := plainCalls.exec_alone (InMemoryCache config) ⟨0, 0⟩ (replies "two") true
    (show c₁.threads true = plainCalls.program (inTurn true) from rfl)
  rcases hone with rfl | rfl
  · exact ⟨_, _, _, h₁.trans h₂, rfl, rfl⟩
  · exact ⟨_, _, _, h₁.trans h₂, rfl, rfl⟩

/-- a request under another key comes between two equal ones -/
def between : Fin 3 → Ask
  | 1 => ⟨{ promptRequest "hi" with preamble := some "be brief" }, {}⟩
  | _ => ⟨promptRequest "hi", {}⟩

/-- a bound of one entry: the second call evicts what the first has stored, and the third is
answered anew -/
theorem bounded_calls_on_foyer :
    ∃ log c n, Exec (dropping (serve (FoyerCache ⟨1024⟩))) (plainCalls.start between FoyerCache.init)
      log c ∧ c.threads 2 = .ret (.ok n) ∧ n.provenance.cacheHit = false ∧
      n.response = textResponse "three" .zero := by
  let c₁ := plainCalls.runAlone (InMemoryCache ⟨some 1, none⟩ ⟨0, 0⟩) (replies "one") (between 0) 0
    (plainCalls.start between InMemoryCache.init)
  let c₂ := plainCalls.runAlone (InMemoryCache ⟨some 1, none⟩ ⟨0, 0⟩) (replies "two") (between 1) 1 c₁
  have h₁ : Exec (serve (InMemoryCache ⟨some 1, none⟩)) _ _ c₁ :=
    plainCalls.exec_alone (InMemoryCache ⟨some 1, none⟩) ⟨0, 0⟩ (replies "one") 0 rfl
  have h₂ : Exec (serve (InMemoryCache ⟨some 1, none⟩)) c₁ _ c₂ :=
    plainCalls.exec_alone (InMemoryCache ⟨some 1, none⟩) ⟨0, 0⟩ (replies "two") 1
      (show c₁.threads 1 = plainCalls.program (between 1) from rfl)
  have h₃ := plainCalls.exec_alone (InMemoryCache ⟨some 1, none⟩) ⟨0, 0⟩ (replies "three") 2
    (show c₂.threads 2 = plainCalls.program (between 2) from rfl)
  exact ⟨_, _, _, plainCalls.in_memory_run_is_foyer_run rfl (by decide) ((h₁.trans h₂).trans h₃), rfl,
    rfl, rfl⟩

theorem unbounded_calls_on_foyer :
    ∃ log c n, Exec (serve (FoyerCache ⟨1024⟩)) (plainCalls.start inTurn FoyerCache.init) log c ∧
      c.threads true = .ret (.ok n) ∧ n.provenance.cacheHit = true := by
  obtain ⟨log, c, n, h, hn, hit⟩ := exec_inTurn InMemoryCache.unbounded (.inr rfl)
  exact ⟨log, _, n, (plainCalls.unbounded_run_iff_foyer_run (by decide)).mp ⟨c.shared, h, rfl⟩, hn, hit⟩

/-- one entry is enough for one key -/
theorem one_entry_unseen :
    ∃ log c n, Exec (serve (InMemoryCache ⟨none, none⟩)) (plainCalls.start inTurn InMemoryCache.init)
      log c ∧ c.threads true = .ret (.ok n) ∧ n.provenance.cacheHit = true := by
  obtain ⟨log, c, n, h, hn, hit⟩ := exec_inTurn ⟨some 1, none⟩ (.inl rfl)
  have hkeys : ∀ i k, plainCalls.key.key (inTurn i).request (inTurn i).options = .ok k →
      k ∈ ({""} : Finset String) := by
    intro i k hk
    cases hk
    exact Finset.mem_singleton_self _
  exact ⟨log, c, n, (plainCalls.spare_bound_unseen rfl (by decide) hkeys).mp h, hn, hit⟩

end OptimizedModel

end Tokudo
