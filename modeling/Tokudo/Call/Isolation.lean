import Tokudo.Call.Sequential

/-!
# Cache namespaces do not interfere

The default key covers the namespace, so the calls of one namespace touch only keys that no call of
another namespace touches.  Without a bound, an operation changes its own key only.

`AgreeOn n` relates two caches that hold the same under every key of the namespace `n`.  A call of
`n` keeps it, and answers alike (`agree_of_call`); a call of another namespace keeps it, whatever
the other cache does (`agree_of_foreign`).

`namespaces_isolated`: **deleting the calls of all other namespaces changes no outcome.**
-/

namespace Tokudo
open Effect Store

variable {L A R M : Type}

namespace OptimizedModel
variable (self : OptimizedModel M R)

/-- `k` is the key of a call of the namespace `n` -/
def KeyOf (n : Option String) (k : String) : Prop :=
  ∃ request options, options.cacheNamespace = n ∧ self.key.key request options = .ok k

def AgreeOn (n : Option String) (s t : Inner) : Prop :=
  ∀ k, self.KeyOf n k → InMemoryCache.contents s k = InMemoryCache.contents t k

theorem keyOf_disjoint {serde : KeySerde} (hkey : self.key = DefaultCacheKey serde)
    (hinj : serde.Injective) {n n' : Option String} {k : String} (h : self.KeyOf n k)
    (h' : self.KeyOf n' k) : n = n' := by
  obtain ⟨r, o, rfl, hk⟩ := h
  obtain ⟨r', o', rfl, hk'⟩ := h'
  rw [hkey] at hk hk'
  exact namespace_eq_of_projection_eq (projection_eq_of_key_eq hinj hk hk')

variable {self} {config : InMemoryCacheConfig} {n : Option String} {s t : Inner}

theorem AgreeOn.update (h : self.AgreeOn n s t) {k : String} (hk : self.KeyOf n k)
    (f : Option CachedEntry → Option CachedEntry) {s' t' : Inner}
    (hs : InMemoryCache.contents s' =
      Function.update (InMemoryCache.contents s) k (f (InMemoryCache.contents s k)))
    (ht : InMemoryCache.contents t' =
      Function.update (InMemoryCache.contents t) k (f (InMemoryCache.contents t k))) :
    self.AgreeOn n s' t' := by
  intro k' hk'
  rw [hs, ht, h k hk]
  by_cases hkk : k' = k
  · rw [hkk, Function.update_self, Function.update_self]
  · rw [Function.update_of_ne hkk, Function.update_of_ne hkk, h k' hk']

theorem AgreeOn.foreign (h : self.AgreeOn n s t) {k : String} (hk : ¬ self.KeyOf n k)
    {v : Option CachedEntry} {s' : Inner}
    (hs : InMemoryCache.contents s' = Function.update (InMemoryCache.contents s) k v) :
    self.AgreeOn n s' t := by
  intro k' hk'
  have hne : k' ≠ k := fun he => hk (he ▸ hk')
  rw [hs, Function.update_of_ne hne, h k' hk']

theorem AgreeOn.answer (hbound : config.maxEntries = none) (clock : Clock)
    (provider : L → CompletionRequest → A) (o : Op L)
    (ho : ∀ k, o.touched = some k → self.KeyOf n k) (h : self.AgreeOn n s t) :
    (handler (InMemoryCache config clock) provider o s).1 =
        (handler (InMemoryCache config clock) provider o t).1 ∧
      self.AgreeOn n (handler (InMemoryCache config clock) provider o s).2
        (handler (InMemoryCache config clock) provider o t).2 := by
  cases o with
  | cacheGet k =>
    have hk := ho k rfl
    constructor
    · show Except.ok (InMemoryCache.get clock.get k s).1 =
        Except.ok (InMemoryCache.get clock.get k t).1
      rw [InMemoryCache.get_fresh, InMemoryCache.get_fresh, h k hk]
    · exact h.update hk (InMemoryCache.fresh clock.get) (InMemoryCache.contents_get _ _ _)
        (InMemoryCache.contents_get _ _ _)
  | cachePut k e =>
    have hk := ho k rfl
    refine ⟨rfl, h.update hk (fun _ => some (InMemoryCache.stamp config clock.put e)) ?_ ?_⟩
    · exact InMemoryCache.contents_put hbound _ _ _ _
    · exact InMemoryCache.contents_put hbound _ _ _ _
  | callStart leg request => exact ⟨rfl, h⟩
  | callEnd leg request => exact ⟨rfl, h⟩
  | emit event => exact ⟨rfl, h⟩

theorem AgreeOn.unseen (hbound : config.maxEntries = none) (clock : Clock)
    (provider : L → CompletionRequest → A) (o : Op L)
    (ho : ∀ k, o.touched = some k → ¬ self.KeyOf n k) (h : self.AgreeOn n s t) :
    self.AgreeOn n (handler (InMemoryCache config clock) provider o s).2 t := by
  cases o with
  | cacheGet k => exact h.foreign (ho k rfl) (InMemoryCache.contents_get _ _ _)
  | cachePut k e => exact h.foreign (ho k rfl) (InMemoryCache.contents_put hbound _ _ _ _)
  | callStart leg request => exact h
  | callEnd leg request => exact h
  | emit event => exact h

variable (self) [DispatchModel M L A R] [LawfulDispatch M]

/-- **A call of the namespace has the same outcome in both caches.** -/
theorem agree_of_call (hbound : config.maxEntries = none) {call : Call L A Clock}
    (hn : call.ask.options.cacheNamespace = n) (h : self.AgreeOn n s t) :
    (self.perform (InMemoryCache config) call s).outcome.value =
        (self.perform (InMemoryCache config) call t).outcome.value ∧
      self.AgreeOn n (self.perform (InMemoryCache config) call s).outcome.state
        (self.perform (InMemoryCache config) call t).outcome.state := by
  refine exec_sim _ _ (self.AgreeOn n) (fun o => ∀ k, Op.touched o = some k → self.KeyOf n k)
    (fun o ho s t hst => hst.answer hbound call.env call.provider o ho) _ s t ?_ h
  intro e hm k hk
  have htrans := self.transcript_of_callStep (show self.CallStep (InMemoryCache config) s
    (self.perform (InMemoryCache config) call s) _ from ⟨rfl, rfl⟩)
  exact ⟨_, _, hn, self.touched_of_transcript htrans hm hk⟩

/-- **A call of another namespace is not seen.** -/
theorem agree_of_foreign {serde : KeySerde} (hkey : self.key = DefaultCacheKey serde)
    (hinj : serde.Injective) (hbound : config.maxEntries = none) {call : Call L A Clock}
    (hn : call.ask.options.cacheNamespace ≠ n) (h : self.AgreeOn n s t) :
    self.AgreeOn n (self.perform (InMemoryCache config) call s).outcome.state t := by
  have hstep : self.CallStep (InMemoryCache config) s (self.perform (InMemoryCache config) call s)
    (self.perform (InMemoryCache config) call s).outcome.state := ⟨rfl, rfl⟩
  have htrans := self.transcript_of_callStep hstep
  have htouch : ∀ e ∈ (self.perform (InMemoryCache config) call s).outcome.events, ∀ k,
      e.op.touched = some k → ¬ self.KeyOf n k := by
    intro e hm k hk hn'
    have hown : self.KeyOf call.ask.options.cacheNamespace k :=
      ⟨_, _, rfl, self.touched_of_transcript htrans hm hk⟩
    exact hn (self.keyOf_disjoint hkey hinj hown hn')
  refine ((self.history_of_callStep hstep).restrict _ htouch).invariant (self.AgreeOn n · t) ?_ h
  rintro u ⟨o, r⟩ v ⟨hans, ho⟩ hu
  have hv : (handler (InMemoryCache config call.env) call.provider o u).2 = v :=
    congrArg Prod.snd hans
  rw [← hv]
  exact hu.unseen hbound call.env call.provider o ho

def outcomesOf (n : Option String) (ds : List (Done L A R Clock Inner)) :
    List (Result (NormalizedResponse (CompletionResponse R))) :=
  (ds.filter fun d => decide (d.call.ask.options.cacheNamespace = n)).map (·.outcome.value)

theorem outcomes_of_agree {serde : KeySerde} (hkey : self.key = DefaultCacheKey serde)
    (hinj : serde.Injective) (hbound : config.maxEntries = none) (calls : List (Call L A Clock))
    (h : self.AgreeOn n s t) :
    outcomesOf n (self.runCalls (InMemoryCache config) calls s) =
      (self.runCalls (InMemoryCache config)
        (calls.filter fun call => decide (call.ask.options.cacheNamespace = n)) t).map
        (·.outcome.value) := by
  induction calls generalizing s t with
  | nil => rfl
  | cons call calls ih =>
    let d := self.perform (InMemoryCache config) call s
    by_cases hn : call.ask.options.cacheNamespace = n
    · obtain ⟨hv, hagree⟩ := self.agree_of_call hbound hn h
      have hd : d.call.ask.options.cacheNamespace = n := hn
      rw [List.filter_cons_of_pos (by simpa using hn), runCalls, outcomesOf,
        List.filter_cons_of_pos (by simpa using hd), runCalls, List.map_cons, List.map_cons, hv]
      exact congrArg _ (ih hagree)
    · have hd : d.call.ask.options.cacheNamespace ≠ n := hn
      rw [List.filter_cons_of_neg (by simpa using hn), runCalls, outcomesOf,
        List.filter_cons_of_neg (by simpa using hd)]
      exact ih (self.agree_of_foreign hkey hinj hbound hn h)

/-- **Deleting the calls of all other namespaces changes no outcome.**  Any default TTL, any
policies, any clock readings; every call keeps its own. -/
theorem namespaces_isolated {serde : KeySerde} (hkey : self.key = DefaultCacheKey serde)
    (hinj : serde.Injective) (hbound : config.maxEntries = none) (n : Option String)
    (calls : List (Call L A Clock)) :
    outcomesOf n (self.runCalls (InMemoryCache config) calls InMemoryCache.init) =
      (self.runCalls (InMemoryCache config)
        (calls.filter fun call => decide (call.ask.options.cacheNamespace = n))
        InMemoryCache.init).map (·.outcome.value) :=
  self.outcomes_of_agree hkey hinj hbound calls fun _ _ => rfl

/-- the second of three calls is another tenant's -/
theorem second_tenant_isolated :
    let self := textModel (Dispatcher.mk : Dispatcher String) (DefaultCacheKey textKeySerde)
      AcceptAllValidator
    let call (tenant text : String) : Call Unit (Result (DispatchOutcome String)) Clock :=
      ⟨⟨promptRequest "hi", { cacheNamespace := some tenant }⟩, ⟨0, 0⟩, replies text⟩
    outcomesOf (some "a") (self.runCalls (InMemoryCache ⟨none, some 60⟩)
        [call "a" "one", call "b" "two", call "a" "three"] InMemoryCache.init) =
      (self.runCalls (InMemoryCache ⟨none, some 60⟩) [call "a" "one", call "a" "three"]
        InMemoryCache.init).map (·.outcome.value) := by
  intro self call
  exact self.namespaces_isolated rfl textKeySerde_injective rfl (some "a")
    [call "a" "one", call "b" "two", call "a" "three"]

end OptimizedModel

end Tokudo
