import Tokudo.Call.Concurrent

/-!
# Calls one after the other

`runCalls backend calls s` runs calls of `complete` in order on one cache, each with its own
environment (a clock, say) and its own provider.  A `Done` is a call together with the state before
it and its outcome.

* `effect_of_transcript`   a call changes the cache by at most one read and then one write;
* `hit_source`             whatever the bound and the TTL, a hit is served what the latest call that
                           stored under the key has returned;
* `policies_kept`          **without a bound and a TTL: which calls hit, what they return, how often
                           each call dispatches and which calls leave the cache as it is.**
-/

namespace Tokudo
open Effect Store

variable {L A R M σ ω : Type}

/-! ## runs -/

/-- a call, and the world it runs in -/
structure Call (L A ω : Type) where
  ask : Ask
  env : ω
  provider : L → CompletionRequest → A

structure Done (L A R ω σ : Type) where
  call : Call L A ω
  before : σ
  outcome : Outcome (Eff L A) (Result (NormalizedResponse (CompletionResponse R))) σ

def Done.Hit (d : Done L A R ω σ) : Prop :=
  ∃ n, d.outcome.value = .ok n ∧ n.provenance.cacheHit = true

/-- what the call has written, but for the deadline -/
def Done.written (d : Done L A R ω σ) : Option (String × CachedEntry) :=
  d.outcome.events.findSome? writeOf

namespace OptimizedModel
variable (self : OptimizedModel M R) [DispatchModel M L A R]

def perform (backend : ω → Cache σ) (call : Call L A ω) (s : σ) : Done L A R ω σ :=
  ⟨call, s, self.outcomeOf (backend call.env) call.provider call.ask s⟩

def runCalls (backend : ω → Cache σ) : List (Call L A ω) → σ → List (Done L A R ω σ)
  | [], _ => []
  | call :: calls, s =>
    let d := self.perform backend call s
    d :: runCalls backend calls d.outcome.state

def CallStep (backend : ω → Cache σ) (s : σ) (d : Done L A R ω σ) (t : σ) : Prop :=
  d = self.perform backend d.call s ∧ t = d.outcome.state

/-- **The calls before a call are a run up to the state it finds.** -/
theorem run_of_runCalls {backend : ω → Cache σ} {calls : List (Call L A ω)} {s : σ}
    {ds ds' : List (Done L A R ω σ)} {d : Done L A R ω σ}
    (h : self.runCalls backend calls s = ds ++ d :: ds') :
    Run (self.CallStep backend) s ds d.before ∧ self.CallStep backend d.before d d.outcome.state := by
  induction ds generalizing calls s with
  | nil =>
    cases calls with
    | nil => cases h
    | cons call calls =>
      obtain ⟨rfl, -⟩ := List.cons.inj h
      exact ⟨.nil s, rfl, rfl⟩
  | cons d₀ ds ih =>
    cases calls with
    | nil => cases h
    | cons call calls =>
      obtain ⟨rfl, hrest⟩ := List.cons.inj h
      obtain ⟨hrun, hd⟩ := ih hrest
      exact ⟨.cons ⟨rfl, rfl⟩ hrun, hd⟩

theorem transcript_of_callStep {backend : ω → Cache σ} {s t : σ} {d : Done L A R ω σ}
    (h : self.CallStep backend s d t) :
    self.Transcript d.call.ask.request d.call.ask.options d.outcome.events d.outcome.value := by
  obtain ⟨hd, -⟩ := h
  rw [hd]
  exact self.transcript_of_does (Prog.Runs.of_exec _ _ _)

theorem history_of_callStep {backend : ω → Cache σ} {s t : σ} {d : Done L A R ω σ}
    (h : self.CallStep backend s d t) :
    History (handler (backend d.call.env) d.call.provider).object s d.outcome.events t := by
  obtain ⟨hd, rfl⟩ := h
  rw [hd]
  exact history_of_exec _ _ _

end OptimizedModel

/-! ## what a call does to the cache -/

theorem findSome_writeOf {es : List (Event (Eff L A))} (h : ∀ k e r, evPut k e r ∉ es) :
    es.findSome? writeOf = none := by
  refine List.findSome?_eq_none_iff.mpr fun ev hev => ?_
  obtain ⟨o, r⟩ := ev
  cases o with
  | cachePut k e => exact absurd hev (h k e r)
  | cacheGet k => rfl
  | callStart leg request => rfl
  | callEnd leg request => rfl
  | emit event => rfl

theorem state_of_offCache {cache : Cache σ} {provider : L → CompletionRequest → A}
    {es : List (Event (Eff L A))} {s t : σ} (hoff : OffCache es)
    (h : History (handler cache provider).object s es t) : t = s := by
  refine (h.restrict _ hoff).invariant (· = s) ?_ rfl
  rintro u ⟨o, r⟩ v ⟨hstep, hnone⟩ rfl
  have hv : (handler cache provider o u).2 = v := congrArg Prod.snd hstep
  cases o with
  | cacheGet k => cases hnone
  | cachePut k e => cases hnone
  | callStart leg request => exact hv.symm
  | callEnd leg request => exact hv.symm
  | emit event => exact hv.symm

namespace OptimizedModel
variable (self : OptimizedModel M R) [DispatchModel M L A R]

/-- **A call changes the cache by at most one read and then one write**: it writes what it
returns. -/
theorem effect_of_transcript [LawfulDispatch M] {cache : Cache σ}
    {provider : L → CompletionRequest → A} {request : CompletionRequest} {options : TokudoOptions}
    {es : List (Event (Eff L A))} {a : Result (NormalizedResponse (CompletionResponse R))}
    {s t : σ} (h : self.Transcript request options es a)
    (hist : History (handler cache provider).object s es t) :
    ∃ s₁, (s₁ = s ∨ ∃ k, self.key.key request options = .ok k ∧ s₁ = (cache.get k s).2) ∧
      ((t = s₁ ∧ ∀ k e r, evPut k e r ∉ es) ∨
        ∃ k e n pre, self.key.key request options = .ok k ∧ allowWrite options.cachePolicy = true ∧
          self.entryOf k n.response = .ok e ∧ n.provenance.cacheHit = false ∧
          es = pre ++ [evPut k e (cache.put k e s₁).1] ∧ (∀ k' e' r, evPut k' e' r ∉ pre) ∧
          t = (cache.put k e s₁).2 ∧ a = (cache.put k e s₁).1.map fun _ => n) := by
  obtain ⟨reads, off, writes, rfl, hreads, hoff, hwrites⟩ := self.anatomy h
  obtain ⟨s₁, hread, hrest⟩ := run_append.mp hist
  obtain ⟨s₂, hoffrun, hwrite⟩ := run_append.mp hrest
  obtain rfl := state_of_offCache hoff hoffrun
  have hputs : ∀ k e r, evPut k e r ∉ reads ++ off :=
    fun k e r => self.put_notMem_of_reads hreads hoff
  refine ⟨s₂, ?_, ?_⟩
  · rcases hreads with rfl | ⟨k, r, rfl, hk, -⟩
    · exact .inl (run_nil.mp hread)
    · have hget := run_single.mp hread
      exact .inr ⟨k, hk, (congrArg Prod.snd hget).symm⟩
  · rcases hwrites with rfl | ⟨k, e, r, resp, n, rfl, hw, ha, rfl, hit⟩
    · refine .inl ⟨run_nil.mp hwrite, ?_⟩
      rw [List.append_nil]
      exact hputs
    · have hput : cache.put k e s₂ = (r, t) := run_single.mp hwrite
      obtain ⟨hk, -, -, hallow, he⟩ := hw
      refine .inr ⟨k, e, n, reads ++ off, hk, hallow, he, hit, ?_, hputs, ?_, ?_⟩
      · rw [hput, List.append_assoc]
      · rw [hput]
      · rw [hput]
        exact ha

/-- the call `w` has stored `n` under `k`: it was no hit, returned `Ok` and was not under
`NoStore` -/
structure Stored (k : String) (w : Done L A R ω σ)
    (n : NormalizedResponse (CompletionResponse R)) : Prop where
  key : self.key.key w.call.ask.request w.call.ask.options = .ok k
  policy : w.call.ask.options.cachePolicy ≠ .noStore
  value : w.outcome.value = .ok n
  fresh : n.provenance.cacheHit = false

variable [LawfulDispatch M] {config : InMemoryCacheConfig} {s t : Inner}
  {d : Done L A R Clock Inner} {ds ds' : List (Done L A R Clock Inner)}

/-- **What a call does to the in-memory cache.** -/
theorem effect_of_callStep (h : self.CallStep (InMemoryCache config) s d t) :
    ∃ s₁, (s₁ = s ∨ ∃ k, s₁ = (InMemoryCache.get d.call.env.get k s).2) ∧
      ((t = s₁ ∧ d.written = none ∧ ∀ k n, ¬ self.Stored k d n) ∨
        ∃ k e n, self.Stored k d n ∧ self.entryOf k n.response = .ok e ∧
          d.written = some (k, undated e) ∧
          t = InMemoryCache.put config d.call.env.put k e s₁) := by
  have htrans := self.transcript_of_callStep h
  obtain ⟨s₁, hs₁, heff⟩ := self.effect_of_transcript htrans (self.history_of_callStep h)
  refine ⟨s₁, ?_, ?_⟩
  · rcases hs₁ with rfl | ⟨k, -, rfl⟩
    · exact .inl rfl
    · exact .inr ⟨k, rfl⟩
  rcases heff with ⟨ht, hno⟩ | ⟨k, e, n, pre, hk, hallow, he, hit, hes, hpre, ht, ha⟩
  · refine .inl ⟨ht, ?_, ?_⟩
    · exact findSome_writeOf hno
    · rintro k n ⟨hk, hp, hv, hit⟩
      rw [hv] at htrans
      obtain ⟨k', _, _, _, _, -, -, -, -, -, hwrite⟩ := self.answer_of_transcript htrans hit
      obtain ⟨e, -, hput⟩ := hwrite (allowWrite_iff.mpr hp)
      exact hno _ _ _ hput
  · refine .inr ⟨k, e, n, ⟨hk, ?_, ha, hit⟩, he, ?_, ht⟩
    · exact allowWrite_iff.mp hallow
    · unfold Done.written
      rw [hes, List.findSome?_append, findSome_writeOf hpre]
      rfl

/-- **What is stored is what the latest call that stored under the key has returned.** -/
theorem latest_of_run (h : Run (self.CallStep (InMemoryCache config)) InMemoryCache.init ds s)
    {k : String} {v : CachedEntry} (hv : undatedContents s k = some v) :
    Latest Done.written k v ds := by
  have hstep : ∀ s d t, self.CallStep (InMemoryCache config) s d t →
      InMemoryCache.Good config.maxEntries s → InMemoryCache.Good config.maxEntries t ∧
        Lossy d.written (undatedContents s) (undatedContents t) := by
    intro s d t hd hs
    obtain ⟨s₁, hs₁, heff⟩ := self.effect_of_callStep hd
    have hread : InMemoryCache.Good config.maxEntries s₁ ∧
        Lossy none (undatedContents s) (undatedContents s₁) := by
      rcases hs₁ with rfl | ⟨k, rfl⟩
      · exact ⟨hs, .unchanged _⟩
      · exact ⟨InMemoryCache.get_good hs _ k, (InMemoryCache.get_lossy hs _ k).map undated⟩
    rcases heff with ⟨rfl, hw, -⟩ | ⟨k, e, n, -, -, hw, rfl⟩
    · rw [hw]
      exact hread
    · refine ⟨InMemoryCache.put_good hread.1 _ k e, ?_⟩
      have hput := (InMemoryCache.put_lossy hread.1 d.call.env.put k e).map undated
      rw [Option.map_some, undated_stamp] at hput
      rw [hw]
      exact hread.2.after hput
  exact current_of_lossy undatedContents Done.written (InMemoryCache.Good config.maxEntries)
    (fun s d t hd hs => (hstep s d t hd hs).1) (fun s d t hd hs => (hstep s d t hd hs).2) h
    InMemoryCache.init_good [] (fun k v hv => by
      simp [undatedContents, InMemoryCache.contents_init] at hv) k v hv

theorem stored_of_latest (h : Run (self.CallStep (InMemoryCache config)) s ds t) {k : String}
    {v : CachedEntry} (hl : Latest Done.written k v ds) :
    ∃ ds₁ w ds₂ n e, ds = ds₁ ++ w :: ds₂ ∧ self.Stored k w n ∧
      (∀ w' ∈ ds₂, ∀ n', ¬ self.Stored k w' n') ∧ self.entryOf k n.response = .ok e ∧
      v = undated e := by
  obtain ⟨ds₁, w, ds₂, rfl, hw, hlast⟩ := hl
  obtain ⟨s₁, t₁, hstep⟩ := h.exists_step (List.mem_append_right _ List.mem_cons_self)
  obtain ⟨_, -, ⟨-, hnone, -⟩ | ⟨k', e, n, hst, he, hw', -⟩⟩ := self.effect_of_callStep hstep
  · rw [hnone] at hw
    cases hw
  rw [hw'] at hw
  obtain ⟨rfl, rfl⟩ := Prod.mk.inj (Option.some.inj hw)
  refine ⟨ds₁, w, ds₂, n, e, rfl, hst, fun w' hm n' hst' => ?_, he, rfl⟩
  obtain ⟨s₂, t₂, hstep'⟩ :=
    h.exists_step (List.mem_append_right _ (List.mem_cons_of_mem _ hm))
  obtain ⟨_, -, ⟨-, -, hno⟩ | ⟨k'', e', n'', hst'', -, hw'', -⟩⟩ := self.effect_of_callStep hstep'
  · exact hno _ _ hst'
  · obtain ⟨hk, -, -, -⟩ := hst'
    obtain ⟨hk', -, -, -⟩ := hst''
    rw [hk] at hk'
    cases hk'
    exact hlast w' hm _ hw''

omit [LawfulDispatch M] in
theorem answer_of_read (h : self.CallStep (InMemoryCache config) s d t) {k : String}
    {r : Result (Option CachedEntry)} {rest : List (Event (Eff L A))}
    (hes : d.outcome.events = evGet k r :: rest) :
    r = .ok (InMemoryCache.get d.call.env.get k s).1 := by
  have hhist := self.history_of_callStep h
  rw [hes] at hhist
  obtain ⟨s₁, hget, -⟩ := run_cons.mp hhist
  exact (congrArg Prod.fst hget).symm

omit [LawfulDispatch M] in
theorem read_of_hit_step (h : self.CallStep (InMemoryCache config) s d t)
    {n : NormalizedResponse (CompletionResponse R)} (hv : d.outcome.value = .ok n)
    (hit : n.provenance.cacheHit = true) :
    ∃ k entry cached, self.key.key d.call.ask.request d.call.ask.options = .ok k ∧
      d.call.ask.options.cachePolicy = .default ∧ InMemoryCache.contents s k = some entry ∧
      self.decodeEntry entry = .ok cached ∧ n.response = cached.intoResponse := by
  have htrans := self.transcript_of_callStep h
  rw [hv] at htrans
  obtain ⟨k, entry, cached, hk, hr, hd, hes, rfl⟩ := self.hit_of_transcript htrans hit
  have hans := self.answer_of_read h hes
  obtain ⟨hstored, -⟩ := InMemoryCache.get_eq_some (Except.ok.inj hans).symm
  exact ⟨k, entry, cached, hk, allowRead_iff.mp hr, hstored, hd, rfl⟩

/-- **A hit is served what the latest call that stored under its key has returned**, whatever the
bound and the TTL. -/
theorem hit_source (hserde : self.serde.RoundTrips)
    (h : Run (self.CallStep (InMemoryCache config)) InMemoryCache.init ds s)
    (hd : self.CallStep (InMemoryCache config) s d t)
    {n : NormalizedResponse (CompletionResponse R)} (hv : d.outcome.value = .ok n)
    (hit : n.provenance.cacheHit = true) :
    d.call.ask.options.cachePolicy = .default ∧
    ∃ k ds₁ w ds₂ nw, self.key.key d.call.ask.request d.call.ask.options = .ok k ∧
      ds = ds₁ ++ w :: ds₂ ∧ self.Stored k w nw ∧ (∀ w' ∈ ds₂, ∀ n', ¬ self.Stored k w' n') ∧
      n.response = nw.response := by
  obtain ⟨k, entry, cached, hk, hp, hstored, hdec, hn⟩ := self.read_of_hit_step hd hv hit
  have hundated : undatedContents s k = some (undated entry) := by
    rw [undatedContents, hstored, Option.map_some]
  obtain ⟨ds₁, w, ds₂, nw, e, hds, hw, hlast, he, hue⟩ :=
    self.stored_of_latest h (self.latest_of_run h hundated)
  refine ⟨hp, k, ds₁, w, ds₂, nw, hk, hds, hw, hlast, ?_⟩
  rw [hn]
  exact self.decode_of_entryOf hserde he hue hdec

/-! ## without a bound and a TTL -/

omit [DispatchModel M L A R] [LawfulDispatch M] in
theorem undated_of_entryOf {k : String} {resp : CompletionResponse R} {e : CachedEntry}
    (h : self.entryOf k resp = .ok e) : e.expiresAtSecs = none := by
  unfold entryOf at h
  cases hv : self.serde.cachedToValue (.fromBorrowed resp) with
  | error e' =>
    rw [hv] at h
    cases h
  | ok v =>
    rw [hv] at h
    cases h
    rfl

/-- **A call stores what it returns and changes nothing else.** -/
theorem effect_of_undying
    (h : self.CallStep (InMemoryCache InMemoryCache.unbounded) s d t) (hs : InMemoryCache.Undying s) :
    InMemoryCache.Undying t ∧
    ((t = s ∧ d.written = none ∧ ∀ k n, ¬ self.Stored k d n) ∨
      ∃ k e n, self.Stored k d n ∧ d.written = some (k, e) ∧
        InMemoryCache.contents t = Function.update (InMemoryCache.contents s) k (some e)) := by
  obtain ⟨s₁, hs₁, heff⟩ := self.effect_of_callStep h
  obtain rfl : s₁ = s := by
    rcases hs₁ with rfl | ⟨k, rfl⟩
    · rfl
    · rw [InMemoryCache.get_of_undying hs]
  rcases heff with ⟨rfl, hw⟩ | ⟨k, e, n, hst, he, hw, rfl⟩
  · exact ⟨hs, .inl ⟨rfl, hw⟩⟩
  · have hdate := self.undated_of_entryOf he
    have hue : undated e = e := by
      unfold undated
      rw [← hdate]
    refine ⟨InMemoryCache.put_undying hs _ k hdate, .inr ⟨k, e, n, hst, ?_, ?_⟩⟩
    · rw [hw, hue]
    · rw [InMemoryCache.contents_put rfl, InMemoryCache.stamp_of_none rfl]

/-- **An entry is stored exactly if it is what the latest call has stored.** -/
theorem latest_iff_of_run
    (h : Run (self.CallStep (InMemoryCache InMemoryCache.unbounded)) InMemoryCache.init ds s) :
    InMemoryCache.Undying s ∧
      ∀ k v, InMemoryCache.contents s k = some v ↔ Latest Done.written k v ds := by
  have hundying : ∀ s d t, self.CallStep (InMemoryCache InMemoryCache.unbounded) s d t →
      InMemoryCache.Undying s → InMemoryCache.Undying t :=
    fun s d t hd hs => (self.effect_of_undying hd hs).1
  refine ⟨h.invariant InMemoryCache.Undying hundying InMemoryCache.init_undying, ?_⟩
  refine latest_of_exact InMemoryCache.contents Done.written InMemoryCache.Undying hundying ?_ h
    InMemoryCache.init_undying [] fun k v => ?_
  · intro s d t hd hs
    rcases (self.effect_of_undying hd hs).2 with ⟨rfl, hw, -⟩ | ⟨k, e, n, -, hw, ht⟩
    · rw [hw]
      exact .unchanged _
    · rw [hw, ht]
      exact .update _ k e
  · rw [InMemoryCache.contents_init]
    constructor
    · intro h
      cases h
    · intro h
      exact absurd h (not_latest_nil _ k v)

theorem hit_of_contents (hserde : self.serde.RoundTrips)
    (h : Run (self.CallStep (InMemoryCache InMemoryCache.unbounded)) InMemoryCache.init ds s)
    (hd : self.CallStep (InMemoryCache InMemoryCache.unbounded) s d t) {k : String}
    (hk : self.key.key d.call.ask.request d.call.ask.options = .ok k)
    (hp : d.call.ask.options.cachePolicy = .default) {entry : CachedEntry}
    (hentry : InMemoryCache.contents s k = some entry) : d.Hit := by
  obtain ⟨hs, hlatest⟩ := self.latest_iff_of_run h
  obtain ⟨_, w, _, n, e, -, -, -, he, rfl⟩ := self.stored_of_latest h ((hlatest k entry).mp hentry)
  have hdec := self.decodeEntry_of_entryOf hserde he
  obtain ⟨r, rest, hes, hhit⟩ :=
    self.read_of_transcript (self.transcript_of_callStep hd) hk (allowRead_iff.mpr hp)
  have hr := self.answer_of_read hd hes
  rw [InMemoryCache.get_of_undying hs, hentry] at hr
  exact ⟨_, hhit _ _ hr hdec, self.withLineage_cacheHit _ _⟩

theorem hit_of_read (hserde : self.serde.RoundTrips)
    (h : Run (self.CallStep (InMemoryCache InMemoryCache.unbounded)) InMemoryCache.init ds s)
    (hd : self.CallStep (InMemoryCache InMemoryCache.unbounded) s d t) {k : String}
    {r : Result (Option CachedEntry)} {rest : List (Event (Eff L A))}
    (hes : d.outcome.events = evGet k r :: rest) (hr : r ≠ .ok none) : d.Hit := by
  have hm : evGet k r ∈ d.outcome.events := by
    rw [hes]
    exact List.mem_cons_self
  obtain ⟨hk, hp⟩ := self.get_of_transcript (self.transcript_of_callStep hd) hm
  have hans := self.answer_of_read hd hes
  rw [InMemoryCache.get_of_undying (self.latest_iff_of_run h).1] at hans
  cases hc : InMemoryCache.contents s k with
  | none =>
    rw [hc] at hans
    exact absurd hans hr
  | some entry => exact self.hit_of_contents hserde h hd hk (allowRead_iff.mp hp) hc

theorem contents_of_stored
    (h : Run (self.CallStep (InMemoryCache InMemoryCache.unbounded)) InMemoryCache.init ds s)
    {w : Done L A R Clock Inner} (hw : w ∈ ds) {k : String}
    {n : NormalizedResponse (CompletionResponse R)} (hst : self.Stored k w n) :
    ∃ entry, InMemoryCache.contents s k = some entry := by
  obtain ⟨s₁, t₁, hstep⟩ := h.exists_step hw
  obtain ⟨_, -, ⟨-, -, hno⟩ | ⟨k', e, n', hst', -, hwritten, -⟩⟩ := self.effect_of_callStep hstep
  · exact absurd hst (hno k n)
  · obtain ⟨hk, -, -, -⟩ := hst
    obtain ⟨hk', -, -, -⟩ := hst'
    rw [hk] at hk'
    cases hk'
    obtain ⟨v, hv⟩ := exists_latest hw hwritten
    exact ⟨v, ((self.latest_iff_of_run h).2 k v).mpr hv⟩

end OptimizedModel

/-! ## dispatches -/

def dispatches (es : List (Event (Eff L A))) : List CompletionRequest :=
  es.filterMap fun
    | ⟨.callStart _ request, _⟩ => some request
    | _ => none

theorem dispatches_append (es fs : List (Event (Eff L A))) :
    dispatches (es ++ fs) = dispatches es ++ dispatches fs := List.filterMap_append

theorem dispatches_of_reports {es : List (Event (Eff L A))} (h : ∀ e ∈ es, e.op.reports = true) :
    dispatches es = [] := by
  refine List.filterMap_eq_nil_iff.mpr fun e he => ?_
  have hr := h e he
  obtain ⟨o, r⟩ := e
  cases o with
  | callStart leg request => cases hr
  | cacheGet k => rfl
  | cachePut k e => rfl
  | callEnd leg request => rfl
  | emit event => rfl

namespace OptimizedModel

section
variable (self : OptimizedModel M R)

theorem dispatches_missEvents (options : TokudoOptions) (k : String) :
    dispatches (missEvents options k : List (Event (Eff L A))) = [] := by
  unfold missEvents
  split <;> rfl

theorem dispatches_hitEvents (modelName : Option String) (k : String) (entry : CachedEntry)
    (cached : CachedCompletionResponse R) :
    dispatches (self.hitEvents modelName k entry cached : List (Event (Eff L A))) = [] := by
  rw [hitEvents, dispatches_append, dispatches_of_reports (self.reports_lineageEvents _)]
  rfl

theorem dispatches_callEvents (modelName : Option String) (k : String) (choice : RouterChoice)
    (resp : CompletionResponse R) :
    dispatches (self.callEvents modelName k choice resp : List (Event (Eff L A))) = [] := by
  rw [callEvents, dispatches_append, dispatches_of_reports (self.reports_lineageEvents _)]
  rfl

theorem dispatches_ending {options : TokudoOptions} {k : String} {resp : CompletionResponse R}
    {es : List (Event (Eff L A))} {r : Result Unit} (h : self.Ending options k resp es r) :
    dispatches es = [] := by
  cases h <;> rfl

end

variable (self : OptimizedModel (Dispatcher R) R)

/-- **A call dispatches once, its prepared request, or is served from the cache or fails before.** -/
theorem dispatches_of_transcript {request : CompletionRequest} {options : TokudoOptions}
    {es : List (Event (Eff Unit (Result (DispatchOutcome R))))}
    {a : Result (NormalizedResponse (CompletionResponse R))}
    (h : self.Transcript request options es a) :
    (∃ k stats req, self.key.key request options = .ok k ∧
      self.prepared request options = .ok (stats, req) ∧ dispatches es = [req] ∧
      ∀ n, a = .ok n → n.provenance.cacheHit = false) ∨
    (dispatches es = [] ∧ ∀ k stats req, self.key.key request options = .ok k →
      self.prepared request options = .ok (stats, req) →
        ∃ r rest, es = evGet k r :: rest ∧ r ≠ .ok none) := by
  cases h with
  | keyError hk =>
    refine .inr ⟨rfl, fun k stats req hk' => ?_⟩
    rw [hk] at hk'
    cases hk'
  | readError hk hr =>
    refine .inr ⟨rfl, fun k stats req hk' _ => ?_⟩
    rw [hk] at hk'
    cases hk'
    exact ⟨_, _, rfl, by simp⟩
  | undecodable hk hr hd =>
    refine .inr ⟨rfl, fun k stats req hk' _ => ?_⟩
    rw [hk] at hk'
    cases hk'
    exact ⟨_, _, rfl, by simp⟩
  | hit hk hr hd =>
    refine .inr ⟨self.dispatches_hitEvents _ _ _ _, fun k stats req hk' _ => ?_⟩
    rw [hk] at hk'
    cases hk'
    exact ⟨_, _, rfl, by simp⟩
  | compressError hk hc =>
    refine .inr ⟨dispatches_missEvents _ _, fun k stats req _ hc' => ?_⟩
    rw [hc] at hc'
    cases hc'
  | @dispatchError k stats req ds e hk hc hd =>
    rw [does_dispatcher.mp hd]
    refine .inl ⟨k, stats, req, hk, hc, ?_, fun n hn => by cases hn⟩
    simp only [dispatches_append, dispatches_missEvents,
      dispatches_of_reports (reports_compressEvents stats),
      dispatches_of_reports (self.reports_routeEvents req options), List.nil_append]
    rfl
  | @answered k stats req ds fs outcome r hk hc hd he =>
    rw [does_dispatcher.mp hd]
    refine .inl ⟨k, stats, req, hk, hc, ?_, fun n hn => ?_⟩
    · simp only [dispatches_append, dispatches_missEvents,
        dispatches_of_reports (reports_compressEvents stats),
        dispatches_of_reports (self.reports_routeEvents req options), dispatches_callEvents,
        self.dispatches_ending he, List.nil_append, List.append_nil]
      rfl
    · cases r with
      | error e => cases hn
      | ok u =>
        cases hn
        exact self.withLineage_cacheHit _ _

/-! ## the policies -/

/-- **Which calls hit, what they return and how often they dispatch.**  In any sequence of calls on
an in-memory cache without bound and TTL, with any policies and any failures, the call `d`:
hits exactly if it is under the default policy and a call before it has stored under its key;
returns, on a hit, what the latest such call has returned; dispatches once if it gets there without
a hit, and otherwise not at all; and leaves the cache as it is if it fails, hits or is under
`NoStore`. -/
theorem policies_kept (hserde : self.serde.RoundTrips)
    {calls : List (Call Unit (Result (DispatchOutcome R)) Clock)}
    {ds ds' : List (Done Unit (Result (DispatchOutcome R)) R Clock Inner)}
    {d : Done Unit (Result (DispatchOutcome R)) R Clock Inner}
    (h : self.runCalls (InMemoryCache InMemoryCache.unbounded) calls InMemoryCache.init =
      ds ++ d :: ds') :
    (d.Hit ↔ d.call.ask.options.cachePolicy = .default ∧
      ∃ k w n, self.key.key d.call.ask.request d.call.ask.options = .ok k ∧ w ∈ ds ∧
        self.Stored k w n) ∧
    (∀ n, d.outcome.value = .ok n → n.provenance.cacheHit = true →
      ∃ k ds₁ w ds₂ nw, self.key.key d.call.ask.request d.call.ask.options = .ok k ∧
        ds = ds₁ ++ w :: ds₂ ∧ self.Stored k w nw ∧ (∀ w' ∈ ds₂, ∀ n', ¬ self.Stored k w' n') ∧
        n.response = nw.response) ∧
    (d.Hit → dispatches d.outcome.events = []) ∧
    (¬ d.Hit → ∀ k stats req, self.key.key d.call.ask.request d.call.ask.options = .ok k →
      self.prepared d.call.ask.request d.call.ask.options = .ok (stats, req) →
        dispatches d.outcome.events = [req]) ∧
    (∀ req, req ∈ dispatches d.outcome.events → dispatches d.outcome.events = [req]) ∧
    ((∃ e, d.outcome.value = .error e) ∨ d.Hit ∨ d.call.ask.options.cachePolicy = .noStore →
      d.outcome.state = d.before) := by
  obtain ⟨hrun, hd⟩ := self.run_of_runCalls h
  have htrans := self.transcript_of_callStep hd
  have hsource := fun n hv hit => self.hit_source hserde hrun hd (n := n) hv hit
  refine ⟨⟨?_, ?_⟩, fun n hv hit => (hsource n hv hit).2, ?_, ?_, ?_, ?_⟩
  · rintro ⟨n, hv, hit⟩
    obtain ⟨hp, k, ds₁, w, ds₂, nw, hk, rfl, hw, -⟩ := hsource n hv hit
    exact ⟨hp, k, w, nw, hk, List.mem_append_right _ List.mem_cons_self, hw⟩
  · rintro ⟨hp, k, w, n, hk, hw, hst⟩
    obtain ⟨entry, hentry⟩ := self.contents_of_stored hrun hw hst
    exact self.hit_of_contents hserde hrun hd hk hp hentry
  · rintro ⟨n, hv, hit⟩
    rcases self.dispatches_of_transcript htrans with ⟨_, _, _, -, -, -, hmiss⟩ | ⟨hnone, -⟩
    · rw [hmiss n hv] at hit
      cases hit
    · exact hnone
  · intro hmiss k stats req hk hc
    rcases self.dispatches_of_transcript htrans with ⟨k', stats', req', hk', hc', hone, -⟩ | ⟨-, hread⟩
    · rw [hc] at hc'
      cases hc'
      exact hone
    · obtain ⟨r, rest, hes, hr⟩ := hread k stats req hk hc
      exact absurd (self.hit_of_read hserde hrun hd hes hr) hmiss
  · intro req hm
    rcases self.dispatches_of_transcript htrans with ⟨_, _, req', -, -, hone, -⟩ | ⟨hnone, -⟩
    · rw [hone] at hm ⊢
      rw [List.mem_singleton.mp hm]
    · rw [hnone] at hm
      cases hm
  · intro hcases
    rcases (self.effect_of_undying hd (self.latest_iff_of_run hrun).1).2 with
      ⟨ht, -⟩ | ⟨k, e, n, ⟨-, hp, hv, hit⟩, -⟩
    · exact ht
    · rcases hcases with ⟨e', he'⟩ | ⟨n', hv', hit'⟩ | hns
      · rw [hv] at he'
        cases he'
      · rw [hv] at hv'
        cases hv'
        rw [hit] at hit'
        cases hit'
      · exact absurd hns hp

/-- two calls of one key: the second hits, returns what the first has returned, dispatches nothing
and leaves the cache as it is -/
theorem second_call_policies_kept :
    ∃ w d n, (textModel (Dispatcher.mk : Dispatcher String) preambleKey AcceptAllValidator).runCalls
        (InMemoryCache InMemoryCache.unbounded)
        [⟨⟨promptRequest "hi", {}⟩, ⟨0, 0⟩, replies "one"⟩,
          ⟨⟨promptRequest "ho", {}⟩, ⟨5, 5⟩, replies "two"⟩] InMemoryCache.init = [w, d] ∧
      d.outcome.value = .ok n ∧ n.provenance.cacheHit = true ∧
      n.response = textResponse "one" .zero ∧ dispatches d.outcome.events = [] ∧
      d.outcome.state = d.before := by
  let self := textModel (Dispatcher.mk : Dispatcher String) preambleKey AcceptAllValidator
  let first : Call Unit (Result (DispatchOutcome String)) Clock :=
    ⟨⟨promptRequest "hi", {}⟩, ⟨0, 0⟩, replies "one"⟩
  let second : Call Unit (Result (DispatchOutcome String)) Clock :=
    ⟨⟨promptRequest "ho", {}⟩, ⟨5, 5⟩, replies "two"⟩
  let w := self.perform (InMemoryCache InMemoryCache.unbounded) first InMemoryCache.init
  let d := self.perform (InMemoryCache InMemoryCache.unbounded) second w.outcome.state
  obtain ⟨hhit, hsource, hnone, -, -, hstate⟩ := self.policies_kept textResponseSerde_roundTrips
    (show self.runCalls _ [first, second] InMemoryCache.init = [w] ++ d :: [] from rfl)
  have hd : d.Hit := hhit.mpr ⟨rfl, "", w, _, rfl, List.mem_singleton.mpr rfl, rfl, by decide, rfl, rfl⟩
  have ⟨n, hv, hit⟩ := hd
  refine ⟨w, d, n, rfl, hv, hit, ?_, hnone hd, hstate (.inr (.inl hd))⟩
  obtain ⟨k, ds₁, w', ds₂, nw, -, hds, ⟨-, -, hvw, -⟩, -, hn⟩ := hsource n hv hit
  have hw : w' = w := by
    have hm : w' ∈ [w] := by
      rw [hds]
      exact List.mem_append_right _ List.mem_cons_self
    exact List.mem_singleton.mp hm
  rw [hw] at hvw
  rw [hn]
  cases hvw
  rfl

end OptimizedModel

end Tokudo
