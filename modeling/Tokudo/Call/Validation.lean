import Tokudo.Call.Concurrent

/-!
# What the validator has to say about the cache

`complete` asks the validator about every answer and keeps its errors, but not its verdict
(`_accepted`): a rejected answer is written like any other.

* `accepted_kept`    **if the validator rejects no answer to a call that may write, everything
                     written carries an accepted response**, and so does every hit;
* `rejected_kept`    otherwise a rejected answer is written, and served.

The cache is any object; for the hits it must return only what was written (`OnlyReturnsWrites`).
-/

namespace Tokudo
open Effect

variable {L A R M σ ι : Type}

/-- a cache that returns only what was written, under any key and with any deadline -/
def OnlyReturnsWrites (O : Object (Eff L A) σ) (s : σ) : Prop :=
  ∀ es k entry t, History O s (es ++ [evGet k (.ok (some entry))]) t →
    ∃ k' e r, evPut k' e r ∈ es ∧ undated entry = undated e

theorem inMemoryCache_onlyReturnsWrites (config : InMemoryCacheConfig) :
    OnlyReturnsWrites (serve (InMemoryCache config) : Object (Eff L A) Inner) InMemoryCache.init := by
  intro es k entry t h
  obtain ⟨es₁, e, r, es₂, rfl, -, he⟩ := current_of_history h
  exact ⟨k, e, r, List.mem_append_right _ List.mem_cons_self, he⟩

namespace OptimizedModel
variable (self : OptimizedModel M R)

/-- the validator accepts the raw response: `V.validate(raw) = Ok(true)` -/
def Accepted (resp : CompletionResponse R) : Prop :=
  ∃ raw, self.serde.rawToValue resp.rawResponse = .ok raw ∧ self.validator.validate raw = .ok true

def CarriesAccepted (k : String) (e : CachedEntry) : Prop :=
  ∃ resp, self.entryOf k resp = .ok e ∧ self.Accepted resp

theorem accepted_of_validateStep {resp : CompletionResponse R} {accepted : Bool}
    (hv : self.validateStep resp = .ok accepted) (hne : self.validateStep resp ≠ .ok false) :
    self.Accepted resp := by
  cases accepted with
  | false => exact absurd hv hne
  | true =>
    unfold validateStep at hv
    cases hr : self.serde.rawToValue resp.rawResponse with
    | error e =>
      rw [hr] at hv
      cases hv
    | ok raw =>
      rw [hr] at hv
      exact ⟨raw, hr, hv⟩

variable [DispatchModel M L A R] [DecidableEq ι]

/-- the validator rejects no answer that the run's dispatcher gives to a call that may write -/
def RejectsNothingWritable (asks : ι → Ask) (log : List (ι × Event (Eff L A))) : Prop :=
  ∀ i stats req ds outcome, self.prepared (asks i).request (asks i).options = .ok (stats, req) →
    Does (DispatchModel.dispatch self.model req) ds (.ok outcome) → ds <:+: eventsOf i log →
    allowWrite (asks i).options.cachePolicy = true → self.validateStep outcome.response ≠ .ok false

variable [Nonempty A] [LawfulDispatch M] {asks : ι → Ask} {O : Object (Eff L A) σ} {s : σ}
  {log : List (ι × Event (Eff L A))}
  {c : Pool (Eff L A) ι (Result (NormalizedResponse (CompletionResponse R))) σ}

theorem carriesAccepted_of_write (h : Exec O (self.start asks s) log c)
    (hV : self.RejectsNothingWritable asks log) {j : ι} {k : String} {e : CachedEntry}
    {r : Result Unit} (hm : (j, evPut k e r) ∈ log) :
    ∃ resp before, self.Writes (asks j).request (asks j).options k e before resp ∧
      self.Accepted resp := by
  obtain ⟨x, y, hlog⟩ := List.append_of_mem hm
  obtain ⟨resp, hw⟩ := self.writes_of_exec h hlog
  refine ⟨resp, eventsOf j x, hw, ?_⟩
  obtain ⟨-, ⟨stats, req, ds, outcome, hc, hd, hin, rfl⟩, ⟨accepted, hv⟩, hallow, -⟩ := hw
  refine self.accepted_of_validateStep hv (hV j stats req ds outcome hc hd (hin.trans ?_) hallow)
  rw [hlog, eventsOf_append]
  exact (List.prefix_append _ _).isInfix

/-- **Nothing rejected is kept, as long as nothing rejected may be written.**  Every entry written
carries an accepted response; and if the cache returns only what was written, every hit returns an
accepted response. -/
theorem accepted_kept (h : Exec O (self.start asks s) log c)
    (hV : self.RejectsNothingWritable asks log) :
    (∀ j k e r, (j, evPut k e r) ∈ log → self.CarriesAccepted k e) ∧
    (OnlyReturnsWrites O s → self.serde.RoundTrips → ∀ i n, c.threads i = .ret (.ok n) →
      n.provenance.cacheHit = true → self.Accepted n.response) := by
  constructor
  · intro j k e r hm
    obtain ⟨resp, _, hw, hacc⟩ := self.carriesAccepted_of_write h hV hm
    obtain ⟨-, -, -, -, he⟩ := hw
    exact ⟨resp, he, hacc⟩
  · intro hO hserde i n hi hit
    obtain ⟨k, entry, cached, before, after, -, -, hd, hlog, -, hn⟩ := self.read_of_hit h hi hit
    have hhist := h.history
    rw [hlog, List.map_append, List.map_cons, ← List.singleton_append, ← List.append_assoc] at hhist
    obtain ⟨t, hread, -⟩ := run_append.mp hhist
    obtain ⟨k', e, r, hput, he⟩ := hO _ _ _ _ hread
    obtain ⟨⟨j, ev⟩, hmem, rfl⟩ := List.mem_map.mp hput
    have hm : (j, evPut k' e r) ∈ log := by
      rw [hlog]
      exact List.mem_append_left _ hmem
    obtain ⟨resp, _, hw, hacc⟩ := self.carriesAccepted_of_write h hV hm
    rw [hn, self.decode_of_writes hserde hw he hd]
    exact hacc

end OptimizedModel

/-! ## one run with each verdict -/

/-- a call that is accepted, and then one that hits -/
theorem accepted_call_kept :
    (textModel (Dispatcher.mk : Dispatcher String) preambleKey AcceptAllValidator).Accepted
      (textResponse "one" .zero) := by
  let self := textModel (Dispatcher.mk : Dispatcher String) preambleKey AcceptAllValidator
  let asks : Bool → Ask := fun _ => ⟨promptRequest "hi", {}⟩
  let c₁ := self.runAlone (InMemoryCache default ⟨0, 0⟩) (replies "one") (asks false) false
    (self.start asks InMemoryCache.init)
  have h₁ : Exec (serve (InMemoryCache default)) _ _ c₁ :=
    self.exec_alone (InMemoryCache default) ⟨0, 0⟩ (replies "one") false rfl
  have h₂ := self.exec_alone (InMemoryCache default) ⟨0, 0⟩ (replies "two") true
    (show c₁.threads true = self.program (asks true) from rfl)
  refine (self.accepted_kept (h₁.trans h₂) ?_).2 (inMemoryCache_onlyReturnsWrites default)
    textResponseSerde_roundTrips true _ rfl rfl
  intro i stats req ds outcome _ _ _ _ hv
  cases hv

/-- **A rejected answer is written and served.**  The validator rejects everything; the first call
writes its answer all the same, and the second is served it. -/
theorem rejected_kept :
    ∃ (log : List (Bool × Event (Eff Unit (Result (DispatchOutcome String)))))
      (c : Pool (Eff Unit (Result (DispatchOutcome String))) Bool
        (Result (NormalizedResponse (CompletionResponse String))) Inner),
      Exec (serve (InMemoryCache default)) ((textModel (Dispatcher.mk : Dispatcher String)
        preambleKey RejectAllValidator).start (fun _ => ⟨promptRequest "hi", {}⟩)
          InMemoryCache.init) log c ∧
      (∃ e, (false, evPut "" e (.ok ())) ∈ log ∧ ¬ (textModel (Dispatcher.mk : Dispatcher String)
        preambleKey RejectAllValidator).CarriesAccepted "" e) ∧
      ∃ n, c.threads true = .ret (.ok n) ∧ n.provenance.cacheHit = true ∧
        (textModel (Dispatcher.mk : Dispatcher String) preambleKey RejectAllValidator).validateStep
          n.response = .ok false := by
  let self := textModel (Dispatcher.mk : Dispatcher String) preambleKey RejectAllValidator
  let asks : Bool → Ask := fun _ => ⟨promptRequest "hi", {}⟩
  let c₁ := self.runAlone (InMemoryCache default ⟨0, 0⟩) (replies "one") (asks false) false
    (self.start asks InMemoryCache.init)
  have h₁ : Exec (serve (InMemoryCache default)) _ _ c₁ :=
    self.exec_alone (InMemoryCache default) ⟨0, 0⟩ (replies "one") false rfl
  have h₂ := self.exec_alone (InMemoryCache default) ⟨0, 0⟩ (replies "two") true
    (show c₁.threads true = self.program (asks true) from rfl)
  have h := h₁.trans h₂
  refine ⟨_, _, h, ?_, _, rfl, rfl, rfl⟩
  obtain ⟨k, _, _, _, _, hk, -, -, -, -, hwrite⟩ :=
    self.answer_of_transcript (self.transcript_of_return h (i := false) rfl) rfl
  obtain ⟨e, -, he⟩ := hwrite rfl
  cases hk
  refine ⟨e, mem_eventsOf.mp he, ?_⟩
  rintro ⟨resp, -, raw, -, hv⟩
  cases hv

end Tokudo
