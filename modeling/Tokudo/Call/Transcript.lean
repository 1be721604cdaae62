import Tokudo.Core.Model

/-!
# What one call can do

`Transcript self request options es a` lists, once and for all, what a call of `complete` can ask
of the world (`es`, in order, with the answers) and how it then ends (`a`):

* `keyError`, `readError`, `undecodable`   it ends before anything was sent;
* `hit`                                    it is served from the cache;
* `compressError`, `dispatchError`         it ends without an answer;
* `answered`                               the dispatcher answered, and one of the four endings of
                                           `Ending` follows: the validator fails, nothing may be
                                           written, nothing can be written, or the entry is written.

`transcript_of_does`: **every run of `complete` has a transcript.**  Everything that is proved
about calls is read off it; nothing else unfolds `complete`.  `served_or_answered` is what it says
of a call that returns `Ok`.
-/

namespace Tokudo
open Effect

variable {L A R M : Type}

/-! ## events -/

abbrev evGet (k : String) (r : Result (Option CachedEntry)) : Event (Eff L A) := ⟨.cacheGet k, r⟩
abbrev evPut (k : String) (e : CachedEntry) (r : Result Unit) : Event (Eff L A) := ⟨.cachePut k e, r⟩
abbrev evStart (leg : L) (request : CompletionRequest) : Event (Eff L A) :=
  ⟨.callStart leg request, ()⟩
abbrev evEnd (leg : L) (request : CompletionRequest) (a : A) : Event (Eff L A) :=
  ⟨.callEnd leg request, a⟩
abbrev evEmit (event : TokudoEvent) : Event (Eff L A) := ⟨.emit event, ()⟩

/-- a report: an event that is emitted, but for the cost events -/
def Op.reports : Op L → Bool
  | .emit (.costEstimate ..) => false
  | .emit _ => true
  | _ => false

/-! ## runs of the operations -/

theorem does_cacheGet {k : String} {es : List (Event (Eff L A))} {b : Result (Option CachedEntry)} :
    Does (cacheGet k : Async L A _) es b ↔ es = [evGet k b] := by
  constructor
  · rintro ⟨r, es', rfl, rfl, rfl⟩
    rfl
  · rintro rfl
    exact ⟨b, [], rfl, rfl, rfl⟩

theorem does_cachePut {k : String} {e : CachedEntry} {es : List (Event (Eff L A))}
    {b : Result Unit} : Does (cachePut k e : Async L A Unit) es b ↔ es = [evPut k e b] := by
  constructor
  · rintro ⟨r, es', rfl, rfl, rfl⟩
    rfl
  · rintro rfl
    exact ⟨b, [], rfl, rfl, rfl⟩

theorem does_emit_bind {α : Type} {event : TokudoEvent} {f : Unit → Async L A α}
    {es : List (Event (Eff L A))} {b : Result α} :
    Does (emit event >>= f) es b ↔ ∃ fs, es = evEmit event :: fs ∧ Does (f ()) fs b := by
  constructor
  · rintro ⟨⟨⟩, fs, rfl, h⟩
    exact ⟨fs, rfl, h⟩
  · rintro ⟨fs, rfl, h⟩
    exact ⟨(), fs, rfl, h⟩

/-- asking a leg cannot fail; its answer may be an error -/
theorem does_call_bind {α : Type} {leg : L} {request : CompletionRequest} {f : A → Async L A α}
    {es : List (Event (Eff L A))} {b : Result α} :
    Does (call leg request >>= f) es b ↔
      ∃ a fs, es = evStart leg request :: evEnd leg request a :: fs ∧ Does (f a) fs b := by
  constructor
  · rintro ⟨⟨⟩, _, rfl, a, fs, rfl, h⟩
    exact ⟨a, fs, rfl, h⟩
  · rintro ⟨a, fs, rfl, h⟩
    exact ⟨(), _, rfl, a, fs, rfl, h⟩

/-- **The opaque dispatcher**: it is asked, and answers. -/
theorem does_dispatcher {d : Dispatcher R} {request : CompletionRequest}
    {es : List (Event (Eff Unit (Result (DispatchOutcome R))))} {b : Result (DispatchOutcome R)} :
    Does (DispatchModel.dispatch d request) es b ↔
      es = [evStart () request, evEnd () request b] := by
  show Does (call () request >>= fun a => liftExcept a) es b ↔ _
  rw [does_call_bind]
  constructor
  · rintro ⟨a, fs, rfl, h⟩
    obtain ⟨rfl, rfl⟩ := (does_liftExcept _ _ _).mp h
    rfl
  · rintro rfl
    exact ⟨b, [], rfl, (does_liftExcept _ _ _).mpr ⟨rfl, rfl⟩⟩

/-! ## the steps of `complete` -/

namespace OptimizedModel
variable (self : OptimizedModel M R)

def missEvents (options : TokudoOptions) (k : String) : List (Event (Eff L A)) :=
  if allowRead options.cachePolicy then [evGet k (.ok none), evEmit (.cacheMiss k)] else []

def lineageEvents (edge : Sha256Hex → LineageEdge) : List (Event (Eff L A)) :=
  match self.lineage with
  | none => []
  | some sha => [evEmit (.lineageEdge (edge sha))]

/-- the provenance with the edge attached, if the feature is on -/
def withLineage (provenance : Provenance) (edge : Sha256Hex → LineageEdge) : Provenance :=
  match self.lineage with
  | none => provenance
  | some sha => { provenance with lineage := some (edge sha) }

/-- what the compressor makes of the request, if it is asked -/
def prepared (request : CompletionRequest) (options : TokudoOptions) :
    Result (Option CompressionStats × CompletionRequest) :=
  if options.bypassCompress then .ok (none, request) else self.compressor.compress request options

def compressEvents : Option CompressionStats → List (Event (Eff L A))
  | none => []
  | some stats => [evEmit (.compressApplied stats.inputTokens stats.outputTokens stats.ratio)]

def hint (request : CompletionRequest) (options : TokudoOptions) : RouterChoice :=
  if options.bypassRouter then .passThrough else self.router.route request options

def routeEvents (request : CompletionRequest) (options : TokudoOptions) :
    List (Event (Eff L A)) :=
  if options.bypassRouter then [] else [evEmit (.routeDecision (self.router.route request options))]

def hitEdge (modelName : Option String) (k : String) (entry : CachedEntry)
    (cached : CachedCompletionResponse R) (sha : Sha256Hex) : LineageEdge :=
  .cacheHit sha k entry.sourceId (cached.messageId.getD k) modelName

def hitEvents (modelName : Option String) (k : String) (entry : CachedEntry)
    (cached : CachedCompletionResponse R) : List (Event (Eff L A)) :=
  [evEmit (.cacheHit k entry.sourceId entry.similarity),
    evEmit (.costEstimate true 0 0 0 0 0 (some 0) (some 0))] ++
    self.lineageEvents (hitEdge modelName k entry cached)

def hitResponse (modelName : Option String) (k : String) (entry : CachedEntry)
    (cached : CachedCompletionResponse R) : NormalizedResponse (CompletionResponse R) :=
  ⟨cached.intoResponse,
    self.withLineage (self.hitProvenance modelName entry cached) (hitEdge modelName k entry cached)⟩

def callEdge (modelName : Option String) (k : String) (choice : RouterChoice)
    (resp : CompletionResponse R) (sha : Sha256Hex) : LineageEdge :=
  .providerCall sha k (resp.messageId.getD k) choice modelName

def costEvent (modelName : Option String) (resp : CompletionResponse R) : TokudoEvent :=
  .costEstimate false resp.usage.inputTokens resp.usage.outputTokens
    resp.usage.cachedInputTokens resp.usage.cacheCreationInputTokens resp.usage.totalTokens
    (estimateActualUsd self.catalog modelName resp.usage)
    (estimateProviderCacheUsdDelta self.catalog modelName resp.usage)

def callEvents (modelName : Option String) (k : String) (choice : RouterChoice)
    (resp : CompletionResponse R) : List (Event (Eff L A)) :=
  self.lineageEvents (callEdge modelName k choice resp) ++ [evEmit (self.costEvent modelName resp)]

def callResponse (modelName : Option String) (k : String) (ratio : Option F32)
    (choice : RouterChoice) (resp : CompletionResponse R) :
    NormalizedResponse (CompletionResponse R) :=
  ⟨resp, self.withLineage (self.callProvenance modelName ratio choice resp)
    (callEdge modelName k choice resp)⟩

theorem reports_lineageEvents (edge : Sha256Hex → LineageEdge) :
    ∀ e ∈ (self.lineageEvents edge : List (Event (Eff L A))), e.op.reports = true := by
  unfold lineageEvents
  cases self.lineage <;> simp [Op.reports]

theorem reports_compressEvents (stats : Option CompressionStats) :
    ∀ e ∈ (compressEvents stats : List (Event (Eff L A))), e.op.reports = true := by
  cases stats <;> simp [compressEvents, Op.reports]

theorem reports_routeEvents (request : CompletionRequest) (options : TokudoOptions) :
    ∀ e ∈ (self.routeEvents request options : List (Event (Eff L A))), e.op.reports = true := by
  unfold routeEvents
  split <;> simp [Op.reports]

theorem does_probe {options : TokudoOptions} {k : String} {es : List (Event (Eff L A))}
    {b : Result (Option CachedEntry)} (h : Does (probe options k : Async L A _) es b) :
    (es = missEvents options k ∧ b = .ok none) ∨
    (allowRead options.cachePolicy = true ∧ es = [evGet k b] ∧ b ≠ .ok none) := by
  unfold probe at h
  unfold missEvents
  cases hr : allowRead options.cachePolicy with
  | false =>
    rw [hr] at h
    exact .inl h
  | true =>
    rw [hr, if_pos rfl, does_bind] at h
    rcases h with ⟨e, he, rfl⟩ | ⟨es₁, es₂, found, rfl, hg, h⟩
    · exact .inr ⟨rfl, does_cacheGet.mp he, by simp⟩
    · rw [does_cacheGet.mp hg]
      cases found with
      | some entry =>
        obtain ⟨rfl, rfl⟩ := h
        exact .inr ⟨rfl, rfl, by simp⟩
      | none =>
        obtain ⟨fs, rfl, rfl, rfl⟩ := does_emit_bind.mp h
        exact .inl ⟨rfl, rfl⟩

theorem does_attachLineage_bind {α : Type} {provenance : Provenance}
    {edge : Sha256Hex → LineageEdge} {f : Provenance → Async L A α}
    {es : List (Event (Eff L A))} {b : Result α} :
    Does (self.attachLineage provenance edge >>= f) es b ↔
      ∃ fs, es = self.lineageEvents edge ++ fs ∧ Does (f (self.withLineage provenance edge)) fs b := by
  unfold attachLineage lineageEvents withLineage
  cases self.lineage with
  | none =>
    constructor
    · intro h
      exact ⟨es, rfl, h⟩
    · rintro ⟨fs, rfl, h⟩
      exact h
  | some sha =>
    rw [bind_assoc, does_emit_bind]
    rfl

theorem does_serveHit {modelName : Option String} {k : String} {entry : CachedEntry}
    {es : List (Event (Eff L A))} {b : Result (NormalizedResponse (CompletionResponse R))}
    (h : Does (self.serveHit modelName k entry : Async L A _) es b) :
    (∃ e, self.decodeEntry entry = .error e ∧ es = [] ∧ b = .error e) ∨
    (∃ cached, self.decodeEntry entry = .ok cached ∧ es = self.hitEvents modelName k entry cached ∧
      b = .ok (self.hitResponse modelName k entry cached)) := by
  rcases (does_liftExcept_bind _ _ _ _).mp h with h | ⟨cached, hd, h⟩
  · exact .inl h
  · obtain ⟨fs, rfl, h₁⟩ := does_emit_bind.mp h
    obtain ⟨fs, rfl, h₂⟩ := does_emit_bind.mp h₁
    obtain ⟨fs, rfl, rfl, rfl⟩ := self.does_attachLineage_bind.mp h₂
    refine .inr ⟨cached, hd, ?_, rfl⟩
    rw [List.append_nil]
    rfl

theorem does_compressStep {request : CompletionRequest} {options : TokudoOptions}
    {es : List (Event (Eff L A))} {b : Result (CompletionRequest × Option F32)}
    (h : Does (self.compressStep request options : Async L A _) es b) :
    (∃ e, self.prepared request options = .error e ∧ es = [] ∧ b = .error e) ∨
    (∃ stats req, self.prepared request options = .ok (stats, req) ∧ es = compressEvents stats ∧
      b = .ok (req, stats.bind CompressionStats.ratio)) := by
  unfold compressStep at h
  unfold prepared
  cases hb : options.bypassCompress with
  | true =>
    rw [hb] at h
    obtain ⟨rfl, rfl⟩ := h
    exact .inr ⟨none, request, rfl, rfl, rfl⟩
  | false =>
    rw [hb] at h
    rcases (does_liftExcept_bind _ _ _ _).mp h with h | ⟨⟨stats, req⟩, hc, h⟩
    · exact .inl h
    · refine .inr ⟨stats, req, hc, ?_⟩
      cases stats with
      | none => exact h
      | some stats =>
        obtain ⟨fs, rfl, rfl, rfl⟩ := does_emit_bind.mp h
        exact ⟨rfl, rfl⟩

theorem does_routeStep {request : CompletionRequest} {options : TokudoOptions}
    {es : List (Event (Eff L A))} {b : Result RouterChoice}
    (h : Does (self.routeStep request options : Async L A _) es b) :
    es = self.routeEvents request options ∧ b = .ok (self.hint request options) := by
  unfold routeStep at h
  unfold routeEvents hint
  cases hb : options.bypassRouter with
  | true =>
    rw [hb] at h
    exact h
  | false =>
    rw [hb] at h
    obtain ⟨fs, rfl, rfl, rfl⟩ := does_emit_bind.mp h
    exact ⟨rfl, rfl⟩

theorem does_recordCall {modelName : Option String} {k : String} {ratio : Option F32}
    {choice : RouterChoice} {resp : CompletionResponse R} {es : List (Event (Eff L A))}
    {b : Result Provenance}
    (h : Does (self.recordCall modelName k ratio choice resp : Async L A _) es b) :
    es = self.callEvents modelName k choice resp ∧
      b = .ok (self.callResponse modelName k ratio choice resp).provenance := by
  obtain ⟨fs, rfl, h₁⟩ := self.does_attachLineage_bind.mp h
  obtain ⟨fs, rfl, rfl, rfl⟩ := does_emit_bind.mp h₁
  exact ⟨rfl, rfl⟩

/-! ## transcripts -/

/-- how an answered call goes on: validate, and then write or not -/
inductive Ending (options : TokudoOptions) (k : String) (resp : CompletionResponse R) :
    List (Event (Eff L A)) → Result Unit → Prop where
  | invalid {e : TokudoError} (hv : self.validateStep resp = .error e) :
      Ending options k resp [] (.error e)
  | unwritten {b : Bool} (hv : self.validateStep resp = .ok b)
      (hw : allowWrite options.cachePolicy = false) : Ending options k resp [] (.ok ())
  | unserialised {b : Bool} {e : TokudoError} (hv : self.validateStep resp = .ok b)
      (hw : allowWrite options.cachePolicy = true) (he : self.entryOf k resp = .error e) :
      Ending options k resp [] (.error e)
  | written {b : Bool} {entry : CachedEntry} (hv : self.validateStep resp = .ok b)
      (hw : allowWrite options.cachePolicy = true) (he : self.entryOf k resp = .ok entry)
      (r : Result Unit) : Ending options k resp [evPut k entry r] r

inductive Transcript [DispatchModel M L A R] (request : CompletionRequest)
    (options : TokudoOptions) :
    List (Event (Eff L A)) → Result (NormalizedResponse (CompletionResponse R)) → Prop where
  | keyError {e : TokudoError} (hk : self.key.key request options = .error e) :
      Transcript request options [] (.error e)
  | readError {k : String} {e : TokudoError} (hk : self.key.key request options = .ok k)
      (hr : allowRead options.cachePolicy = true) :
      Transcript request options [evGet k (.error e)] (.error e)
  | undecodable {k : String} {entry : CachedEntry} {e : TokudoError}
      (hk : self.key.key request options = .ok k) (hr : allowRead options.cachePolicy = true)
      (hd : self.decodeEntry entry = .error e) :
      Transcript request options [evGet k (.ok (some entry))] (.error e)
  | hit {k : String} {entry : CachedEntry} {cached : CachedCompletionResponse R}
      (hk : self.key.key request options = .ok k) (hr : allowRead options.cachePolicy = true)
      (hd : self.decodeEntry entry = .ok cached) :
      Transcript request options
        (evGet k (.ok (some entry)) :: self.hitEvents request.model k entry cached)
        (.ok (self.hitResponse request.model k entry cached))
  | compressError {k : String} {e : TokudoError} (hk : self.key.key request options = .ok k)
      (hc : self.prepared request options = .error e) :
      Transcript request options (missEvents options k) (.error e)
  | dispatchError {k : String} {stats : Option CompressionStats} {req : CompletionRequest}
      {es : List (Event (Eff L A))} {e : TokudoError} (hk : self.key.key request options = .ok k)
      (hc : self.prepared request options = .ok (stats, req))
      (hd : Does (DispatchModel.dispatch self.model req) es (.error e)) :
      Transcript request options
        (missEvents options k ++ compressEvents stats ++ self.routeEvents req options ++ es)
        (.error e)
  | answered {k : String} {stats : Option CompressionStats} {req : CompletionRequest}
      {es fs : List (Event (Eff L A))} {outcome : DispatchOutcome R} {r : Result Unit}
      (hk : self.key.key request options = .ok k)
      (hc : self.prepared request options = .ok (stats, req))
      (hd : Does (DispatchModel.dispatch self.model req) es (.ok outcome))
      (he : self.Ending options k outcome.response fs r) :
      Transcript request options
        (missEvents options k ++ compressEvents stats ++ self.routeEvents req options ++ es ++
          self.callEvents request.model k (outcome.route.getD (self.hint req options))
            outcome.response ++ fs)
        (r.map fun _ => self.callResponse request.model k (stats.bind CompressionStats.ratio)
          (outcome.route.getD (self.hint req options)) outcome.response)

theorem does_ending {options : TokudoOptions} {k : String} {resp : CompletionResponse R}
    {α : Type} {v : α} {es : List (Event (Eff L A))} {b : Result α}
    (h : Does (do
      let _accepted ← liftExcept (self.validateStep resp)
      self.storeStep options k resp
      return v : Async L A α) es b) :
    ∃ r, self.Ending options k resp es r ∧ b = r.map fun _ => v := by
  rcases (does_liftExcept_bind _ _ _ _).mp h with ⟨e, hv, rfl, rfl⟩ | ⟨accepted, hv, h⟩
  · exact ⟨.error e, .invalid hv, rfl⟩
  unfold storeStep at h
  cases hw : allowWrite options.cachePolicy with
  | false =>
    rw [hw] at h
    obtain ⟨rfl, rfl⟩ := h
    exact ⟨.ok (), .unwritten hv hw, rfl⟩
  | true =>
    rw [hw, if_pos rfl, bind_assoc] at h
    rcases (does_liftExcept_bind _ _ _ _).mp h with ⟨e, he, rfl, rfl⟩ | ⟨entry, he, h⟩
    · exact ⟨.error e, .unserialised hv hw he, rfl⟩
    · rcases (does_bind _ _ _ _).mp h with ⟨e, hp, rfl⟩ | ⟨es₁, es₂, u, rfl, hp, rfl, rfl⟩
      · rw [does_cachePut.mp hp]
        exact ⟨.error e, .written hv hw he _, rfl⟩
      · rw [does_cachePut.mp hp, List.append_nil]
        exact ⟨.ok u, .written hv hw he _, rfl⟩

variable [DispatchModel M L A R]

theorem does_answer {request : CompletionRequest} {options : TokudoOptions} {k : String}
    (hk : self.key.key request options = .ok k) {es : List (Event (Eff L A))}
    {a : Result (NormalizedResponse (CompletionResponse R))}
    (h : Does (self.answer request.model k request options) es a) :
    self.Transcript request options (missEvents options k ++ es) a := by
  rcases (does_bind _ _ _ _).mp h with ⟨e, hc, rfl⟩ | ⟨_, _, ⟨req, ratio⟩, rfl, hc, h₁⟩
  · rcases self.does_compressStep hc with ⟨e', hc', rfl, he⟩ | ⟨_, _, _, _, he⟩
    · cases he
      rw [List.append_nil]
      exact .compressError hk hc'
    · cases he
  rcases self.does_compressStep hc with ⟨_, _, _, he⟩ | ⟨stats, req', hc', rfl, he⟩
  · cases he
  cases he
  rcases (does_bind _ _ _ _).mp h₁ with ⟨e, hr, -⟩ | ⟨_, _, choice, rfl, hr, h₂⟩
  · cases (self.does_routeStep hr).2
  obtain ⟨rfl, hr'⟩ := self.does_routeStep hr
  cases hr'
  rcases (does_bind _ _ _ _).mp h₂ with ⟨e, hd, rfl⟩ | ⟨ds, _, outcome, rfl, hd, h₃⟩
  · rw [← List.append_assoc, ← List.append_assoc]
    exact .dispatchError hk hc' hd
  rcases (does_bind _ _ _ _).mp h₃ with ⟨e, hrec, -⟩ | ⟨_, fs, provenance, rfl, hrec, h₄⟩
  · cases (self.does_recordCall hrec).2
  obtain ⟨rfl, hrec'⟩ := self.does_recordCall hrec
  cases hrec'
  obtain ⟨r, hend, rfl⟩ := self.does_ending h₄
  simp only [← List.append_assoc]
  exact .answered hk hc' hd hend

/-- **Every run of `complete` has a transcript.** -/
theorem transcript_of_does {request : CompletionRequest} {options : TokudoOptions}
    {es : List (Event (Eff L A))} {a : Result (NormalizedResponse (CompletionResponse R))}
    (h : Does (self.complete request options) es a) : self.Transcript request options es a := by
  rcases (does_liftExcept_bind _ _ _ _).mp h with ⟨e, hk, rfl, rfl⟩ | ⟨k, hk, h⟩
  · exact .keyError hk
  rcases (does_bind _ _ _ _).mp h with ⟨e, hp, rfl⟩ | ⟨es₁, es₂, found, rfl, hp, h₁⟩
  · rcases does_probe hp with ⟨-, he⟩ | ⟨hr, rfl, -⟩
    · cases he
    · exact .readError hk hr
  rcases does_probe hp with ⟨rfl, he⟩ | ⟨hr, rfl, hne⟩
  · cases he
    exact self.does_answer hk h₁
  cases found with
  | none => exact absurd rfl hne
  | some entry =>
    rcases self.does_serveHit h₁ with ⟨e, hd, rfl, rfl⟩ | ⟨cached, hd, rfl, rfl⟩
    · exact .undecodable hk hr hd
    · exact .hit hk hr hd

/-- **A call that returns `Ok`** was served the entry that it read, or its dispatcher answered and
it ended well. -/
theorem served_or_answered {request : CompletionRequest} {options : TokudoOptions}
    {es : List (Event (Eff L A))} {n : NormalizedResponse (CompletionResponse R)}
    (h : self.Transcript request options es (.ok n)) :
    (∃ k entry cached, self.key.key request options = .ok k ∧
      allowRead options.cachePolicy = true ∧ self.decodeEntry entry = .ok cached ∧
      es = evGet k (.ok (some entry)) :: self.hitEvents request.model k entry cached ∧
      n = self.hitResponse request.model k entry cached) ∨
    (∃ k stats req ds fs outcome, self.key.key request options = .ok k ∧
      self.prepared request options = .ok (stats, req) ∧
      Does (DispatchModel.dispatch self.model req) ds (.ok outcome) ∧
      self.Ending options k outcome.response fs (.ok ()) ∧
      es = missEvents options k ++ compressEvents stats ++ self.routeEvents req options ++ ds ++
        self.callEvents request.model k (outcome.route.getD (self.hint req options))
          outcome.response ++ fs ∧
      n = self.callResponse request.model k (stats.bind CompressionStats.ratio)
        (outcome.route.getD (self.hint req options)) outcome.response) := by
  generalize ha : Except.ok n = a at h
  cases h with
  | @hit k entry cached hk hr hd =>
    cases ha
    exact .inl ⟨k, entry, cached, hk, hr, hd, rfl, rfl⟩
  | @answered k stats req ds fs outcome r hk hc hd he =>
    cases r with
    | error e => cases ha
    | ok u =>
      cases ha
      exact .inr ⟨k, stats, req, ds, fs, outcome, hk, hc, hd, he, rfl, rfl⟩
  | keyError hk => cases ha
  | readError hk hr => cases ha
  | undecodable hk hr hd => cases ha
  | compressError hk hc => cases ha
  | dispatchError hk hc hd => cases ha

end OptimizedModel

end Tokudo
