import Tokudo.Call.Transcript
import Tokudo.Effect.Pool

/-!
# The world of a call: a cache and a provider

* `handler cache provider`   answers what a call asks, from a cache and a provider;
* `serve backend`            the same for a shared cache: every operation is answered at some clock
                             reading (`ω`) and by some provider;
* `start self asks s`        any number of calls of `complete` on one `OptimizedModel`.

A dispatcher is `LawfulDispatch` if it leaves the cache alone; the three of `dispatch.rs` and
`route/cascade.rs` are.  Then the transcript of a call tells what a read (`get_of_transcript`), a
write (`put_of_transcript`) and a hit (`hit_of_transcript`) are.
-/

namespace Tokudo
open Effect

variable {L A R M σ ω ι : Type}

/-! ## answers -/

def handler (cache : Cache σ) (provider : L → CompletionRequest → A) : Handler (Eff L A) σ
  | .cacheGet key, s => cache.get key s
  | .cachePut key entry, s => cache.put key entry s
  | .callStart _ _, s => ((), s)
  | .callEnd leg request, s => (provider leg request, s)
  | .emit _, s => ((), s)

/-- a shared cache: at any clock reading, with any provider -/
def serve (backend : ω → Cache σ) : Object (Eff L A) σ := fun s e t =>
  ∃ env provider, (handler (backend env) provider).object s e t

theorem serve_of_handler {backend : ω → Cache σ} {env : ω} {provider : L → CompletionRequest → A}
    {s t : σ} {es : List (Event (Eff L A))}
    (h : History (handler (backend env) provider).object s es t) :
    History (serve backend) s es t := by
  induction h with
  | nil s => exact .nil s
  | cons he _ ih => exact .cons ⟨env, provider, he⟩ ih

/-! ## what touches the cache -/

def Op.touched : Op L → Option String
  | .cacheGet k => some k
  | .cachePut k _ => some k
  | _ => none

/-- no event of the list reads or writes the cache -/
def OffCache (es : List (Event (Eff L A))) : Prop := ∀ e ∈ es, e.op.touched = none

theorem OffCache.append {es fs : List (Event (Eff L A))} (h : OffCache es) (h' : OffCache fs) :
    OffCache (es ++ fs) := by
  intro e he
  rcases List.mem_append.mp he with he | he
  · exact h e he
  · exact h' e he

theorem OffCache.get_notMem {es : List (Event (Eff L A))} (h : OffCache es) {k : String}
    {r : Result (Option CachedEntry)} : evGet k r ∉ es := fun hm => by cases h _ hm

theorem OffCache.put_notMem {es : List (Event (Eff L A))} (h : OffCache es) {k : String}
    {e : CachedEntry} {r : Result Unit} : evPut k e r ∉ es := fun hm => by cases h _ hm

theorem offCache_nil : OffCache ([] : List (Event (Eff L A))) := fun _ he => absurd he List.not_mem_nil

theorem offCache_emit (event : TokudoEvent) : OffCache [(evEmit event : Event (Eff L A))] := by
  intro e he
  rw [List.mem_singleton.mp he]
  rfl

theorem offCache_of_reports {es : List (Event (Eff L A))} (h : ∀ e ∈ es, e.op.reports = true) :
    OffCache es := by
  intro e he
  have hr := h e he
  obtain ⟨o, r⟩ := e
  cases o with
  | emit event => rfl
  | cacheGet k => cases hr
  | cachePut k e => cases hr
  | callStart leg request => cases hr
  | callEnd leg request => cases hr

/-- a dispatcher asks its legs and emits, and leaves the cache alone -/
class LawfulDispatch (M : Type) {L A R : outParam Type} [DispatchModel M L A R] : Prop where
  offCache : ∀ {m : M} {request : CompletionRequest} {es : List (Event (Eff L A))}
    {b : Result (DispatchOutcome R)}, Does (DispatchModel.dispatch m request) es b → OffCache es

theorem offCache_call {leg : L} {request : CompletionRequest} {a : A} :
    OffCache [evStart leg request, evEnd leg request a] := by
  intro e he
  rcases List.mem_cons.mp he with rfl | he
  · rfl
  · rw [List.mem_singleton.mp he]
    rfl

instance : LawfulDispatch (Dispatcher R) where
  offCache h := by
    rw [does_dispatcher.mp h]
    exact offCache_call

namespace OptimizedModel
variable (self : OptimizedModel M R)

theorem offCache_hitEvents (modelName : Option String) (k : String) (entry : CachedEntry)
    (cached : CachedCompletionResponse R) :
    OffCache (self.hitEvents modelName k entry cached : List (Event (Eff L A))) :=
  ((offCache_emit _).append (offCache_emit _)).append
    (offCache_of_reports (self.reports_lineageEvents _))

theorem offCache_callEvents (modelName : Option String) (k : String) (choice : RouterChoice)
    (resp : CompletionResponse R) :
    OffCache (self.callEvents modelName k choice resp : List (Event (Eff L A))) :=
  (offCache_of_reports (self.reports_lineageEvents _)).append (offCache_emit _)

theorem withLineage_cacheHit (provenance : Provenance) (edge : Sha256Hex → LineageEdge) :
    (self.withLineage provenance edge).cacheHit = provenance.cacheHit := by
  unfold withLineage
  cases self.lineage <;> rfl

/-! ## the anatomy of a transcript -/

/-- the reads of a call: none, or one under its own key, if the policy allows it -/
def Reads (request : CompletionRequest) (options : TokudoOptions) (es : List (Event (Eff L A))) :
    Prop :=
  es = [] ∨ ∃ k r, es = [evGet k r] ∧ self.key.key request options = .ok k ∧
    allowRead options.cachePolicy = true

theorem put_notMem_of_reads {request : CompletionRequest} {options : TokudoOptions}
    {reads off : List (Event (Eff L A))} (hreads : self.Reads request options reads)
    (hoff : OffCache off) {k : String} {e : CachedEntry} {r : Result Unit} :
    evPut k e r ∉ reads ++ off := by
  intro hm
  rcases List.mem_append.mp hm with hm | hm
  · rcases hreads with rfl | ⟨k', r', rfl, -⟩
    · cases hm
    · cases List.mem_singleton.mp hm
  · exact hoff.put_notMem hm

variable [DispatchModel M L A R]

/-- the call writes `e` under `k`; `before` is what happened in it before -/
structure Writes (request : CompletionRequest) (options : TokudoOptions) (k : String)
    (e : CachedEntry) (before : List (Event (Eff L A))) (resp : CompletionResponse R) : Prop where
  key : self.key.key request options = .ok k
  /-- the dispatcher has answered -/
  answered : ∃ stats req ds outcome, self.prepared request options = .ok (stats, req) ∧
    Does (DispatchModel.dispatch self.model req) ds (.ok outcome) ∧ ds <:+: before ∧
    outcome.response = resp
  /-- the validator has not failed -/
  validated : ∃ accepted, self.validateStep resp = .ok accepted
  allowed : allowWrite options.cachePolicy = true
  entry : self.entryOf k resp = .ok e

omit [DispatchModel M L A R] in
theorem miss_anatomy {request : CompletionRequest} {options : TokudoOptions} {k : String}
    (hk : self.key.key request options = .ok k) :
    ∃ reads off, (missEvents options k : List (Event (Eff L A))) = reads ++ off ∧
      self.Reads request options reads ∧ OffCache off := by
  unfold missEvents
  cases hr : allowRead options.cachePolicy with
  | false => exact ⟨[], [], rfl, .inl rfl, offCache_nil⟩
  | true => exact ⟨[_], [_], rfl, .inr ⟨k, _, rfl, hk, hr⟩, offCache_emit _⟩

/-- **A call reads at most once, first; and writes at most once, last.** -/
theorem anatomy [LawfulDispatch M] {request : CompletionRequest} {options : TokudoOptions}
    {es : List (Event (Eff L A))} {a : Result (NormalizedResponse (CompletionResponse R))}
    (h : self.Transcript request options es a) :
    ∃ reads off writes, es = reads ++ (off ++ writes) ∧ self.Reads request options reads ∧
      OffCache off ∧ (writes = [] ∨ ∃ k e r resp n, writes = [evPut k e r] ∧
        self.Writes request options k e (reads ++ off) resp ∧ a = r.map (fun _ => n) ∧
        n.response = resp ∧ n.provenance.cacheHit = false) := by
  cases h with
  | keyError hk => exact ⟨[], [], [], rfl, .inl rfl, offCache_nil, .inl rfl⟩
  | readError hk hr => exact ⟨[_], [], [], rfl, .inr ⟨_, _, rfl, hk, hr⟩, offCache_nil, .inl rfl⟩
  | undecodable hk hr hd =>
    exact ⟨[_], [], [], rfl, .inr ⟨_, _, rfl, hk, hr⟩, offCache_nil, .inl rfl⟩
  | @hit k entry cached hk hr hd =>
    exact ⟨[evGet k (.ok (some entry))], self.hitEvents request.model k entry cached, [],
      by rw [List.append_nil]; rfl, .inr ⟨k, _, rfl, hk, hr⟩,
      self.offCache_hitEvents _ _ _ _, .inl rfl⟩
  | compressError hk hc =>
    obtain ⟨reads, off, hm, hreads, hoff⟩ := self.miss_anatomy hk
    exact ⟨reads, off, [], by rw [hm, List.append_nil], hreads, hoff, .inl rfl⟩
  | @dispatchError k stats req ds e hk hc hd =>
    obtain ⟨reads, off, hm, hreads, hoff⟩ := self.miss_anatomy hk
    refine ⟨reads, off ++ compressEvents stats ++ self.routeEvents req options ++ ds, [], ?_, hreads,
      ((hoff.append (offCache_of_reports (reports_compressEvents stats))).append
        (offCache_of_reports (self.reports_routeEvents req options))).append
          (LawfulDispatch.offCache hd), .inl rfl⟩
    simp only [hm, List.append_assoc, List.append_nil]
  | @answered k stats req ds fs outcome r hk hc hd he =>
    obtain ⟨reads, off, hm, hreads, hoff⟩ := self.miss_anatomy hk
    have hpre := (((hoff.append (offCache_of_reports (reports_compressEvents stats))).append
      (offCache_of_reports (self.reports_routeEvents req options))).append
        (LawfulDispatch.offCache hd)).append (self.offCache_callEvents request.model k (outcome.route.getD (self.hint req options))
          outcome.response)
    refine ⟨reads, _, fs, ?_, hreads, hpre, ?_⟩
    · simp only [hm, List.append_assoc]
    · cases he with
      | invalid hv => exact .inl rfl
      | unwritten hv hw => exact .inl rfl
      | unserialised hv hw he => exact .inl rfl
      | written hv hw he r =>
        refine .inr ⟨k, _, r, outcome.response, _, rfl, ⟨hk, ⟨stats, req, ds, outcome, hc, hd, ?_, rfl⟩,
          ⟨_, hv⟩, hw, he⟩, rfl, rfl, self.withLineage_cacheHit _ _⟩
        exact ⟨reads ++ (off ++ compressEvents stats ++ self.routeEvents req options),
          self.callEvents request.model k (outcome.route.getD (self.hint req options))
            outcome.response, by simp only [List.append_assoc]⟩

/-- **A read is under the call's own key and the default policy.** -/
theorem get_of_transcript [LawfulDispatch M] {request : CompletionRequest} {options : TokudoOptions}
    {es : List (Event (Eff L A))} {a : Result (NormalizedResponse (CompletionResponse R))}
    (h : self.Transcript request options es a) {k : String} {r : Result (Option CachedEntry)}
    (hm : evGet k r ∈ es) :
    self.key.key request options = .ok k ∧ allowRead options.cachePolicy = true := by
  obtain ⟨reads, off, writes, rfl, hreads, hoff, hwrites⟩ := self.anatomy h
  rcases List.mem_append.mp hm with hm | hm
  · rcases hreads with rfl | ⟨k', r', rfl, hk, hr⟩
    · cases hm
    · cases List.mem_singleton.mp hm
      exact ⟨hk, hr⟩
  · rcases List.mem_append.mp hm with hm | hm
    · exact absurd hm hoff.get_notMem
    · rcases hwrites with rfl | ⟨k', e, r', resp, n, rfl, -⟩
      · cases hm
      · cases List.mem_singleton.mp hm

/-- **A call touches its own key only.** -/
theorem touched_of_transcript [LawfulDispatch M] {request : CompletionRequest}
    {options : TokudoOptions} {es : List (Event (Eff L A))}
    {a : Result (NormalizedResponse (CompletionResponse R))}
    (h : self.Transcript request options es a) {e : Event (Eff L A)} (hm : e ∈ es) {k : String}
    (he : e.op.touched = some k) : self.key.key request options = .ok k := by
  obtain ⟨reads, off, writes, rfl, hreads, hoff, hwrites⟩ := self.anatomy h
  rcases List.mem_append.mp hm with hm | hm
  · rcases hreads with rfl | ⟨k', r, rfl, hk, -⟩
    · cases hm
    · rw [List.mem_singleton.mp hm] at he
      cases he
      exact hk
  · rcases List.mem_append.mp hm with hm | hm
    · rw [hoff e hm] at he
      cases he
    · rcases hwrites with rfl | ⟨k', e', r, resp, n, rfl, hw, -⟩
      · cases hm
      · rw [List.mem_singleton.mp hm] at he
        cases he
        obtain ⟨hk, -⟩ := hw
        exact hk

/-- **A write is the last thing a call does**, after its dispatcher has answered. -/
theorem put_of_transcript [LawfulDispatch M] {request : CompletionRequest} {options : TokudoOptions}
    {es : List (Event (Eff L A))} {a : Result (NormalizedResponse (CompletionResponse R))}
    (h : self.Transcript request options es a) {k : String} {e : CachedEntry} {r : Result Unit}
    {xs ys : List (Event (Eff L A))} (hes : es = xs ++ evPut k e r :: ys) :
    ys = [] ∧ ∃ resp n, self.Writes request options k e xs resp ∧ a = r.map (fun _ => n) ∧
      n.response = resp ∧ n.provenance.cacheHit = false := by
  obtain ⟨reads, off, writes, rfl, hreads, hoff, hwrites⟩ := self.anatomy h
  have hput : evPut k e r ∉ reads ++ off := self.put_notMem_of_reads hreads hoff
  rw [← List.append_assoc] at hes
  obtain ⟨zs, rfl, hz⟩ := append_split hput hes
  rcases hwrites with rfl | ⟨k', e', r', resp, n, rfl, hw⟩
  · simp at hz
  · cases zs with
    | cons z zs => simp at hz
    | nil =>
      obtain ⟨he, rfl⟩ := List.cons.inj hz
      cases he
      rw [List.append_nil]
      exact ⟨rfl, resp, n, hw⟩

/-- **A hit is served from the entry that the call read.** -/
theorem hit_of_transcript {request : CompletionRequest} {options : TokudoOptions}
    {es : List (Event (Eff L A))} {n : NormalizedResponse (CompletionResponse R)}
    (h : self.Transcript request options es (.ok n)) (hit : n.provenance.cacheHit = true) :
    ∃ k entry cached, self.key.key request options = .ok k ∧
      allowRead options.cachePolicy = true ∧ self.decodeEntry entry = .ok cached ∧
      es = evGet k (.ok (some entry)) :: self.hitEvents request.model k entry cached ∧
      n = self.hitResponse request.model k entry cached := by
  rcases self.served_or_answered h with
    hserved | ⟨k, stats, req, ds, fs, outcome, -, -, -, -, -, hn⟩
  · exact hserved
  · rw [hn, callResponse, withLineage_cacheHit] at hit
    cases hit

/-- what a call finds is the first thing it does -/
theorem head_of_found [LawfulDispatch M] {request : CompletionRequest} {options : TokudoOptions}
    {es : List (Event (Eff L A))} {a : Result (NormalizedResponse (CompletionResponse R))}
    (h : self.Transcript request options es a) {k : String} {r : Result (Option CachedEntry)}
    (hm : evGet k r ∈ es) : ∃ rest, es = evGet k r :: rest := by
  obtain ⟨reads, off, writes, rfl, hreads, hoff, hwrites⟩ := self.anatomy h
  rcases List.mem_append.mp hm with hm | hm
  · rcases hreads with rfl | ⟨k', r', rfl, -, -⟩
    · cases hm
    · rw [List.mem_singleton.mp hm]
      exact ⟨_, rfl⟩
  · rcases List.mem_append.mp hm with hm | hm
    · exact absurd hm hoff.get_notMem
    · rcases hwrites with rfl | ⟨k', e, r', resp, n, rfl, -⟩
      · cases hm
      · cases List.mem_singleton.mp hm

/-- **A call that finds an entry and returns `Ok` hits**, with this entry. -/
theorem hit_of_found [LawfulDispatch M] {request : CompletionRequest} {options : TokudoOptions}
    {es : List (Event (Eff L A))} {n : NormalizedResponse (CompletionResponse R)}
    (h : self.Transcript request options es (.ok n)) {k : String} {entry : CachedEntry}
    (hm : evGet k (.ok (some entry)) ∈ es) :
    ∃ cached, self.decodeEntry entry = .ok cached ∧
      n = self.hitResponse request.model k entry cached := by
  obtain ⟨-, hread⟩ := self.get_of_transcript h hm
  obtain ⟨rest, hhead⟩ := self.head_of_found h hm
  rcases self.served_or_answered h with
    ⟨k', entry', cached, -, -, hd, hes, hn⟩ | ⟨k', stats, req, ds, fs, outcome, -, -, -, -, hes, -⟩
  · obtain ⟨hev, -⟩ := List.cons.inj (hes.symm.trans hhead)
    cases hev
    exact ⟨cached, hd, hn⟩
  · rw [hes, missEvents, if_pos hread] at hhead
    cases (List.cons.inj hhead).1

theorem read_of_transcript {request : CompletionRequest} {options : TokudoOptions}
    {es : List (Event (Eff L A))} {a : Result (NormalizedResponse (CompletionResponse R))}
    (h : self.Transcript request options es a) {k : String}
    (hk : self.key.key request options = .ok k) (hr : allowRead options.cachePolicy = true) :
    ∃ r rest, es = evGet k r :: rest ∧ ∀ entry cached, r = .ok (some entry) →
      self.decodeEntry entry = .ok cached →
        a = .ok (self.hitResponse request.model k entry cached) := by
  have hmiss : (missEvents options k : List (Event (Eff L A))) =
      [evGet k (.ok none), evEmit (.cacheMiss k)] := by
    rw [missEvents, if_pos hr]
  cases h with
  | keyError hk' =>
    rw [hk] at hk'
    cases hk'
  | readError hk' =>
    rw [hk] at hk'
    cases hk'
    exact ⟨_, _, rfl, fun _ _ hr => by cases hr⟩
  | undecodable hk' _ hd =>
    rw [hk] at hk'
    cases hk'
    refine ⟨_, _, rfl, fun _ _ hr hd' => ?_⟩
    cases hr
    rw [hd] at hd'
    cases hd'
  | hit hk' _ hd =>
    rw [hk] at hk'
    cases hk'
    refine ⟨_, _, rfl, fun _ _ hr hd' => ?_⟩
    cases hr
    rw [hd] at hd'
    cases hd'
    rfl
  | compressError hk' =>
    rw [hk] at hk'
    cases hk'
    rw [hmiss]
    exact ⟨_, _, rfl, fun _ _ hr => by cases hr⟩
  | dispatchError hk' =>
    rw [hk] at hk'
    cases hk'
    rw [hmiss]
    exact ⟨_, _, rfl, fun _ _ hr => by cases hr⟩
  | answered hk' =>
    rw [hk] at hk'
    cases hk'
    rw [hmiss]
    exact ⟨_, _, rfl, fun _ _ hr => by cases hr⟩

/-- **A call that returns `Ok` without a hit returns what its dispatcher answered**, and has written
it if its policy allows. -/
theorem answer_of_transcript {request : CompletionRequest} {options : TokudoOptions}
    {es : List (Event (Eff L A))} {n : NormalizedResponse (CompletionResponse R)}
    (h : self.Transcript request options es (.ok n)) (hit : n.provenance.cacheHit = false) :
    ∃ k stats req ds outcome, self.key.key request options = .ok k ∧
      self.prepared request options = .ok (stats, req) ∧
      Does (DispatchModel.dispatch self.model req) ds (.ok outcome) ∧ ds <:+: es ∧
      n = self.callResponse request.model k (stats.bind CompressionStats.ratio)
        (outcome.route.getD (self.hint req options)) outcome.response ∧
      (allowWrite options.cachePolicy = true →
        ∃ entry, self.entryOf k n.response = .ok entry ∧ evPut k entry (.ok ()) ∈ es) := by
  rcases self.served_or_answered h with
    ⟨k, entry, cached, -, -, -, -, hn⟩ | ⟨k, stats, req, ds, fs, outcome, hk, hc, hd, he, hes, hn⟩
  · rw [hn, hitResponse, withLineage_cacheHit] at hit
    cases hit
  · have hin : ds <:+: es := by
      rw [hes]
      exact ⟨_, _, (List.append_assoc _ _ _).symm⟩
    refine ⟨k, stats, req, ds, outcome, hk, hc, hd, hin, hn, fun hw => ?_⟩
    cases he with
    | unwritten hv hw' =>
      rw [hw] at hw'
      cases hw'
    | @written b entry hv hw hentry r =>
      rw [hn, hes]
      exact ⟨entry, hentry, List.mem_append_right _ List.mem_cons_self⟩

end OptimizedModel

end Tokudo
