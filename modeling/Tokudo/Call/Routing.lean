import Tokudo.Call.Accounting
import Tokudo.Route.Predictive

/-!
# Does the router route, and who has answered?

The router is asked before the dispatcher, but the dispatcher is not told what it said.

* `dispatched_of_miss`         a call that finds no entry hands the compressed request to its
                               dispatcher, whatever the router said;
* `strong_advice_followed_iff` **over a cascade the cheap leg is always asked first, so the advice
                               `Strong` is never followed**;
* `lastAnswer_of_transcript`   the answer that a call returns is the last one it got;
* `names_answerer_iff`         **the route in the provenance names who has answered, except when a
                               plain model answers and a router with examples was asked.**
-/

namespace Tokudo
open Effect

variable {L A R M : Type}

/-! ## who is asked -/

/-- the leg is asked -/
def Called (leg : L) (es : List (Event (Eff L A))) : Prop := ∃ request, evStart leg request ∈ es

/-- no read of the call finds an entry, and none fails -/
def NothingFound (es : List (Event (Eff L A))) : Prop := ∀ k r, evGet k r ∈ es → r = .ok none

namespace OptimizedModel
variable (self : OptimizedModel M R) [DispatchModel M L A R]

/-- **A call that finds no entry is dispatched**, if it has a key and the compressor succeeds. -/
theorem dispatched_of_miss {request : CompletionRequest} {options : TokudoOptions}
    {es : List (Event (Eff L A))} {a : Result (NormalizedResponse (CompletionResponse R))}
    (h : self.Transcript request options es a) {k : String}
    (hk : self.key.key request options = .ok k) {stats : Option CompressionStats}
    {req : CompletionRequest} (hc : self.prepared request options = .ok (stats, req))
    (hmiss : NothingFound es) :
    ∃ ds b, Does (DispatchModel.dispatch self.model req) ds b ∧ ds <:+: es := by
  cases h with
  | keyError hk' =>
    rw [hk] at hk'
    cases hk'
  | readError hk' hr => cases hmiss _ _ List.mem_cons_self
  | undecodable hk' hr hd => cases hmiss _ _ List.mem_cons_self
  | hit hk' hr hd => cases hmiss _ _ List.mem_cons_self
  | compressError hk' hc' =>
    rw [hc] at hc'
    cases hc'
  | @dispatchError k' stats' req' ds e hk' hc' hd =>
    rw [hc] at hc'
    cases hc'
    exact ⟨ds, _, hd, (List.suffix_append _ _).isInfix⟩
  | @answered k' stats' req' ds fs outcome r hk' hc' hd he =>
    rw [hc] at hc'
    cases hc'
    exact ⟨ds, _, hd, ⟨_, _, (List.append_assoc _ _ _).symm⟩⟩

end OptimizedModel

/-- every run of the cascade starts with the cheap leg -/
theorem StaticCascade.cheap_first {self : StaticCascade R} {request : CompletionRequest}
    {es : List (Event (Eff Leg (Completion R)))} {b : Result (DispatchOutcome R)}
    (h : self.Legs request es b) : evStart .cheap request ∈ es := by
  cases h with
  | cheapError e => exact List.mem_cons_self
  | undecided hv => exact List.mem_cons_self
  | accepted hv => exact List.mem_cons_self
  | strongError hv e => exact List.mem_cons_self
  | escalated hv strongResp => exact List.mem_cons_self

/-- **When the advice of the router is followed.**  A call over a cascade that is not answered from
the cache asks the cheap leg, so it asks the strong leg alone only if it was not told to. -/
theorem strong_advice_followed_iff (self : OptimizedModel (StaticCascade R) R) (unicode : Unicode)
    (router : PredictiveRouter) (hrouter : self.router = router.toRouter unicode)
    {request : CompletionRequest} {options : TokudoOptions} (hasked : options.bypassRouter = false)
    {es : List (Event (Eff Leg (Completion R)))}
    {a : Result (NormalizedResponse (CompletionResponse R))}
    (h : Does (self.complete request options) es a) {k : String}
    (hk : self.key.key request options = .ok k) {stats : Option CompressionStats}
    {req : CompletionRequest} (hc : self.prepared request options = .ok (stats, req))
    (hmiss : NothingFound es) :
    Called .cheap es ∧ self.hint req options = router.predict unicode req ∧
      ((self.hint req options = .strong → Called .strong es ∧ ¬ Called .cheap es) ↔
        router.predict unicode req ≠ .strong) := by
  have hhint : self.hint req options = router.predict unicode req := by
    rw [OptimizedModel.hint, hasked, hrouter]
    rfl
  have hcheap : Called .cheap es := by
    obtain ⟨ds, b, hd, hin⟩ := self.dispatched_of_miss (self.transcript_of_does h) hk hc hmiss
    exact ⟨req, hin.subset (StaticCascade.cheap_first (StaticCascade.legs_of_dispatch _ hd))⟩
  refine ⟨hcheap, hhint, ?_⟩
  rw [hhint]
  constructor
  · intro hfollowed hstrong
    obtain ⟨-, hnot⟩ := hfollowed hstrong
    exact hnot hcheap
  · intro hne hstrong
    exact absurd hstrong hne

/-! ## who has answered -/

/-- the answer of a leg, if the event is one -/
def answerOf : Event (Eff L A) → Option (L × A)
  | ⟨.callEnd leg _, a⟩ => some (leg, a)
  | _ => none

/-- the answers in a run, in order -/
def answers (es : List (Event (Eff L A))) : List (L × A) := es.filterMap answerOf

def lastAnswer (es : List (Event (Eff L A))) : Option (L × A) := (answers es).getLast?

theorem answers_append (es fs : List (Event (Eff L A))) :
    answers (es ++ fs) = answers es ++ answers fs := List.filterMap_append

/-- the operation is not the answer of a leg -/
def Op.mute : Op L → Bool
  | .callEnd _ _ => false
  | _ => true

theorem answers_of_mute {es : List (Event (Eff L A))} (h : ∀ e ∈ es, e.op.mute = true) :
    answers es = [] := by
  apply List.filterMap_eq_nil_iff.mpr
  intro e he
  have hm := h e he
  obtain ⟨o, r⟩ := e
  cases o with
  | callEnd leg request => cases hm
  | cacheGet k => rfl
  | cachePut k e => rfl
  | callStart leg request => rfl
  | emit event => rfl

theorem mute_of_quiet {o : Op L} (h : o.quiet = true) : o.mute = true := by
  cases o with
  | callEnd leg request => cases h
  | cacheGet k => rfl
  | cachePut k e => rfl
  | callStart leg request => rfl
  | emit event => rfl

theorem mute_of_reports {o : Op L} (h : o.reports = true) : o.mute = true :=
  mute_of_quiet (quiet_of_reports h)

namespace OptimizedModel
variable (self : OptimizedModel M R)

theorem answers_hitEvents (modelName : Option String) (k : String) (entry : CachedEntry)
    (cached : CachedCompletionResponse R) :
    answers (self.hitEvents modelName k entry cached : List (Event (Eff L A))) = [] := by
  have hlineage := answers_of_mute fun e he =>
    mute_of_reports (self.reports_lineageEvents (L := L) (A := A)
      (hitEdge modelName k entry cached) e he)
  rw [hitEvents, answers_append, hlineage]
  rfl

theorem answers_callEvents (modelName : Option String) (k : String) (choice : RouterChoice)
    (resp : CompletionResponse R) :
    answers (self.callEvents modelName k choice resp : List (Event (Eff L A))) = [] := by
  have hlineage := answers_of_mute fun e he =>
    mute_of_reports (self.reports_lineageEvents (L := L) (A := A)
      (callEdge modelName k choice resp) e he)
  rw [callEvents, answers_append, hlineage]
  rfl

theorem withLineage_routerChoice (provenance : Provenance) (edge : Sha256Hex → LineageEdge) :
    (self.withLineage provenance edge).routerChoice = provenance.routerChoice := by
  unfold withLineage
  cases self.lineage <;> rfl

variable [DispatchModel M L A R]

/-- **Who has answered a call**: it was served from the cache and asked no leg; or it found nothing,
and the last answer it got is the dispatcher's. -/
theorem lastAnswer_of_transcript [LawfulDispatch M] {request : CompletionRequest}
    {options : TokudoOptions} {es : List (Event (Eff L A))}
    {n : NormalizedResponse (CompletionResponse R)}
    (h : self.Transcript request options es (.ok n)) :
    (n.provenance.cacheHit = true ∧ n.provenance.routerChoice = .cacheHit ∧ lastAnswer es = none ∧
      ∃ k entry cached, evGet k (.ok (some entry)) ∈ es ∧ self.decodeEntry entry = .ok cached ∧
        n.response = cached.intoResponse) ∨
    (n.provenance.cacheHit = false ∧ (∀ k entry, evGet k (.ok (some entry)) ∉ es) ∧
      ∃ req ds outcome, Does (DispatchModel.dispatch self.model req) ds (.ok outcome) ∧
        n.response = outcome.response ∧ lastAnswer es = lastAnswer ds ∧
        n.provenance.routerChoice = outcome.route.getD (self.hint req options)) := by
  have hfound : n.provenance.cacheHit = false → ∀ k entry, evGet k (.ok (some entry)) ∉ es := by
    intro hmiss k entry hm
    obtain ⟨cached, -, hn⟩ := self.hit_of_found h hm
    rw [hn, hitResponse, withLineage_cacheHit] at hmiss
    cases hmiss
  rcases self.served_or_answered h with
    ⟨k, entry, cached, -, -, hd, rfl, rfl⟩ | ⟨k, stats, req, ds, fs, outcome, -, -, hd, he, rfl, rfl⟩
  · refine .inl ⟨self.withLineage_cacheHit _ _, self.withLineage_routerChoice _ _, ?_,
      k, entry, cached, List.mem_cons_self, hd, rfl⟩
    show ([] ++ answers (self.hitEvents request.model k entry cached : List (Event (Eff L A)))).getLast?
      = none
    rw [answers_hitEvents]
    rfl
  · have hmiss : (self.callResponse request.model k (stats.bind CompressionStats.ratio)
        (outcome.route.getD (self.hint req options)) outcome.response).provenance.cacheHit = false :=
      self.withLineage_cacheHit _ _
    refine .inr ⟨hmiss, hfound hmiss, req, ds, outcome, hd, rfl, ?_,
      self.withLineage_routerChoice _ _⟩
    have hreads := answers_of_mute fun e he => mute_of_quiet (quiet_missEvents (L := L) (A := A)
      options k e he)
    have hcompress := answers_of_mute fun e he => mute_of_reports (reports_compressEvents (L := L)
      (A := A) stats e he)
    have hroute := answers_of_mute fun e he => mute_of_reports (self.reports_routeEvents (L := L)
      (A := A) req options e he)
    have hcall := self.answers_callEvents (L := L) (A := A) request.model k
      (outcome.route.getD (self.hint req options)) outcome.response
    have hending := answers_of_mute fun e hm => mute_of_quiet (self.quiet_ending he e hm)
    simp only [lastAnswer, answers_append, hreads, hcompress, hroute, hcall, hending,
      List.nil_append, List.append_nil]

end OptimizedModel

/-! ## who is named -/

/-- the routers of the crate -/
inductive ShippedRouter where
  | passThrough
  | predictive (unicode : Unicode) (router : PredictiveRouter)

namespace ShippedRouter

def toRouter : ShippedRouter → Router
  | .passThrough => PassThroughRouter
  | .predictive unicode router => router.toRouter unicode

/-- the calibration examples -/
def examples : ShippedRouter → List PredictiveRouteExample
  | .passThrough => []
  | .predictive _ router => router.examples

theorem route_of_nil {router : ShippedRouter} (h : router.examples = [])
    (request : CompletionRequest) (options : TokudoOptions) :
    router.toRouter.route request options = .passThrough := by
  cases router with
  | passThrough => rfl
  | predictive unicode router => exact router.predict_of_nil unicode h request

theorem route_of_examples {router : ShippedRouter} (h : router.examples ≠ [])
    (request : CompletionRequest) (options : TokudoOptions) :
    router.toRouter.route request options = .cheap ∨
      router.toRouter.route request options = .strong := by
  cases router with
  | passThrough => exact absurd rfl h
  | predictive unicode router => exact router.predict_of_examples unicode h request

end ShippedRouter

/-- the route that names a leg of the cascade -/
def Leg.route : Leg → RouterChoice
  | .cheap => .cheap
  | .strong => .strong

/-- a cascade reports the leg that has answered last -/
theorem StaticCascade.lastAnswer_of_legs {self : StaticCascade R} {request : CompletionRequest}
    {es : List (Event (Eff Leg (Completion R)))} {outcome : DispatchOutcome R}
    (h : self.Legs request es (.ok outcome)) :
    ∃ leg, lastAnswer es = some (leg, .ok outcome.response) ∧
      outcome.route = some (Leg.route leg) := by
  cases h with
  | accepted hv => exact ⟨.cheap, rfl, rfl⟩
  | escalated hv strongResp => exact ⟨.strong, rfl, rfl⟩

namespace OptimizedModel

/-- who has answered, in the words of `RouterChoice`: the cache, if the response is that of the
entry the call read; or a leg, if the response is the last answer it got -/
inductive AnsweredBy (self : OptimizedModel M R) (routeOf : L → RouterChoice)
    (es : List (Event (Eff L (Completion R)))) (resp : CompletionResponse R) :
    RouterChoice → Prop where
  | cache {k : String} {entry : CachedEntry} {cached : CachedCompletionResponse R}
      (hread : evGet k (.ok (some entry)) ∈ es) (hd : self.decodeEntry entry = .ok cached)
      (hresp : resp = cached.intoResponse) : AnsweredBy self routeOf es resp .cacheHit
  | leg {leg : L} (h : lastAnswer es = some (leg, .ok resp)) :
      AnsweredBy self routeOf es resp (routeOf leg)

/-- the route in the provenance is a choice exactly if this choice has answered -/
def NamesAnswerer (self : OptimizedModel M R) (routeOf : L → RouterChoice)
    (es : List (Event (Eff L (Completion R)))) (n : NormalizedResponse (CompletionResponse R)) :
    Prop :=
  ∀ choice, n.provenance.routerChoice = choice ↔ self.AnsweredBy routeOf es n.response choice

theorem namesAnswerer_iff {self : OptimizedModel M R} {routeOf : L → RouterChoice}
    {es : List (Event (Eff L (Completion R)))} {n : NormalizedResponse (CompletionResponse R)}
    {actual : RouterChoice}
    (h : ∀ choice, self.AnsweredBy routeOf es n.response choice ↔ choice = actual) :
    self.NamesAnswerer routeOf es n ↔ n.provenance.routerChoice = actual := by
  constructor
  · intro hnames
    exact (hnames actual).mpr ((h actual).mpr rfl)
  · intro hroute choice
    rw [h, hroute]
    exact eq_comm

theorem answeredBy_cache_iff {self : OptimizedModel M R} {routeOf : L → RouterChoice}
    {es : List (Event (Eff L (Completion R)))} {resp : CompletionResponse R} {k : String}
    {entry : CachedEntry} {cached : CachedCompletionResponse R} (hnone : lastAnswer es = none)
    (hread : evGet k (.ok (some entry)) ∈ es) (hd : self.decodeEntry entry = .ok cached)
    (hresp : resp = cached.intoResponse) (choice : RouterChoice) :
    self.AnsweredBy routeOf es resp choice ↔ choice = .cacheHit := by
  constructor
  · intro h
    cases h with
    | cache _ _ _ => rfl
    | leg h =>
      rw [hnone] at h
      cases h
  · intro h
    rw [h]
    exact .cache hread hd hresp

theorem answeredBy_leg_iff {self : OptimizedModel M R} {routeOf : L → RouterChoice}
    {es : List (Event (Eff L (Completion R)))} {resp : CompletionResponse R} {leg : L}
    (hlast : lastAnswer es = some (leg, .ok resp))
    (hnone : ∀ k entry, evGet k (.ok (some entry)) ∉ es) (choice : RouterChoice) :
    self.AnsweredBy routeOf es resp choice ↔ choice = routeOf leg := by
  constructor
  · intro h
    cases h with
    | cache hread _ _ => exact absurd hread (hnone _ _)
    | leg h =>
      rw [hlast] at h
      cases h
      rfl
  · intro h
    rw [h]
    exact .leg hlast

/-- over a cascade the provenance names the leg -/
theorem cascade_namesAnswerer (self : OptimizedModel (StaticCascade R) R)
    {request : CompletionRequest} {options : TokudoOptions}
    {es : List (Event (Eff Leg (Completion R)))} {n : NormalizedResponse (CompletionResponse R)}
    (h : Does (self.complete request options) es (.ok n)) : self.NamesAnswerer Leg.route es n := by
  rcases self.lastAnswer_of_transcript (self.transcript_of_does h) with
    ⟨-, hroute, hlast, k, entry, cached, hread, hd, hresp⟩ |
    ⟨-, hnone, req, ds, outcome, hd, hresp, hlast, hroute⟩
  · exact (namesAnswerer_iff (answeredBy_cache_iff hlast hread hd hresp)).mpr hroute
  · obtain ⟨leg, hleg, hr⟩ := StaticCascade.lastAnswer_of_legs (StaticCascade.legs_of_dispatch _ hd)
    rw [hleg, ← hresp] at hlast
    rw [namesAnswerer_iff (answeredBy_leg_iff hlast hnone), hroute, hr]
    rfl

/-- over a plain model it names the model, unless the router has said something -/
theorem plain_namesAnswerer_iff (self : OptimizedModel (PlainModel R) R) (router : ShippedRouter)
    (hrouter : self.router = router.toRouter) {request : CompletionRequest}
    {options : TokudoOptions} {es : List (Event (Eff Unit (Completion R)))}
    {n : NormalizedResponse (CompletionResponse R)}
    (h : Does (self.complete request options) es (.ok n)) :
    self.NamesAnswerer (fun _ => .passThrough) es n ↔
      (∃ k entry, evGet k (.ok (some entry)) ∈ es) ∨ options.bypassRouter = true ∨
        router.examples = [] := by
  rcases self.lastAnswer_of_transcript (self.transcript_of_does h) with
    ⟨-, hroute, hlast, k, entry, cached, hread, hd, hresp⟩ |
    ⟨-, hnone, req, ds, outcome, hd, hresp, hlast, hroute⟩
  · rw [namesAnswerer_iff (answeredBy_cache_iff hlast hread hd hresp)]
    exact ⟨fun _ => .inl ⟨k, entry, hread⟩, fun _ => hroute⟩
  · rcases does_plainModel.mp hd with ⟨e, -, hb⟩ | ⟨resp, rfl, hb⟩
    · cases hb
    cases hb
    have hlast' : lastAnswer es = some ((), .ok n.response) := by
      rw [hlast, hresp]
      rfl
    rw [namesAnswerer_iff (answeredBy_leg_iff hlast' hnone), hroute]
    show self.hint req options = .passThrough ↔ _
    unfold hint
    rw [hrouter]
    cases hb : options.bypassRouter with
    | true => exact ⟨fun _ => .inr (.inl rfl), fun _ => rfl⟩
    | false =>
      rw [if_neg Bool.false_ne_true]
      constructor
      · intro hpass
        refine .inr (.inr ?_)
        by_contra hne
        rcases ShippedRouter.route_of_examples hne req options with hr | hr <;>
          rw [hr] at hpass <;> cases hpass
      · rintro (⟨k, entry, hread⟩ | hfalse | hnil)
        · exact absurd hread (hnone k entry)
        · cases hfalse
        · exact ShippedRouter.route_of_nil hnil req options

end OptimizedModel

/-- **When the provenance names who has answered.**  For a shipped router, any request, options,
cache and answers: over a cascade the route of a call that returns `Ok` always names the cache or
the leg that has answered.  Over a plain model it does so exactly if the call found an entry, or
the router was not asked, or the router has no examples. -/
theorem names_answerer_iff (router : ShippedRouter) :
    (∀ (self : OptimizedModel (StaticCascade R) R) request options es n,
      self.router = router.toRouter → Does (self.complete request options) es (.ok n) →
        self.NamesAnswerer Leg.route es n) ∧
    (∀ (self : OptimizedModel (PlainModel R) R) request options es n,
      self.router = router.toRouter → Does (self.complete request options) es (.ok n) →
        (self.NamesAnswerer (fun _ => .passThrough) es n ↔
          (∃ k entry, evGet k (.ok (some entry)) ∈ es) ∨ options.bypassRouter = true ∨
            router.examples = [])) := by
  constructor
  · intro self request options es n _ h
    exact self.cascade_namesAnswerer h
  · intro self request options es n hrouter h
    exact self.plain_namesAnswerer_iff router hrouter h

/-! ## a router that knows one hard example -/

/-- `char`'s tables, as far as ASCII goes -/
def asciiUnicode : Unicode where
  isAlphanumeric := Char.isAlphanum
  toLowercase c := [c.toLower]

def cautiousRouter : PredictiveRouter where
  examples := [⟨"solve multi step algebra proof", .strong⟩]

theorem cautiousRouter_predict (request : CompletionRequest) :
    cautiousRouter.predict asciiUnicode request = .strong := by
  have hmem := cautiousRouter.predict_mem asciiUnicode (by decide) request
  simpa [cautiousRouter, PredictiveRouteExample.leg] using hmem

def advised {M : Type} (model : M) : OptimizedModel M String :=
  { textModel model preambleKey AcceptAllValidator with
    router := cautiousRouter.toRouter asciiUnicode }

/-- every leg of this provider answers the same -/
def greets {L : Type} (_ : L) (_ : CompletionRequest) : Completion String :=
  .ok (textResponse "hello" .zero)

/-- a call on an empty cache -/
def freshRun {M L : Type} [DispatchModel M L (Completion String) String] (model : M)
    (options : TokudoOptions) :
    Outcome (Eff L (Completion String)) (Result (NormalizedResponse (CompletionResponse String)))
      Unit :=
  exec (handler NoCache greets)
    (ExceptT.run ((advised model).complete (promptRequest "hi") options)) ()

section
variable {M L : Type} [DispatchModel M L (Completion String) String] (model : M)
  (options : TokudoOptions)

theorem does_freshRun : Does ((advised model).complete (promptRequest "hi") options)
    (freshRun model options).events (freshRun model options).value := Prog.Runs.of_exec _ _ _

theorem freshRun_nothingFound : NothingFound (freshRun (L := L) model options).events := by
  have hhist := history_of_exec (handler NoCache greets)
    (ExceptT.run ((advised model).complete (L := L) (promptRequest "hi") options)) ()
  intro k r hm
  obtain ⟨s, t, hstep⟩ := hhist.exists_step hm
  exact (congrArg Prod.fst hstep).symm

end

abbrev easyCascade : StaticCascade String := textCascade AcceptAllValidator

abbrev plainText : PlainModel String := PlainModel.mk

/-- the cheap leg of this call is asked, and that is not what the router said -/
theorem advice_not_followed :
    Called .cheap (freshRun easyCascade {}).events ∧
      ¬ ((advised easyCascade).hint (promptRequest "hi") {} = .strong →
        Called .strong (freshRun easyCascade {}).events ∧
          ¬ Called .cheap (freshRun easyCascade {}).events) := by
  obtain ⟨hcheap, -, hiff⟩ := strong_advice_followed_iff (advised easyCascade) asciiUnicode
    cautiousRouter rfl rfl (does_freshRun easyCascade {}) rfl rfl
    (freshRun_nothingFound easyCascade {})
  refine ⟨hcheap, fun hfollowed => ?_⟩
  exact hiff.mp hfollowed (cautiousRouter_predict _)

/-- **The router says `Strong`, and the cheap leg answers**; the strong leg is never asked. -/
theorem strong_advice_ignored :
    ∃ es n, Does ((advised easyCascade).complete (promptRequest "hi") {}) es (.ok n) ∧
      NothingFound es ∧ cautiousRouter.predict asciiUnicode (promptRequest "hi") = .strong ∧
      evStart .cheap (promptRequest "hi") ∈ es ∧ ¬ Called .strong es := by
  refine ⟨_, _, does_freshRun easyCascade {}, freshRun_nothingFound easyCascade {},
    cautiousRouter_predict _, ?_, ?_⟩
  · exact List.mem_cons_of_mem _ (List.mem_cons_of_mem _ (List.mem_cons_of_mem _ List.mem_cons_self))
  · intro hcalled
    obtain ⟨request, hm⟩ := hcalled
    have hnone : (freshRun easyCascade {}).events.all (fun e => match e.op with
        | .callStart .strong _ => false
        | _ => true) = true := rfl
    cases List.all_eq_true.mp hnone _ hm

/-- asked not to route, a plain model is named -/
theorem unrouted_call_named :
    ∃ n, Does ((advised plainText).complete (promptRequest "hi") { bypassRouter := true })
        (freshRun plainText { bypassRouter := true }).events (.ok n) ∧
      (advised plainText).NamesAnswerer (fun _ => .passThrough)
        (freshRun plainText { bypassRouter := true }).events n := by
  refine ⟨_, does_freshRun plainText { bypassRouter := true }, ?_⟩
  exact ((names_answerer_iff (.predictive asciiUnicode cautiousRouter)).2 (advised plainText) _ _ _ _
    rfl (does_freshRun plainText { bypassRouter := true })).mpr (.inr (.inl rfl))

/-- **A plain model answers, and the provenance says `Strong`.** -/
theorem plain_answer_misnamed :
    ∃ es n, Does ((advised plainText).complete (promptRequest "hi") {}) es (.ok n) ∧
      lastAnswer es = some ((), .ok n.response) ∧ n.provenance.routerChoice = .strong ∧
      ¬ (advised plainText).NamesAnswerer (fun _ => .passThrough) es n := by
  have hroute := cautiousRouter_predict (promptRequest "hi")
  refine ⟨_, _, does_freshRun plainText {}, rfl, hroute, fun hnames => ?_⟩
  have hpass := (hnames .passThrough).mpr (@OptimizedModel.AnsweredBy.leg _ _ _ _ _ _ _ () rfl)
  cases hroute.symm.trans hpass

end Tokudo
