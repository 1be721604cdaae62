import Tokudo.Call.Legs
import Tokudo.Core.TextSerde
import Mathlib.Algebra.Group.Prod
import Mathlib.Algebra.BigOperators.Group.List.Basic
import Mathlib.Algebra.Order.BigOperators.Group.List
import Mathlib.Algebra.Order.Monoid.Prod

/-!
# Do the cost events account for every provider call?

`tally f es` sums the tokens that `f` reads off the events.  The cost events of a call carry
`costTokens`, the completions it got carry `usageTokens`.

* `tally_of_transcript`   a call that returns `Ok` emits one cost event; the rest is up to the
                          dispatcher;
* `used_plain`            over a plain model both sums are equal;
* `used_cascade`          **over a cascade the cost events miss the usage of the rejected cheap
                          replies, and nothing else.**
-/

namespace Tokudo
open Effect

variable {L A R M : Type}

/-! ## tallies -/

/-- input, output, cached input and cache write -/
abbrev Tokens := ℕ × ℕ × ℕ × ℕ

def Usage.tokens (u : Usage) : Tokens :=
  (u.inputTokens, u.outputTokens, u.cachedInputTokens, u.cacheCreationInputTokens)

def costTokens : Event (Eff L A) → Tokens
  | ⟨.emit (.costEstimate _ input output cachedInput cacheWrite _ _ _), _⟩ =>
    (input, output, cachedInput, cacheWrite)
  | _ => 0

/-- the usage of a completion; a failed one reports none -/
def Completion.tokens : Completion R → Tokens
  | .ok resp => resp.usage.tokens
  | .error _ => 0

def usageTokens : Event (Eff L (Completion R)) → Tokens
  | ⟨.callEnd _ _, a⟩ => Completion.tokens a
  | _ => 0

def tally (f : Event (Eff L A) → Tokens) (es : List (Event (Eff L A))) : Tokens := (es.map f).sum

theorem tally_nil (f : Event (Eff L A) → Tokens) : tally f [] = 0 := rfl

theorem tally_cons (f : Event (Eff L A) → Tokens) (e : Event (Eff L A))
    (es : List (Event (Eff L A))) : tally f (e :: es) = f e + tally f es := by
  rw [tally, List.map_cons, List.sum_cons]
  rfl

theorem tally_append (f : Event (Eff L A) → Tokens) (es fs : List (Event (Eff L A))) :
    tally f (es ++ fs) = tally f es + tally f fs := by
  rw [tally, List.map_append, List.sum_append]
  rfl

theorem tally_eq_zero {f : Event (Eff L A) → Tokens} {es : List (Event (Eff L A))} :
    tally f es = 0 ↔ ∀ e ∈ es, f e = 0 := by
  rw [tally, List.sum_eq_zero_iff]
  simp

/-! ## quiet events -/

/-- neither a completion nor a cost event -/
def Op.quiet : Op L → Bool
  | .callEnd _ _ => false
  | .emit (.costEstimate ..) => false
  | _ => true

/-- only completions and cost events count -/
def CountsLoud (f : Event (Eff L A) → Tokens) : Prop := ∀ e, e.op.quiet = true → f e = 0

theorem costTokens_countsLoud : CountsLoud (costTokens : Event (Eff L A) → Tokens) := by
  rintro ⟨o, r⟩ hq
  cases o with
  | emit event => cases event <;> first | rfl | cases hq
  | cacheGet k => rfl
  | cachePut k e => rfl
  | callStart leg request => rfl
  | callEnd leg request => rfl

theorem usageTokens_countsLoud : CountsLoud (usageTokens : Event (Eff L (Completion R)) → Tokens) := by
  rintro ⟨o, r⟩ hq
  cases o with
  | callEnd leg request => cases hq
  | cacheGet k => rfl
  | cachePut k e => rfl
  | callStart leg request => rfl
  | emit event => rfl

theorem quiet_of_reports {o : Op L} (h : o.reports = true) : o.quiet = true := by
  cases o with
  | emit event => cases event <;> first | rfl | cases h
  | callEnd leg request => cases h
  | cacheGet k => rfl
  | cachePut k e => rfl
  | callStart leg request => rfl

theorem CountsLoud.tally {f : Event (Eff L A) → Tokens} (hf : CountsLoud f)
    {es : List (Event (Eff L A))} (h : ∀ e ∈ es, e.op.quiet = true) : tally f es = 0 :=
  tally_eq_zero.mpr fun e he => hf e (h e he)

theorem CountsLoud.reports {f : Event (Eff L A) → Tokens} (hf : CountsLoud f)
    {es : List (Event (Eff L A))} (h : ∀ e ∈ es, e.op.reports = true) : Tokudo.tally f es = 0 :=
  hf.tally fun e he => quiet_of_reports (h e he)

namespace OptimizedModel

section
variable (self : OptimizedModel M R)

theorem quiet_missEvents (options : TokudoOptions) (k : String) :
    ∀ e ∈ (missEvents options k : List (Event (Eff L A))), e.op.quiet = true := by
  unfold missEvents
  split <;> simp [Op.quiet]

theorem quiet_ending {options : TokudoOptions} {k : String} {resp : CompletionResponse R}
    {es : List (Event (Eff L A))} {r : Result Unit} (h : self.Ending options k resp es r) :
    ∀ e ∈ es, e.op.quiet = true := by
  cases h <;> simp [Op.quiet]

end

variable (self : OptimizedModel M R) [DispatchModel M L A R]

def hitCostEvent : TokudoEvent := .costEstimate true 0 0 0 0 0 (some 0) (some 0)

/-- **A call that returns `Ok` emits one cost event**: of a hit, or of the answer that its
dispatcher returned.  Whatever else counts happened in the dispatcher. -/
theorem tally_of_transcript {request : CompletionRequest} {options : TokudoOptions}
    {es : List (Event (Eff L A))} {n : NormalizedResponse (CompletionResponse R)}
    (h : self.Transcript request options es (.ok n)) :
    (n.provenance.cacheHit = true ∧ ∀ f, CountsLoud f → tally f es = f (evEmit hitCostEvent)) ∨
    (∃ req ds outcome, Does (DispatchModel.dispatch self.model req) ds (.ok outcome) ∧
      n.provenance.cacheHit = false ∧ ∀ f, CountsLoud f →
        tally f es = tally f ds + f (evEmit (self.costEvent request.model outcome.response))) := by
  rcases self.served_or_answered h with
    ⟨k, entry, cached, -, -, -, rfl, rfl⟩ | ⟨k, stats, req, ds, fs, outcome, -, -, hd, he, rfl, rfl⟩
  · refine .inl ⟨self.withLineage_cacheHit _ _, fun f hf => ?_⟩
    rw [hitEvents, List.cons_append, List.singleton_append, tally_cons, tally_cons, tally_cons,
      hf.reports (self.reports_lineageEvents _), hf _ rfl, hf (evEmit (.cacheHit _ _ _)) rfl, zero_add,
      zero_add, add_zero]
    rfl
  · refine .inr ⟨req, ds, outcome, hd, self.withLineage_cacheHit _ _, fun f hf => ?_⟩
    rw [tally_append, tally_append, tally_append, tally_append, tally_append,
      hf.tally (quiet_missEvents _ _), hf.reports (reports_compressEvents _),
      hf.reports (self.reports_routeEvents _ _), hf.tally (self.quiet_ending he), callEvents,
      tally_append, hf.reports (self.reports_lineageEvents _), tally_cons, tally_nil]
    simp only [zero_add, add_zero]

omit [DispatchModel M L A R] in
theorem costTokens_costEvent (modelName : Option String) (resp : CompletionResponse R) :
    costTokens (evEmit (self.costEvent modelName resp) : Event (Eff L A)) = resp.usage.tokens := rfl

theorem tally_of_hit [DispatchModel M L (Completion R) R] {request : CompletionRequest}
    {options : TokudoOptions} {es : List (Event (Eff L (Completion R)))}
    {n : NormalizedResponse (CompletionResponse R)}
    (h : self.Transcript request options es (.ok n)) (hit : n.provenance.cacheHit = true) :
    tally usageTokens es = 0 ∧ tally costTokens es = 0 := by
  rcases self.tally_of_transcript h with ⟨-, htally⟩ | ⟨_, _, _, -, hmiss, -⟩
  · exact ⟨htally _ usageTokens_countsLoud, htally _ costTokens_countsLoud⟩
  · rw [hit] at hmiss
    cases hmiss

end OptimizedModel

/-! ## a plain model -/

/-- **Over a plain model the cost events account for every completion.** -/
theorem used_plain (self : OptimizedModel (PlainModel R) R) {request : CompletionRequest}
    {options : TokudoOptions} {es : List (Event (Eff Unit (Completion R)))}
    {n : NormalizedResponse (CompletionResponse R)}
    (h : self.Transcript request options es (.ok n)) :
    tally usageTokens es = tally costTokens es := by
  rcases self.tally_of_transcript h with ⟨-, htally⟩ | ⟨req, ds, outcome, hd, -, htally⟩
  · rw [htally _ usageTokens_countsLoud, htally _ costTokens_countsLoud]
    rfl
  · rw [htally _ usageTokens_countsLoud, htally _ costTokens_countsLoud]
    rcases does_plainModel.mp hd with ⟨e, -, he⟩ | ⟨resp, rfl, ho⟩
    · cases he
    · cases ho
      rw [self.costTokens_costEvent]
      simp [tally, usageTokens, costTokens, Completion.tokens]

/-! ## a cascade -/

namespace StaticCascade
variable (self : StaticCascade R)

/-- the usage of a completion, if it is a cheap reply that the validator rejects -/
def rejectedTokens : Event (Eff Leg (Completion R)) → Tokens
  | ⟨.callEnd .cheap _, a⟩ =>
    match (a : Completion R) with
    | .ok resp => match self.verdict resp with
      | .ok false => resp.usage.tokens
      | _ => 0
    | .error _ => 0
  | _ => 0

theorem rejectedTokens_countsLoud : CountsLoud self.rejectedTokens := by
  rintro ⟨o, r⟩ hq
  cases o with
  | callEnd leg request => cases hq
  | cacheGet k => rfl
  | cachePut k e => rfl
  | callStart leg request => rfl
  | emit event => rfl

theorem rejectedTokens_eq_zero {es : List (Event (Eff Leg (Completion R)))} :
    tally self.rejectedTokens es = 0 ↔ ∀ request resp,
      evEnd .cheap request (.ok resp) ∈ es → self.verdict resp = .ok false →
        resp.usage.tokens = 0 := by
  rw [tally_eq_zero]
  constructor
  · intro h request resp hm hv
    have hz := h _ hm
    simpa only [rejectedTokens, hv] using hz
  · rintro h ⟨o, r⟩ hm
    cases o with
    | callEnd leg request =>
      cases leg with
      | strong => rfl
      | cheap =>
        change Completion R at r
        cases r with
        | error e => rfl
        | ok resp =>
          unfold rejectedTokens
          simp only []
          split
          · exact h request resp hm ‹_›
          · rfl
    | cacheGet k => rfl
    | cachePut k e => rfl
    | callStart leg request => rfl
    | emit event => rfl

end StaticCascade

/-- **Over a cascade the cost events miss the usage of the rejected cheap replies**, and nothing
else. -/
theorem used_cascade (self : OptimizedModel (StaticCascade R) R) {request : CompletionRequest}
    {options : TokudoOptions} {es : List (Event (Eff Leg (Completion R)))}
    {n : NormalizedResponse (CompletionResponse R)}
    (h : self.Transcript request options es (.ok n)) :
    tally usageTokens es = tally costTokens es + tally self.model.rejectedTokens es := by
  rcases self.tally_of_transcript h with ⟨-, htally⟩ | ⟨req, ds, outcome, hd, -, htally⟩
  · rw [htally _ usageTokens_countsLoud, htally _ costTokens_countsLoud,
      htally _ self.model.rejectedTokens_countsLoud]
    rfl
  · rw [htally _ usageTokens_countsLoud, htally _ costTokens_countsLoud,
      htally _ self.model.rejectedTokens_countsLoud, self.costTokens_costEvent]
    generalize ho : Except.ok outcome = b at hd
    cases self.model.legs_of_dispatch hd with
    | accepted hv =>
      cases ho
      simp [tally, usageTokens, costTokens, Completion.tokens, StaticCascade.rejectedTokens, hv]
    | escalated hv strongResp =>
      cases ho
      simp [tally, usageTokens, costTokens, Completion.tokens, StaticCascade.rejectedTokens, hv,
        add_comm]
    | cheapError e => cases ho
    | undecided hv => cases ho
    | strongError hv e => cases ho

/-! ## main result -/

/-- **When the cost events account for every provider call.**  Whatever a call that returns `Ok` is
answered, by cache and legs: over a plain model the two sums are equal; over a cascade they are
equal exactly if no cheap reply of the call that reports usage was rejected.  A hit counts for
nothing on both sides. -/
theorem calls_accounted :
    (∀ (self : OptimizedModel (PlainModel R) R) request options es n,
      Does (self.complete request options) es (.ok n) →
        tally usageTokens es = tally costTokens es ∧
        (n.provenance.cacheHit = true → tally usageTokens es = 0 ∧ tally costTokens es = 0)) ∧
    (∀ (self : OptimizedModel (StaticCascade R) R) request options es n,
      Does (self.complete request options) es (.ok n) →
        (tally usageTokens es = tally costTokens es ↔
          ∀ sent resp, evEnd .cheap sent (.ok resp) ∈ es → self.model.verdict resp = .ok false →
            resp.usage.tokens = 0) ∧
        (n.provenance.cacheHit = true → tally usageTokens es = 0 ∧ tally costTokens es = 0)) := by
  constructor
  · intro self request options es n h
    have htrans := self.transcript_of_does h
    exact ⟨used_plain self htrans, self.tally_of_hit htrans⟩
  · intro self request options es n h
    have htrans := self.transcript_of_does h
    refine ⟨?_, self.tally_of_hit htrans⟩
    rw [used_cascade self htrans, ← self.model.rejectedTokens_eq_zero, add_eq_left]

/-- a call over this cascade, on an empty cache; the cheap leg reports 3 and 4 tokens, the strong
leg 10 and 20 -/
def cascadeRun (validator : Validator) :
    Outcome (Eff Leg (Completion String)) (Result (NormalizedResponse (CompletionResponse String)))
      Unit :=
  exec (handler NoCache fun
      | .cheap, _ => .ok (textResponse "cheap" ⟨3, 4, 7, 0, 0, 0⟩)
      | .strong, _ => .ok (textResponse "strong" ⟨10, 20, 30, 0, 0, 0⟩))
    (ExceptT.run ((textModel (textCascade validator) preambleKey AcceptAllValidator).complete
      (promptRequest "hi") {})) ()

theorem accepted_call_accounted :
    tally usageTokens (cascadeRun AcceptAllValidator).events =
      tally costTokens (cascadeRun AcceptAllValidator).events := by
  let self := textModel (textCascade AcceptAllValidator) preambleKey AcceptAllValidator
  have hrun : Does (self.complete (promptRequest "hi") {}) (cascadeRun AcceptAllValidator).events
      (cascadeRun AcceptAllValidator).value := Prog.Runs.of_exec _ _ _
  refine ((calls_accounted.2 self _ _ _ _ hrun).1).mpr fun sent resp _ hv => ?_
  cases hv

/-- **A rejected cheap reply is not accounted for**: 13 and 24 tokens are used, and the only cost
event of the call carries 10 and 20. -/
theorem rejected_reply_lost :
    ∃ es n, Does ((textModel (textCascade RejectAllValidator) preambleKey
        AcceptAllValidator).complete (promptRequest "hi") {}) es (.ok n) ∧
      tally usageTokens es = (13, 24, 0, 0) ∧ tally costTokens es = (10, 20, 0, 0) := by
  let self := textModel (textCascade RejectAllValidator) preambleKey AcceptAllValidator
  have hrun : Does (self.complete (promptRequest "hi") {}) (cascadeRun RejectAllValidator).events
      (cascadeRun RejectAllValidator).value := Prog.Runs.of_exec _ _ _
  exact ⟨_, _, hrun, rfl, rfl⟩

end Tokudo
