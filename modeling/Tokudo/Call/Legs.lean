import Tokudo.Call.World

/-!
# What the dispatchers ask

A plain model asks its leg once.  A `StaticCascade` asks the cheap leg, and the strong leg only when
the validator rejects the cheap reply: `Legs` lists its five ways to end.

* `does_plainModel`, `legs_of_dispatch`   every run of a dispatcher is one of these;
* both leave the cache alone (`LawfulDispatch`).
-/

namespace Tokudo
open Effect

variable {L R : Type}

theorem does_completion_bind {α : Type} {leg : L} {request : CompletionRequest}
    {f : CompletionResponse R → Async L (Completion R) α}
    {es : List (Event (Eff L (Completion R)))} {b : Result α} :
    Does (completion leg request >>= f) es b ↔
      (∃ e, es = [evStart leg request, evEnd leg request (.error e)] ∧ b = .error (.provider e)) ∨
      (∃ resp fs, es = evStart leg request :: evEnd leg request (.ok resp) :: fs ∧
        Does (f resp) fs b) := by
  unfold completion
  rw [bind_assoc, does_call_bind]
  constructor
  · rintro ⟨a, fs, rfl, h⟩
    cases a with
    | error e =>
      obtain ⟨rfl, rfl⟩ := h
      exact .inl ⟨e, rfl, rfl⟩
    | ok resp => exact .inr ⟨resp, fs, rfl, h⟩
  · rintro (⟨e, rfl, rfl⟩ | ⟨resp, fs, rfl, h⟩)
    · exact ⟨.error e, [], rfl, rfl, rfl⟩
    · exact ⟨.ok resp, fs, rfl, h⟩

/-! ## a plain model -/

/-- **A plain model asks its leg once.** -/
theorem does_plainModel {m : PlainModel R} {request : CompletionRequest}
    {es : List (Event (Eff Unit (Completion R)))} {b : Result (DispatchOutcome R)} :
    Does (DispatchModel.dispatch m request) es b ↔
      (∃ e, es = [evStart () request, evEnd () request (.error e)] ∧ b = .error (.provider e)) ∨
      (∃ resp, es = [evStart () request, evEnd () request (.ok resp)] ∧ b = .ok ⟨resp, none⟩) := by
  refine does_completion_bind.trans (or_congr Iff.rfl ?_)
  constructor
  · rintro ⟨resp, fs, rfl, rfl, rfl⟩
    exact ⟨resp, rfl, rfl⟩
  · rintro ⟨resp, rfl, rfl⟩
    exact ⟨resp, [], rfl, rfl, rfl⟩

instance : LawfulDispatch (PlainModel R) where
  offCache h := by
    rcases does_plainModel.mp h with ⟨e, rfl, -⟩ | ⟨resp, rfl, -⟩
    · exact offCache_call
    · exact offCache_call

/-! ## the cascade -/

namespace StaticCascade
variable (self : StaticCascade R)

inductive Legs (request : CompletionRequest) :
    List (Event (Eff Leg (Completion R))) → Result (DispatchOutcome R) → Prop where
  | cheapError (e : CompletionError) :
      Legs request [evStart .cheap request, evEnd .cheap request (.error e)]
        (.error (.provider e))
  | undecided {cheapResp : CompletionResponse R} {e : TokudoError}
      (hv : self.verdict cheapResp = .error e) :
      Legs request [evStart .cheap request, evEnd .cheap request (.ok cheapResp)] (.error e)
  | accepted {cheapResp : CompletionResponse R} (hv : self.verdict cheapResp = .ok true) :
      Legs request [evStart .cheap request, evEnd .cheap request (.ok cheapResp),
        evEmit (.routeDecision .cheap)] (.ok ⟨cheapResp, some .cheap⟩)
  | strongError {cheapResp : CompletionResponse R} (hv : self.verdict cheapResp = .ok false)
      (e : CompletionError) :
      Legs request [evStart .cheap request, evEnd .cheap request (.ok cheapResp),
        evStart .strong request, evEnd .strong request (.error e)] (.error (.provider e))
  | escalated {cheapResp : CompletionResponse R} (hv : self.verdict cheapResp = .ok false)
      (strongResp : CompletionResponse R) :
      Legs request [evStart .cheap request, evEnd .cheap request (.ok cheapResp),
        evStart .strong request, evEnd .strong request (.ok strongResp),
        evEmit (.routeDecision .strong)] (.ok ⟨strongResp, some .strong⟩)

theorem legs_of_complete {request : CompletionRequest} {es : List (Event (Eff Leg (Completion R)))}
    {b : Result (NormalizedResponse (CompletionResponse R))}
    (h : Does (self.complete request) es b) :
    self.Legs request es (b.map fun n => ⟨n.response, some n.provenance.routerChoice⟩) := by
  rcases does_completion_bind.mp h with ⟨e, rfl, rfl⟩ | ⟨cheapResp, fs, rfl, h₁⟩
  · exact .cheapError e
  rcases (does_liftExcept_bind _ _ _ _).mp h₁ with ⟨e, hv, rfl, rfl⟩ | ⟨accepted, hv, h₂⟩
  · exact .undecided hv
  cases accepted with
  | true =>
    rw [if_pos rfl] at h₂
    obtain ⟨fs, rfl, rfl, rfl⟩ := does_emit_bind.mp h₂
    exact .accepted hv
  | false =>
    rw [if_neg (by decide)] at h₂
    rcases does_completion_bind.mp h₂ with ⟨e, rfl, rfl⟩ | ⟨strongResp, fs, rfl, h₃⟩
    · exact .strongError hv e
    · obtain ⟨fs, rfl, rfl, rfl⟩ := does_emit_bind.mp h₃
      exact .escalated hv strongResp

/-- **Every run of the cascade is one of these.** -/
theorem legs_of_dispatch {request : CompletionRequest}
    {es : List (Event (Eff Leg (Completion R)))} {b : Result (DispatchOutcome R)}
    (h : Does (DispatchModel.dispatch self request) es b) : self.Legs request es b := by
  rcases (does_bind _ _ _ _).mp h with ⟨e, h₁, rfl⟩ | ⟨es₁, es₂, n, rfl, h₁, rfl, rfl⟩
  · exact self.legs_of_complete h₁
  · rw [List.append_nil]
    exact self.legs_of_complete h₁

instance : LawfulDispatch (StaticCascade R) where
  offCache h := by
    cases legs_of_dispatch _ h with
    | cheapError e => exact offCache_call
    | undecided hv => exact offCache_call
    | accepted hv => exact offCache_call.append (offCache_emit _)
    | strongError hv e => exact offCache_call.append offCache_call
    | escalated hv strongResp =>
      exact (offCache_call.append offCache_call).append (offCache_emit _)

end StaticCascade

end Tokudo
