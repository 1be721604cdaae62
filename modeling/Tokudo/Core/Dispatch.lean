import Tokudo.Core.Traits

/-!
# Dispatchers: a plain model and the two-leg cascade

`dispatch.rs` and `route/cascade.rs`.

* `Dispatcher R`      any dispatcher, seen from outside: one leg, whose answer is the outcome;
* `PlainModel R`      a `CompletionModel` under the blanket implementation;
* `StaticCascade R`   cheap leg first, strong leg when the validator rejects the cheap reply.
-/

namespace Tokudo
open Effect

abbrev CompletionError := String

structure DispatchOutcome (R : Type) where
  response : CompletionResponse R
  route : Option RouterChoice

/-- `DispatchModel`; `L` are the legs it asks and `A` is the type of their answers -/
class DispatchModel (M : Type) (L A R : outParam Type) where
  dispatch : M → CompletionRequest → Async L A (DispatchOutcome R)

/-- any dispatcher: what it answers is up to the environment -/
structure Dispatcher (R : Type) where

instance (R : Type) : DispatchModel (Dispatcher R) Unit (Result (DispatchOutcome R)) R where
  dispatch _ request := do liftExcept (← call () request)

abbrev Completion (R : Type) := Except CompletionError (CompletionResponse R)

instance (R : Type) : Nonempty (Completion R) := ⟨.error ""⟩

/-- any `CompletionModel`: what it answers is up to the environment -/
structure PlainModel (R : Type) where

/-- `?` on a completion: the error becomes a provider error -/
def Completion.toResult {R : Type} : Completion R → Result (CompletionResponse R)
  | .ok response => .ok response
  | .error e => .error (.provider e)

/-- `completion(request).await?` -/
def completion {L R : Type} (leg : L) (request : CompletionRequest) :
    Async L (Completion R) (CompletionResponse R) := do
  let answer ← call leg request
  liftExcept (Completion.toResult answer)

instance (R : Type) : DispatchModel (PlainModel R) Unit (Completion R) R where
  dispatch _ request := do
    let response ← completion () request
    return { response := response, route := none }

inductive Leg where
  | cheap
  | strong
  deriving DecidableEq

/-- `rawToValue` is `serde_json::to_value` of a raw response -/
structure StaticCascade (R : Type) where
  validator : Validator
  rawToValue : R → Except String Json

namespace StaticCascade
variable {R : Type}

/-- the validator's verdict on a cheap reply -/
def verdict (self : StaticCascade R) (cheapResp : CompletionResponse R) : Result Bool :=
  match self.rawToValue cheapResp.rawResponse with
  | .error e => .error (.cache ("serialize cheap response: " ++ e))
  | .ok rawJson => self.validator.validate rawJson

def complete (self : StaticCascade R) (request : CompletionRequest) :
    Async Leg (Completion R) (NormalizedResponse (CompletionResponse R)) := do
  let cheapResp ← completion .cheap request
  let accepted ← liftExcept (self.verdict cheapResp)
  if accepted then
    emit (.routeDecision .cheap)
    return ⟨cheapResp, { Provenance.passThrough with routerChoice := .cheap }⟩
  else
    let strongResp ← completion .strong request
    emit (.routeDecision .strong)
    return ⟨strongResp, { Provenance.passThrough with routerChoice := .strong }⟩

instance : DispatchModel (StaticCascade R) Leg (Completion R) R where
  dispatch self request := do
    let normalized ← self.complete request
    return { response := normalized.response, route := some normalized.provenance.routerChoice }

end StaticCascade

end Tokudo
