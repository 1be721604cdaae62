import Tokudo.Core.Traits
import Tokudo.Core.Pricing
import Mathlib.Data.Finset.Card
import Mathlib.Data.Finset.Lattice.Basic

/-!
# The predictive router

`route/predictive.rs`.  A request is compared with calibration examples by the words they share; the
closest example names the leg, if it is close enough.  The Unicode tables of `char` are a parameter.

* `predict_of_nil`   a router without examples has no opinion;
* `predict_mem`      a router with examples names the leg of one of them, or the strong one.
-/

namespace Tokudo

/-- `char::is_alphanumeric` and `char::to_lowercase` -/
structure Unicode where
  isAlphanumeric : Char → Bool
  toLowercase : Char → List Char

structure PredictiveRouteExample where
  text : String
  choice : RouterChoice

structure PredictiveRouterConfig where
  minSimilarity : F32

/-- `0.20`; the `f32` next to it is `13421773 / 2 ^ 26` -/
instance : Inhabited PredictiveRouterConfig := ⟨⟨1 / 5⟩⟩

structure PredictiveRouter where
  examples : List PredictiveRouteExample
  config : PredictiveRouterConfig := default

/-! ## words -/

def isStopword (normalized : String) : Bool :=
  decide (normalized ∈ ["a", "an", "and", "are", "as", "at", "be", "by", "for", "from", "in", "is",
    "it", "of", "on", "or", "that", "the", "to", "with"])

def normalize (unicode : Unicode) (raw : String) : Option String :=
  let normalized := String.ofList ((raw.toList.filter fun c =>
    unicode.isAlphanumeric c || c == '_' || c == '-').flatMap unicode.toLowercase)
  if normalized = "" ∨ isStopword normalized then none else some normalized

def normalizeTokens (unicode : Unicode) (text : String) : Finset String :=
  ((splitWhitespace text).filterMap (normalize unicode)).toFinset

def collectMessageText (message : Message) (output : String) : String :=
  match message with
  | .system content => output ++ content
  | .user content => content.toList.foldl (fun output item => match item with
    | .text t => output ++ t.text ++ " "
    | .other _ => output) output
  | .assistant _ content => content.toList.foldl (fun output item => match item with
    | .text t => output ++ t.text ++ " "
    | .other _ => output) output

def requestTokens (unicode : Unicode) (request : CompletionRequest) : Finset String :=
  let text := match request.preamble with
    | none => ""
    | some preamble => preamble ++ " "
  let text := request.chatHistory.toList.foldl
    (fun text message => collectMessageText message text ++ " ") text
  let text := request.documents.foldl (fun text document => text ++ document.text ++ " ") text
  normalizeTokens unicode text

def jaccard (left right : Finset String) : F32 :=
  if left = ∅ ∨ right = ∅ then 0
  else
    let intersection := (left ∩ right).card
    let union := (left ∪ right).card
    if union = 0 then 0 else (intersection : ℚ) / (union : ℚ)

/-! ## the prediction -/

/-- the leg that an example stands for -/
def PredictiveRouteExample.leg (ex : PredictiveRouteExample) : RouterChoice :=
  match ex.choice with
  | .cheap => .cheap
  | .strong => .strong
  | .cacheHit | .passThrough => .strong

namespace PredictiveRouter
variable (unicode : Unicode) (self : PredictiveRouter)

/-- one turn of the loop: an example that is strictly closer is kept -/
def closer (tokens : Finset String) (best : RouterChoice × F32)
    (ex : PredictiveRouteExample) : RouterChoice × F32 :=
  let similarity := jaccard tokens (normalizeTokens unicode ex.text)
  if best.2 < similarity then (ex.leg, similarity) else best

def bestExample (tokens : Finset String) : RouterChoice × F32 :=
  self.examples.foldl (closer unicode tokens) (.strong, 0)

def predict (request : CompletionRequest) : RouterChoice :=
  if self.examples.isEmpty then .passThrough
  else
    let tokens := requestTokens unicode request
    if tokens = ∅ then .strong
    else
      let best := self.bestExample unicode tokens
      if self.config.minSimilarity ≤ best.2 then best.1 else .strong

/-- `impl Router for PredictiveRouter` -/
def toRouter : Router where
  route request _ := self.predict unicode request

/-! ## what the router can say -/

theorem bestExample_mem (tokens : Finset String) :
    (self.bestExample unicode tokens).1 ∈ .strong :: self.examples.map PredictiveRouteExample.leg := by
  have hfold : ∀ (exs : List PredictiveRouteExample) (best : RouterChoice × F32),
      (exs.foldl (closer unicode tokens) best).1 ∈ best.1 :: exs.map PredictiveRouteExample.leg := by
    intro exs
    induction exs with
    | nil =>
      intro best
      exact List.mem_cons_self
    | cons ex exs ih =>
      intro best
      rw [List.foldl_cons, List.map_cons]
      rcases List.mem_cons.mp (ih (closer unicode tokens best ex)) with h | h
      · rw [h]
        unfold closer
        dsimp only
        split
        · exact List.mem_cons_of_mem _ List.mem_cons_self
        · exact List.mem_cons_self
      · exact List.mem_cons_of_mem _ (List.mem_cons_of_mem _ h)
  exact hfold self.examples (.strong, 0)

/-- **A router without examples has no opinion.** -/
theorem predict_of_nil (h : self.examples = []) (request : CompletionRequest) :
    self.predict unicode request = .passThrough := by
  rw [predict, h]
  rfl

/-- **A router with examples names the leg of one of them**, or the strong one. -/
theorem predict_mem (h : self.examples ≠ []) (request : CompletionRequest) :
    self.predict unicode request ∈ .strong :: self.examples.map PredictiveRouteExample.leg := by
  have hne : self.examples.isEmpty = false := by
    rw [List.isEmpty_eq_false_iff]
    exact h
  rw [predict, hne, if_neg Bool.false_ne_true]
  dsimp only
  split
  · exact List.mem_cons_self
  · split
    · exact self.bestExample_mem unicode _
    · exact List.mem_cons_self

theorem leg_eq (ex : PredictiveRouteExample) : ex.leg = .cheap ∨ ex.leg = .strong := by
  unfold PredictiveRouteExample.leg
  cases ex.choice with
  | cheap => exact .inl rfl
  | strong => exact .inr rfl
  | cacheHit => exact .inr rfl
  | passThrough => exact .inr rfl

theorem predict_of_examples (h : self.examples ≠ []) (request : CompletionRequest) :
    self.predict unicode request = .cheap ∨ self.predict unicode request = .strong := by
  rcases List.mem_cons.mp (self.predict_mem unicode h request) with hs | hm
  · exact .inr hs
  · obtain ⟨ex, -, hleg⟩ := List.mem_map.mp hm
    rw [← hleg]
    exact leg_eq ex

end PredictiveRouter

end Tokudo
