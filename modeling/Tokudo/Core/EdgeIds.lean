import Tokudo.Core.TextSerde
import Tokudo.Seq.Fields

/-!
# What a lineage id identifies

`lineage.rs`.  `edge_id` hashes the relation, the source, the target, the route and the model, a
zero byte after each but the last.  The names of the relations and routes have no zero byte in
them; the other strings are the caller's.  An absent model and an empty one are hashed alike.

* `edgeId_eq_iff`      equal ids: one relation, and the same text after it;
* `plain_edges_apart`  no two edges without zero bytes and empty models share an id by accident;
* `edge_identified_iff`  **when an id belongs to no other edge.**
-/

namespace Tokudo

/-- the delimiter, `b"\0"` -/
def nul : Char := Char.ofNat 0

namespace LineageEdge

/-- edges are made by `new` -/
def Made (sha : Sha256Hex) (edge : LineageEdge) : Prop :=
  ∃ relation sourceId targetId routerChoice model cacheKey,
    edge = new sha relation sourceId targetId routerChoice model cacheKey

/-- the components that the id is derived from -/
structure SameComponents (edge other : LineageEdge) : Prop where
  relation : edge.relation = other.relation
  sourceId : edge.sourceId = other.sourceId
  targetId : edge.targetId = other.targetId
  routerChoice : edge.routerChoice = other.routerChoice
  model : edge.model = other.model

/-- no zero byte in the source and the target, and the model is not the empty text -/
structure Plain (edge : LineageEdge) : Prop where
  source : nul ∉ edge.sourceId.toList
  target : nul ∉ edge.targetId.toList
  model : edge.model ≠ some ""

/-- no zero byte in the source and the target; there is a model, which is not empty, and no part of
it that a zero byte ends is the name of a route -/
structure Unmistakable (edge : LineageEdge) : Prop where
  source : nul ∉ edge.sourceId.toList
  target : nul ∉ edge.targetId.toList
  model : ∃ model, edge.model = some model ∧ model ≠ "" ∧
    ∀ choice : RouterChoice, choice.debug.toList ∉ (model.toList.splitOn nul).dropLast

end LineageEdge

/-! ## the hashed text -/

theorem utf8_append (s t : String) : utf8 (s ++ t) = utf8 s ++ utf8 t := by
  unfold utf8
  simp

theorem relation_solid (relation : LineageRelation) : nul ∉ relation.debug.toList := by
  cases relation <;> decide

theorem choice_solid (choice : RouterChoice) : nul ∉ choice.debug.toList := by
  cases choice <;> decide

theorem relation_debug_injective {r r' : LineageRelation} (h : r.debug.toList = r'.debug.toList) :
    r = r' := by
  revert h
  cases r <;> cases r' <;> decide

theorem choice_debug_injective {c c' : RouterChoice} (h : c.debug.toList = c'.debug.toList) :
    c = c' := by
  revert h
  cases c <;> cases c' <;> decide

/-- the text after the relation -/
def edgeRest (edge : LineageEdge) : List Char :=
  Seq.tagged nul edge.sourceId.toList edge.targetId.toList edge.routerChoice.debug.toList
    (edge.model.getD "").toList

theorem edgeBytes_eq (edge : LineageEdge) :
    edgeBytes edge.relation edge.sourceId edge.targetId edge.routerChoice edge.model =
      utf8 (String.ofList (edge.relation.debug.toList ++ nul :: edgeRest edge)) := by
  have hnul : utf8 (String.ofList [nul]) = [0] := by decide
  have hmodel : (edge.model.map utf8).getD [] = utf8 (edge.model.getD "") := by
    cases edge.model with
    | none => rfl
    | some model => rfl
  have htext : String.ofList (edge.relation.debug.toList ++ nul :: edgeRest edge) =
      edge.relation.debug ++ String.ofList [nul] ++ edge.sourceId ++ String.ofList [nul] ++
        edge.targetId ++ String.ofList [nul] ++ edge.routerChoice.debug ++ String.ofList [nul] ++
          edge.model.getD "" := by
    apply String.toList_injective
    simp [edgeRest, Seq.tagged]
  unfold edgeBytes
  rw [htext, hmodel]
  simp only [utf8_append, hnul]

section
variable {sha : Sha256Hex} {edge other : LineageEdge}

theorem edgeId_of_made (hmade : edge.Made sha) :
    edge.edgeId = sha (utf8 (String.ofList (edge.relation.debug.toList ++ nul :: edgeRest edge))) := by
  obtain ⟨relation, sourceId, targetId, routerChoice, model, cacheKey, rfl⟩ := hmade
  rw [← edgeBytes_eq]
  rfl

/-- **What equal ids say.** -/
theorem edgeId_eq_iff (hsha : ∀ a b, sha a = sha b → a = b) (hmade : edge.Made sha)
    (hother : other.Made sha) :
    other.edgeId = edge.edgeId ↔ other.relation = edge.relation ∧ edgeRest other = edgeRest edge := by
  rw [edgeId_of_made hmade, edgeId_of_made hother]
  constructor
  · intro h
    have htext := String.ofList_injective (utf8_injective (hsha _ _ h))
    obtain ⟨hrelation, hrest⟩ := Seq.append_cons_inj (relation_solid _) (relation_solid _) htext
    exact ⟨relation_debug_injective hrelation, hrest⟩
  · rintro ⟨hrelation, hrest⟩
    rw [hrelation, hrest]

theorem plain_edges_apart (hsha : ∀ a b, sha a = sha b → a = b) (hmade : edge.Made sha)
    (hother : other.Made sha) (hplain : edge.Plain) (hplain' : other.Plain)
    (h : other.edgeId = edge.edgeId) : other.SameComponents edge := by
  obtain ⟨hrelation, hrest⟩ := (edgeId_eq_iff hsha hmade hother).mp h
  obtain ⟨hs, ht, hc, hm⟩ := Seq.tagged_inj hplain'.source hplain'.target (choice_solid _)
    hplain.source hplain.target (choice_solid _) hrest
  refine ⟨hrelation, String.toList_injective hs, String.toList_injective ht,
    choice_debug_injective hc, ?_⟩
  have htext : other.model.getD "" = edge.model.getD "" := String.toList_injective hm
  have hne := hplain.model
  have hne' := hplain'.model
  cases hmodel : edge.model with
  | none =>
    cases hmodel' : other.model with
    | none => rfl
    | some text =>
      rw [hmodel, hmodel'] at htext
      rw [hmodel'] at hne'
      exact absurd (congrArg some htext) hne'
  | some text =>
    cases hmodel' : other.model with
    | none =>
      rw [hmodel, hmodel'] at htext
      rw [hmodel] at hne
      exact absurd (congrArg some htext.symm) hne
    | some text' =>
      rw [hmodel, hmodel'] at htext
      exact congrArg some htext

end

/-! ## one edge and all the others -/

section
variable {sha : Sha256Hex} {edge : LineageEdge}

/-- the id differs from that of every edge which differs in a component -/
def LineageEdge.Identified (sha : Sha256Hex) (edge : LineageEdge) : Prop :=
  ∀ other : LineageEdge, other.Made sha → ¬ other.SameComponents edge → other.edgeId ≠ edge.edgeId

theorem LineageEdge.Identified.same (h : edge.Identified sha) {other : LineageEdge}
    (hother : other.Made sha) (hid : other.edgeId = edge.edgeId) : other.SameComponents edge := by
  by_contra hdiffer
  exact h other hother hdiffer hid

/-- an absent model and an empty one are hashed alike -/
theorem model_of_identified (hsha : ∀ a b, sha a = sha b → a = b) (hmade : edge.Made sha)
    (h : edge.Identified sha) : ∃ model, edge.model = some model ∧ model ≠ "" := by
  have hswap : ∀ model, model.getD "" = edge.model.getD "" → model = edge.model := by
    intro model hmodel
    have hother : (LineageEdge.new sha edge.relation edge.sourceId edge.targetId edge.routerChoice
        model edge.cacheKey).Made sha := ⟨_, _, _, _, _, _, rfl⟩
    refine (h.same hother ((edgeId_eq_iff hsha hmade hother).mpr ⟨rfl, ?_⟩)).model
    show Seq.tagged nul _ _ _ (model.getD "").toList = _
    rw [hmodel]
    rfl
  cases hmodel : edge.model with
  | none =>
    have hsame := hswap (some "") (by rw [hmodel]; rfl)
    rw [hmodel] at hsame
    cases hsame
  | some model =>
    refine ⟨model, rfl, fun hempty => ?_⟩
    have hsame := hswap none (by rw [hmodel, hempty]; rfl)
    rw [hmodel] at hsame
    cases hsame

/-- with a model, the edge is identified if its text can be read in one way only -/
theorem identified_iff_unique (hsha : ∀ a b, sha a = sha b → a = b) (hmade : edge.Made sha)
    {model : String} (hmodel : edge.model = some model) (hne : model ≠ "") :
    edge.Identified sha ↔
      ∀ s t tag rest, tag ∈ Set.range (fun choice : RouterChoice => choice.debug.toList) →
        Seq.tagged nul s t tag rest = edgeRest edge →
          s = edge.sourceId.toList ∧ t = edge.targetId.toList ∧
            tag = edge.routerChoice.debug.toList ∧ rest = model.toList := by
  constructor
  · rintro h s t tag rest ⟨choice, rfl⟩ hrest
    have hother : (LineageEdge.new sha edge.relation (String.ofList s) (String.ofList t) choice
        (some (String.ofList rest)) edge.cacheKey).Made sha := ⟨_, _, _, _, _, _, rfl⟩
    have htext : edgeRest (LineageEdge.new sha edge.relation (String.ofList s) (String.ofList t)
        choice (some (String.ofList rest)) edge.cacheKey) = edgeRest edge := by
      show Seq.tagged nul (String.ofList s).toList (String.ofList t).toList choice.debug.toList
        (String.ofList rest).toList = _
      rw [String.toList_ofList, String.toList_ofList, String.toList_ofList, hrest]
    obtain ⟨-, hs, ht, hc, hm⟩ := h.same hother ((edgeId_eq_iff hsha hmade hother).mpr ⟨rfl, htext⟩)
    have hrestm : String.ofList rest = model := Option.some.inj (hm.trans hmodel)
    refine ⟨?_, ?_, congrArg (fun choice => choice.debug.toList) hc, ?_⟩
    · rw [← hs]
      exact String.toList_ofList.symm
    · rw [← ht]
      exact String.toList_ofList.symm
    · rw [← hrestm]
      exact String.toList_ofList.symm
  · intro h other hother hdiffer hid
    apply hdiffer
    obtain ⟨hrelation, hrest⟩ := (edgeId_eq_iff hsha hmade hother).mp hid
    obtain ⟨hs, ht, hc, hm⟩ := h _ _ _ _ ⟨other.routerChoice, rfl⟩ hrest
    refine ⟨hrelation, String.toList_injective hs, String.toList_injective ht,
      choice_debug_injective hc, ?_⟩
    have htext : other.model.getD "" = model := String.toList_injective hm
    rw [hmodel]
    cases hmodel' : other.model with
    | none =>
      rw [hmodel'] at htext
      exact absurd htext.symm hne
    | some text =>
      rw [hmodel'] at htext
      exact congrArg some htext

theorem identified_iff_unmistakable (hsha : ∀ a b, sha a = sha b → a = b) (hmade : edge.Made sha) :
    edge.Identified sha ↔ edge.Unmistakable := by
  have htags : ∀ tag ∈ Set.range (fun choice : RouterChoice => choice.debug.toList), nul ∉ tag := by
    rintro tag ⟨choice, rfl⟩
    exact choice_solid choice
  have hunique : ∀ model, edge.model = some model → model ≠ "" →
      (edge.Identified sha ↔ nul ∉ edge.sourceId.toList ∧ nul ∉ edge.targetId.toList ∧
        ∀ tag ∈ Set.range (fun choice : RouterChoice => choice.debug.toList),
          tag ∉ (model.toList.splitOn nul).dropLast) := by
    intro model hmodel hne
    have hrest : edgeRest edge = Seq.tagged nul edge.sourceId.toList edge.targetId.toList
        edge.routerChoice.debug.toList model.toList := by
      unfold edgeRest
      rw [hmodel]
      rfl
    rw [identified_iff_unique hsha hmade hmodel hne, hrest]
    exact Seq.tagged_unique_iff htags ⟨edge.routerChoice, rfl⟩
  constructor
  · intro h
    obtain ⟨model, hmodel, hne⟩ := model_of_identified hsha hmade h
    obtain ⟨hs, ht, hpieces⟩ := (hunique model hmodel hne).mp h
    exact ⟨hs, ht, model, hmodel, hne, fun choice => hpieces _ ⟨choice, rfl⟩⟩
  · rintro ⟨hs, ht, model, hmodel, hne, hpieces⟩
    refine (hunique model hmodel hne).mpr ⟨hs, ht, ?_⟩
    rintro tag ⟨choice, rfl⟩
    exact hpieces choice

end

/-- **When an id identifies its edge.**  It differs from the id of every edge that differs in a
component, exactly if the source and the target have no zero byte in them, and there is a model,
which is not empty and has no route's name before a zero byte.  Two edges with no zero byte in their
sources and targets and no empty model have different ids, if they differ in a component. -/
theorem edge_identified_iff (sha : Sha256Hex) (hsha : ∀ a b, sha a = sha b → a = b)
    (edge : LineageEdge) (hmade : edge.Made sha) :
    (edge.Identified sha ↔ edge.Unmistakable) ∧
      (edge.Plain → ∀ other : LineageEdge, other.Made sha → other.Plain →
        ¬ other.SameComponents edge → other.edgeId ≠ edge.edgeId) := by
  refine ⟨identified_iff_unmistakable hsha hmade, fun hplain other hother hplain' hdiffer hid => ?_⟩
  exact hdiffer (plain_edges_apart hsha hmade hother hplain hplain' hid)

/-! ### edges with and without a model -/

def modelEdge (model : Option String) : LineageEdge :=
  .providerCall hexDigest "key" "message" .cheap model

theorem modelEdge_made (model : Option String) : (modelEdge model).Made hexDigest :=
  ⟨.providerCall, "key", "message", .cheap, model, "key", rfl⟩

theorem named_model_identified : (modelEdge (some "mock")).Identified hexDigest := by
  refine (edge_identified_iff hexDigest (fun _ _ => hexDigest_injective) (modelEdge (some "mock"))
    (modelEdge_made (some "mock"))).1.mpr ⟨by decide, by decide, "mock", rfl, by decide, ?_⟩
  intro choice
  cases choice <;> decide

/-- **An edge without a model and one with an empty model share their id.** -/
theorem empty_model_collides :
    ¬ ∀ sha : Sha256Hex, (∀ a b, sha a = sha b → a = b) →
      ∀ edge other : LineageEdge, edge.Made sha → other.Made sha →
        ¬ other.SameComponents edge → other.edgeId ≠ edge.edgeId := by
  intro h
  apply h hexDigest (fun _ _ => hexDigest_injective) (modelEdge none) (modelEdge (some ""))
    (modelEdge_made none) (modelEdge_made (some ""))
  · intro hsame
    cases hsame.model
  · rfl

end Tokudo
