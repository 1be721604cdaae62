import Tokudo.Compress.Surfaces
import Tokudo.Core.TextSerde

/-!
# A larger target ratio

`compress/llmlingua.rs`, for two configurations that differ in `target_ratio`.  The words that are
kept under the smaller ratio are kept under the larger one, since both are cut from one ranking.
The rest is about the marks: fewer dropped words may need more of them, and a text that would not
get shorter is left alone.

`f32` rounding is the parameter `round`; it is monotone and keeps the zero (`Rounding`).

* `compress_budget_mono`   **a larger ratio never leaves less, of any text of a request.**
-/

namespace Tokudo

namespace LlmlinguaCompressor
open Seq

/-- what is used of `f32` rounding -/
structure Rounding (round : ℚ → F32) : Prop where
  mono : ∀ q r, q ≤ r → round q ≤ round r
  zero : round 0 = 0

/-- the configuration with a ratio of its own -/
def withRatio (config : LlmlinguaConfig) (ratio : F32) : LlmlinguaConfig :=
  { config with targetRatio := ratio }

section
variable {tables : CharTables} {round : ℚ → F32} {config : LlmlinguaConfig} {ratio : F32}

/-! ## the words that are kept -/

theorem targetWords_mono (hround : Rounding round) (hle : config.targetRatio ≤ ratio) (total : Nat) :
    targetWords round config total ≤ targetWords round (withRatio config ratio) total := by
  have hzero : (0 : ℚ) ≤ round total := by
    rw [← hround.zero]
    exact hround.mono _ _ (Nat.cast_nonneg total)
  have hratio : targetRatio round config ≤ targetRatio round (withRatio config ratio) :=
    min_le_min_left _ (max_le_max_left _ hle)
  have hwords : ⌈round (round total * targetRatio round config)⌉ ≤
      ⌈round (round total * targetRatio round (withRatio config ratio))⌉ := by
    apply Int.ceil_le_ceil
    exact hround.mono _ _ (mul_le_mul_of_nonneg_left hratio hzero)
  exact min_le_min_right _ (Int.toNat_le_toNat hwords)

theorem kept_mono (hround : Rounding round) (hle : config.targetRatio ≤ ratio) (text : String) :
    kept tables round config text ⊆ kept tables round (withRatio config ratio) text := by
  intro i hi
  obtain ⟨r, hr, hri⟩ := mem_keepOrdinals.mp hi
  exact mem_keepOrdinals.mpr ⟨r, top_mono (targetWords_mono hround hle _) hr, hri⟩

theorem dropped_anti (hround : Rounding round) (hle : config.targetRatio ≤ ratio) (text : String)
    (token : Token)
    (h : token.dropped (kept tables round (withRatio config ratio) text) = true) :
    token.dropped (kept tables round config text) = true := by
  unfold Token.dropped at h ⊢
  cases ho : token.ordinal with
  | none =>
    rw [ho] at h
    cases h
  | some i =>
    rw [ho, Option.any_some, decide_eq_true_eq] at h
    rw [Option.any_some, decide_eq_true_eq]
    exact fun hi => h (kept_mono hround hle text hi)

theorem length_rendered_mono (hround : Rounding round) (hle : config.targetRatio ≤ ratio)
    (text : String) : (rendered tables round config text).length ≤
      (rendered tables round (withRatio config ratio) text).length := by
  unfold rendered
  rw [renderTokens_eq, renderTokens_eq]
  exact length_elide_le (dropped_anti hround hle text) _ fun h => h

/-! ## a text -/

/-- what is left of a text is no longer than what is left otherwise, and its words are among the
other's, in their order -/
structure Within (text text' : String) : Prop where
  length : (splitWhitespace text).length ≤ (splitWhitespace text').length
  words : ((splitWhitespace text).filter fun w => w ≠ omitted).Sublist
    ((splitWhitespace text').filter fun w => w ≠ omitted)

theorem Within.refl (text : String) : Within text text := ⟨Nat.le_refl _, .refl _⟩

/-- the condition of `compressText_eq` -/
def Rewrites (tables : CharTables) (round : ℚ → F32) (config : LlmlinguaConfig) (text : String) :
    Prop :=
  config.minTokens ≤ totalWords (tokenize tables text) ∧
    targetWords round config (totalWords (tokenize tables text)) <
      totalWords (tokenize tables text) ∧
    (rendered tables round config text).length < totalWords (tokenize tables text)

theorem rewritten_of_rewrites {text : String} (h : Rewrites tables round config text) :
    rewritten tables round config text = " ".intercalate (rendered tables round config text) := by
  unfold rewritten
  rw [compressText_eq]
  exact congrArg Prod.snd (if_pos h)

theorem rewritten_of_not_rewrites {text : String} (h : ¬Rewrites tables round config text) :
    rewritten tables round config text = text := by
  unfold rewritten
  rw [compressText_eq]
  exact congrArg Prod.snd (if_neg h)

theorem Rewrites.of_larger (hround : Rounding round) (hle : config.targetRatio ≤ ratio)
    {text : String} (h : Rewrites tables round (withRatio config ratio) text) :
    Rewrites tables round config text :=
  ⟨h.1, Nat.lt_of_le_of_lt (targetWords_mono hround hle _) h.2.1,
    Nat.lt_of_le_of_lt (length_rendered_mono hround hle text) h.2.2⟩

/-- what a text keeps is among its words -/
theorem rendered_within (text : String) :
    ((rendered tables round config text).filter fun w => w ≠ omitted).Sublist
      ((splitWhitespace text).filter fun w => w ≠ omitted) := by
  have hmark : (decide (omitted ≠ omitted)) = false := decide_eq_false fun h => h rfl
  rw [show rendered tables round config text = renderTokens _ false _ from rfl,
    (renderTokens_elided _ _).filter hmark, ← texts_tokenize tables text]
  exact (List.filter_sublist.map _).filter _

theorem rewritten_within (hround : Rounding round) (hle : config.targetRatio ≤ ratio)
    (text : String) : Within (rewritten tables round config text)
      (rewritten tables round (withRatio config ratio) text) := by
  by_cases hlarge : Rewrites tables round (withRatio config ratio) text
  · have hsmall : Rewrites tables round config text := .of_larger hround hle hlarge
    rw [rewritten_of_rewrites hlarge, rewritten_of_rewrites hsmall]
    refine ⟨?_, ?_⟩
    · rw [splitWhitespace_rendered, splitWhitespace_rendered]
      exact length_rendered_mono hround hle text
    · rw [splitWhitespace_rendered, splitWhitespace_rendered]
      unfold rendered
      rw [renderTokens_eq, renderTokens_eq]
      exact elide_filter_sublist (dropped_anti hround hle text) _ (decide_eq_false fun h => h rfl)
  · rw [rewritten_of_not_rewrites hlarge]
    by_cases hsmall : Rewrites tables round config text
    · rw [rewritten_of_rewrites hsmall]
      refine ⟨?_, ?_⟩
      · have hwords := totalWords_le (tokenize tables text)
        have hlen := hsmall.2.2
        rw [splitWhitespace_rendered, ← texts_tokenize tables text, List.length_map]
        omega
      · rw [splitWhitespace_rendered]
        exact rendered_within text
    · rw [rewritten_of_not_rewrites hsmall]
      exact .refl text

/-! ## a request -/

theorem surfaces_mapSurfaces (g : String → String) (request : CompletionRequest) :
    surfaces (mapSurfaces g request) = (surfaces request).map g := by
  have huser : ∀ item, userTexts (mapUserContent g item) = (userTexts item).map g := by
    intro item
    cases item with
    | text t => rfl
    | other block => rfl
  have hassistant : ∀ item, assistantTexts (mapAssistantContent g item) =
      (assistantTexts item).map g := by
    intro item
    cases item with
    | text t => rfl
    | other block => rfl
  have hmessage : ∀ message, messageTexts (mapMessage g message) = (messageTexts message).map g := by
    intro message
    cases message with
    | system content => rfl
    | user content =>
      show (content.toList.map (mapUserContent g)).flatMap userTexts = _
      rw [List.flatMap_map, funext huser, ← List.map_flatMap]
      rfl
    | assistant id content =>
      show (content.toList.map (mapAssistantContent g)).flatMap assistantTexts = _
      rw [List.flatMap_map, funext hassistant, ← List.map_flatMap]
      rfl
  unfold surfaces
  rw [List.map_append, List.map_append]
  congr 1
  · show (request.preamble.map g).toList = _
    cases request.preamble with
    | none => rfl
    | some preamble => rfl
  · show (request.chatHistory.toList.map (mapMessage g)).flatMap messageTexts ++
      (request.documents.map (mapDocument g)).map Document.text = _
    rw [List.flatMap_map, funext hmessage, ← List.map_flatMap, List.map_map, List.map_map]
    rfl

end

/-- **A larger ratio leaves more.**  Of every text of a request, what is left under the smaller ratio
is no longer, and its words are left under the larger one, in their order.  A request that the smaller
ratio leaves alone is left alone under the larger one. -/
theorem compress_budget_mono {tables : CharTables} {round : ℚ → F32} (hround : Rounding round)
    {config : LlmlinguaConfig} {ratio : F32} (hle : config.targetRatio ≤ ratio)
    (request : CompletionRequest) :
    List.Forall₂ Within (surfaces (compress tables round config request).2)
        (surfaces (compress tables round (withRatio config ratio) request).2) ∧
      ((compress tables round config request).2 = request →
        (compress tables round (withRatio config ratio) request).2 = request) := by
  rw [compress_request, compress_request]
  refine ⟨?_, fun hsame => ?_⟩
  · rw [surfaces_mapSurfaces, surfaces_mapSurfaces, List.forall₂_map_left_iff,
      List.forall₂_map_right_iff, List.forall₂_same]
    exact fun text _ => rewritten_within hround hle text
  · rw [mapSurfaces_eq_self_iff] at hsame ⊢
    intro text htext
    have hsmall : ¬Rewrites tables round config text := by
      intro h
      have hne := rendered_ne tables round config h.2.2
      rw [← rewritten_of_rewrites h] at hne
      exact hne (hsame text htext)
    exact rewritten_of_not_rewrites fun h => hsmall (.of_larger hround hle h)

/-- six words, under two ratios -/
theorem six_words_budget :
    List.Forall₂ Within
        (surfaces (compress asciiTables id halfConfig (promptRequest "b c d e f g")).2)
        (surfaces (compress asciiTables id (withRatio halfConfig (3 / 4))
          (promptRequest "b c d e f g")).2) ∧
      ((compress asciiTables id halfConfig (promptRequest "b c d e f g")).2 =
          promptRequest "b c d e f g" →
        (compress asciiTables id (withRatio halfConfig (3 / 4)) (promptRequest "b c d e f g")).2 =
          promptRequest "b c d e f g") :=
  compress_budget_mono ⟨fun _ _ h => h, rfl⟩ (by norm_num [halfConfig]) _

end LlmlinguaCompressor

end Tokudo
