import Tokudo.Compress.Selection
import Tokudo.Seq.Elide
import Tokudo.Seq.Words

/-!
# What a compressed text looks like

`compress/llmlingua.rs`.  The loop of `renderCompressed` is `Seq.elide`: it collapses the maximal
runs of words that are dropped.  The tokens of the text that it joins are the ones it wrote.

`compressText_renders`: **the tokens of the new text are those of the old one, with each maximal run
of words that are dropped replaced by one mark.**
-/

namespace Tokudo
open Seq

/-! ## splitting at whitespace -/

theorem mem_splitWhitespace {text w : String} (h : w ∈ splitWhitespace text) :
    IsWord isWhitespace w.toList := by
  obtain ⟨cs, hcs, hw⟩ := List.mem_map.mp h
  rw [← hw, String.toList_ofList]
  exact mem_words hcs

/-- the words of a text of words are these words -/
theorem splitWhitespace_intercalate {ws : List String}
    (h : ∀ w ∈ ws, IsWord isWhitespace w.toList) : splitWhitespace (" ".intercalate ws) = ws := by
  have hwords : words isWhitespace ([' '].intercalate (ws.map String.toList)) =
      ws.map String.toList := by
    apply words_intercalate (by decide)
    intro cs hcs
    obtain ⟨w, hw, hcs⟩ := List.mem_map.mp hcs
    rw [← hcs]
    exact h w hw
  show (words isWhitespace (" ".intercalate ws).toList).map String.ofList = ws
  have hspace : " ".toList = [' '] := rfl
  rw [String.toList_intercalate, hspace, hwords, List.map_map]
  have hid : (String.ofList ∘ String.toList) = id := funext fun w => String.ofList_toList
  rw [hid, List.map_id]

namespace LlmlinguaCompressor

/-! ## the loop -/

/-- the token is a word that is not kept -/
def Token.dropped (keep : Finset Nat) (token : Token) : Bool :=
  token.ordinal.any fun i => decide (i ∉ keep)

theorem renderTokens_eq (keep : Finset Nat) (eliding : Bool) (tokens : List Token) :
    renderTokens keep eliding tokens =
      elide (Token.dropped keep) Token.text omitted eliding tokens := by
  induction tokens generalizing eliding with
  | nil => rfl
  | cons token tokens ih =>
    unfold renderTokens
    rw [elide]
    cases ho : token.ordinal with
    | none =>
      have hkept : token.dropped keep = false := by rw [Token.dropped, ho]; rfl
      rw [if_neg (Bool.eq_false_iff.mp hkept)]
      exact congrArg (token.text :: ·) (ih false)
    | some i =>
      have hdropped : token.dropped keep = decide (i ∉ keep) := by rw [Token.dropped, ho]; rfl
      show (if i ∈ keep then _ else _) = _
      by_cases hi : i ∈ keep
      · rw [hdropped, decide_eq_false (not_not_intro hi), if_neg Bool.false_ne_true, if_pos hi, ih]
      · rw [hdropped, decide_eq_true hi, if_pos rfl, if_neg hi, ih]

theorem renderTokens_elided (keep : Finset Nat) (tokens : List Token) :
    Elided (Token.dropped keep) Token.text omitted tokens (renderTokens keep false tokens) := by
  rw [renderTokens_eq]
  exact (elide_elided tokens).1

section
variable (tables : CharTables)

theorem isWord_of_mem_tokenize {text : String} {t : Token} (ht : t ∈ tokenize tables text) :
    IsWord isWhitespace t.text.toList := by
  have hmem : t.text ∈ (tokenize tables text).map Token.text := List.mem_map_of_mem ht
  rw [texts_tokenize] at hmem
  exact mem_splitWhitespace hmem

theorem omitted_toList : omitted.toList = ['[', '.', '.', '.', ']'] := rfl

theorem omitted_isWord : IsWord isWhitespace omitted.toList := by
  rw [omitted_toList]
  have hsolid : (['[', '.', '.', '.', ']'].all fun c => !isWhitespace c) = true := by decide
  refine ⟨List.cons_ne_nil _ _, fun c hc => ?_⟩
  simpa using List.all_eq_true.mp hsolid c hc

theorem splitWhitespace_renderCompressed (text : String) (keep : Finset Nat) :
    splitWhitespace (renderCompressed (tokenize tables text) keep) =
      renderTokens keep false (tokenize tables text) := by
  apply splitWhitespace_intercalate
  intro w hw
  rcases (renderTokens_elided keep (tokenize tables text)).mem hw with hmark | ⟨t, ht, heq⟩
  · rw [hmark]
    exact omitted_isWord
  · rw [heq]
    exact isWord_of_mem_tokenize tables ht

end

/-! ## a text -/

section
variable (tables : CharTables) (round : ℚ → F32) (config : LlmlinguaConfig)

/-- the ordinals of the words of a text that are kept -/
def kept (text : String) : Finset Nat :=
  let tokens := tokenize tables text
  keepOrdinals tables config tokens (totalWords tokens) (targetWords round config (totalWords tokens))

/-- the tokens that are written -/
def rendered (text : String) : List String :=
  renderTokens (kept tables round config text) false (tokenize tables text)

theorem totalWords_le (tokens : List Token) : totalWords tokens ≤ tokens.length :=
  List.length_filter_le _ _

theorem splitWhitespace_rendered (text : String) :
    splitWhitespace (" ".intercalate (rendered tables round config text)) =
      rendered tables round config text :=
  splitWhitespace_renderCompressed tables text _

/-- a shorter text is another text -/
theorem rendered_ne {text : String}
    (hlen : (rendered tables round config text).length < totalWords (tokenize tables text)) :
    " ".intercalate (rendered tables round config text) ≠ text := by
  intro heq
  have hsplit := splitWhitespace_rendered tables round config text
  rw [heq, ← texts_tokenize tables text] at hsplit
  have hle := totalWords_le (tokenize tables text)
  rw [← hsplit, List.length_map] at hlen
  omega

/-- the text is rewritten if it is long enough and gets shorter, and otherwise left alone -/
theorem compressText_eq (text : String) :
    compressText tables round config text =
      if config.minTokens ≤ totalWords (tokenize tables text) ∧
          targetWords round config (totalWords (tokenize tables text)) <
            totalWords (tokenize tables text) ∧
          (rendered tables round config text).length < totalWords (tokenize tables text) then
        (some (totalWords (tokenize tables text), (rendered tables round config text).length),
          " ".intercalate (rendered tables round config text))
      else (none, text) := by
  have hsplit := splitWhitespace_rendered tables round config text
  have hcompressed : renderCompressed (tokenize tables text) (kept tables round config text) =
      " ".intercalate (rendered tables round config text) := rfl
  unfold compressText
  dsimp only
  rw [show keepOrdinals tables config _ _ _ = kept tables round config text from rfl, hcompressed,
    hsplit]
  by_cases hmin : totalWords (tokenize tables text) < config.minTokens
  · rw [if_pos hmin, if_neg fun h => Nat.not_le.mpr hmin h.1]
  by_cases htarget : totalWords (tokenize tables text) ≤
      targetWords round config (totalWords (tokenize tables text))
  · rw [if_neg hmin, if_pos htarget, if_neg fun h => Nat.not_le.mpr h.2.1 htarget]
  by_cases hlen : totalWords (tokenize tables text) ≤ (rendered tables round config text).length
  · rw [if_neg hmin, if_neg htarget, if_pos (.inl hlen), if_neg fun h => Nat.not_le.mpr h.2.2 hlen]
  have hne := rendered_ne tables round config (Nat.lt_of_not_le hlen)
  rw [if_neg hmin, if_neg htarget, if_neg fun h => h.elim hlen hne,
    if_pos ⟨Nat.le_of_not_lt hmin, Nat.lt_of_not_le htarget, Nat.lt_of_not_le hlen⟩]

end

/-- **What a compressed text looks like.**  If `compressText` returns counts, the tokens of the new
text are those of the old one, with each maximal run of words that are dropped replaced by one
mark; the counts are the words before and the tokens after, and there are fewer.  Otherwise the
text is unchanged. -/
theorem compressText_renders (tables : CharTables) (round : ℚ → F32) (config : LlmlinguaConfig)
    (text : String) :
    let tokens := tokenize tables text
    let result := compressText tables round config text
    tokens.map Token.text = splitWhitespace text ∧
    (∀ n m, result.1 = some (n, m) →
      Elided (Token.dropped (kept tables round config text)) Token.text omitted tokens
          (splitWhitespace result.2) ∧
        n = totalWords tokens ∧ m = (splitWhitespace result.2).length ∧ m < n) ∧
    (result.1 = none → result.2 = text) := by
  intro tokens result
  have hsplit := splitWhitespace_rendered tables round config text
  have hresult : result = _ := compressText_eq tables round config text
  refine ⟨texts_tokenize tables text, fun n m hsome => ?_, fun hnone => ?_⟩
  · rw [hresult] at hsome ⊢
    split at hsome
    · rename_i h
      cases hsome
      rw [if_pos h]
      dsimp only
      rw [hsplit]
      exact ⟨renderTokens_elided _ tokens, rfl, rfl, h.2.2⟩
    · cases hsome
  · rw [hresult] at hnone ⊢
    split at hnone
    · cases hnone
    · rename_i h
      rw [if_neg h]

/-! ### four words -/

theorem kept_four : kept asciiTables id halfConfig "b c d e" = {0, 1} := by
  unfold kept keepOrdinals top
  dsimp only
  rw [List.mergeSort_of_pairwise (by decide)]
  decide +kernel

theorem compressText_four :
    (compressText asciiTables id halfConfig "b c d e").1 = some (4, 3) := by
  have hrendered : rendered asciiTables id halfConfig "b c d e" = ["b", "c", "[...]"] := by
    unfold rendered
    rw [kept_four]
    decide
  rw [compressText_eq, hrendered]
  decide +kernel

theorem four_words_rendered :
    Elided (Token.dropped (kept asciiTables id halfConfig "b c d e")) Token.text omitted
        (tokenize asciiTables "b c d e")
        (splitWhitespace (compressText asciiTables id halfConfig "b c d e").2) ∧
      3 = (splitWhitespace (compressText asciiTables id halfConfig "b c d e").2).length := by
  have h := (compressText_renders asciiTables id halfConfig "b c d e").2.1 4 3 compressText_four
  exact ⟨h.1, h.2.2.1⟩

end LlmlinguaCompressor

end Tokudo
