import Tokudo.Compress.Rendering
import Mathlib.Data.List.Perm.Subperm

/-!
# When the preserved terms are retained

`compress/llmlingua.rs`.  A preserved word beats all others, but the budget of words is a limit for
preserved words as well: if there are more, the first ones are kept and the others are dropped
(`keepOrdinals_of_many`).

`preserved_retained_iff`: **the preserved words of a text are retained exactly if there is room for
them, or the text is left alone.**
-/

namespace Tokudo
open Seq

/-- what `char::is_alphanumeric` says about ASCII -/
def CharTables.Lawful (tables : CharTables) : Prop :=
  ∀ c : Char, c.toNat < 128 → tables.isAlphanumeric c = c.isAlphanum

namespace LlmlinguaCompressor

/-! ## counting tokens -/

section
variable {tables : CharTables} {config : LlmlinguaConfig} {tokens : List Token} {keep : Finset Nat}

theorem Numbered.nodup (h : Numbered tokens) : (tokens.filterMap Token.ordinal).Nodup := by
  rw [h.ordinals]
  exact List.nodup_range

/-- the ordinals increase along the tokens -/
theorem Numbered.increasing (h : Numbered tokens) :
    tokens.Pairwise fun s t => ∀ i, s.ordinal = some i → ∀ j, t.ordinal = some j → i < j := by
  rw [← List.pairwise_filterMap, h.ordinals]
  exact List.pairwise_lt_range

theorem Numbered.isSome_of_preserved (h : Numbered tokens) {t : Token} (ht : t ∈ tokens)
    (hp : t.preserved config = true) : t.ordinal.isSome = true := by
  rw [h.words t ht]
  unfold Token.preserved at hp
  cases hn : t.normalized with
  | none =>
    rw [hn] at hp
    cases hp
  | some normalized => rfl

/-- words with their ordinals in `keep` are no more than `keep` -/
theorem Numbered.length_filter_le (h : Numbered tokens) {q : Token → Bool}
    (hq : ∀ t ∈ tokens, q t = true → ∃ i ∈ keep, t.ordinal = some i) :
    (tokens.filter q).length ≤ keep.card := by
  have hlen : ((tokens.filter q).filterMap Token.ordinal).length = (tokens.filter q).length := by
    rw [List.filterMap_length_eq_length]
    intro t ht
    obtain ⟨hmem, hqt⟩ := List.mem_filter.mp ht
    obtain ⟨i, -, hi⟩ := hq t hmem hqt
    rw [hi]
    rfl
  have hnodup : ((tokens.filter q).filterMap Token.ordinal).Nodup :=
    h.nodup.sublist (List.filter_sublist.filterMap _)
  have hsub : ((tokens.filter q).filterMap Token.ordinal).toFinset ⊆ keep := by
    intro i hi
    obtain ⟨t, ht, hti⟩ := List.mem_filterMap.mp (List.mem_toFinset.mp hi)
    obtain ⟨hmem, hqt⟩ := List.mem_filter.mp ht
    obtain ⟨j, hj, htj⟩ := hq t hmem hqt
    rw [hti] at htj
    cases htj
    exact hj
  rw [← hlen, ← List.toFinset_card_of_nodup hnodup]
  exact Finset.card_le_card hsub

theorem Numbered.countP_dropped (h : Numbered tokens)
    (hsub : ∀ i ∈ keep, i < totalWords tokens) :
    tokens.countP (Token.dropped keep) + keep.card = totalWords tokens := by
  have hpred : Token.dropped keep = fun t =>
      (t.ordinal.map fun i => decide (i ∉ keep)).getD false := by
    funext t
    unfold Token.dropped
    cases t.ordinal with
    | none => rfl
    | some i => rfl
  have hdropped : tokens.countP (Token.dropped keep) =
      (List.range (totalWords tokens)).countP fun i => decide (i ∉ keep) := by
    rw [← h.ordinals, List.countP_filterMap, hpred]
  have hset : ((List.range (totalWords tokens)).filter fun i => decide (i ∈ keep)).toFinset =
      keep := by
    ext i
    rw [List.mem_toFinset, List.mem_filter, List.mem_range, decide_eq_true_eq]
    exact ⟨fun hi => hi.2, fun hi => ⟨hsub i hi, hi⟩⟩
  have hkept : (List.range (totalWords tokens)).countP (fun i => decide (i ∈ keep)) = keep.card := by
    rw [List.countP_eq_length_filter,
      ← List.toFinset_card_of_nodup (List.nodup_range.filter _), hset]
  have hall := List.length_eq_countP_add_countP (fun i => decide (i ∈ keep))
    (l := List.range (totalWords tokens))
  simp only [decide_eq_true_eq] at hall
  rw [List.length_range, hkept] at hall
  rw [hdropped]
  omega

end

/-! ## more preserved words than there is room for -/

/-- the ordinals of the first preserved words -/
def firstPreserved (config : LlmlinguaConfig) (tokens : List Token) (target : Nat) : Finset Nat :=
  (((tokens.filter (Token.preserved config)).take target).filterMap Token.ordinal).toFinset

section
variable {tables : CharTables} {config : LlmlinguaConfig} {tokens : List Token} {target : Nat}

theorem Numbered.card_firstPreserved (h : Numbered tokens)
    (hmany : target ≤ (tokens.filter (Token.preserved config)).length) :
    (firstPreserved config tokens target).card = target := by
  have hsub : ((tokens.filter (Token.preserved config)).take target).Sublist tokens :=
    (List.take_sublist _ _).trans List.filter_sublist
  have hnodup : (((tokens.filter (Token.preserved config)).take target).filterMap
      Token.ordinal).Nodup := h.nodup.sublist (hsub.filterMap _)
  have hlen : (((tokens.filter (Token.preserved config)).take target).filterMap
      Token.ordinal).length = ((tokens.filter (Token.preserved config)).take target).length := by
    rw [List.filterMap_length_eq_length]
    intro t ht
    obtain ⟨hmem, hp⟩ := List.mem_filter.mp (List.mem_of_mem_take ht)
    exact h.isSome_of_preserved hmem hp
  unfold firstPreserved
  rw [List.toFinset_card_of_nodup hnodup, hlen, List.length_take, Nat.min_eq_left hmany]

/-- a word does not stand before itself -/
theorem length_filter_before_lt {t : Token} (ht : t ∈ tokens) {j : Nat} (hj : t.ordinal = some j) :
    (tokens.filter fun s => s.ordinal.any fun i => decide (i < j)).length < tokens.length := by
  rw [List.length_filter_lt_length_iff_exists]
  refine ⟨t, ht, ?_⟩
  rw [hj, Option.any_some, decide_eq_true_eq]
  exact Nat.lt_irrefl j

/-- fewer than `target` preserved words stand before one of the first `target` -/
theorem Numbered.preservedBefore_lt (h : Numbered tokens) {t : Token}
    (ht : t ∈ (tokens.filter (Token.preserved config)).take target) {j : Nat}
    (hj : t.ordinal = some j) : (preservedBefore config tokens j).length < target := by
  have hincreasing := h.increasing.sublist (List.filter_sublist (p := Token.preserved config))
  rw [← List.take_append_drop target (tokens.filter (Token.preserved config)),
    List.pairwise_append] at hincreasing
  have hdrop : ((tokens.filter (Token.preserved config)).drop target).filter
      (fun s => s.ordinal.any fun i => decide (i < j)) = [] := by
    rw [List.filter_eq_nil_iff]
    intro s hs hlt
    obtain ⟨i, hi, hij⟩ := (Option.any_eq_true _ _).mp hlt
    have hji := hincreasing.2.2 t ht s hs j hj i hi
    have hlt := of_decide_eq_true hij
    omega
  have htake := length_filter_before_lt ht hj
  unfold preservedBefore
  rw [← List.take_append_drop target (tokens.filter (Token.preserved config)),
    List.filter_append, hdrop, List.append_nil]
  exact Nat.lt_of_lt_of_le htake (List.length_take_le _ _)

/-- **If there are more preserved words than there is room for, the first ones are kept.** -/
theorem Numbered.keepOrdinals_of_many (h : Numbered tokens) (htarget : target ≤ totalWords tokens)
    (hmany : target ≤ (tokens.filter (Token.preserved config)).length) :
    keepOrdinals tables config tokens (totalWords tokens) target =
      firstPreserved config tokens target := by
  have hsub : firstPreserved config tokens target ⊆
      keepOrdinals tables config tokens (totalWords tokens) target := by
    intro j hj
    obtain ⟨t, ht, htj⟩ := List.mem_filterMap.mp (List.mem_toFinset.mp hj)
    obtain ⟨hmem, hp⟩ := List.mem_filter.mp (List.mem_of_mem_take ht)
    by_contra hdropped
    have hcrowded := h.crowded htarget hmem htj hdropped hp
    have hless := h.preservedBefore_lt ht htj
    omega
  refine (Finset.eq_of_subset_of_card_le hsub ?_).symm
  rw [h.card_keepOrdinals htarget, h.card_firstPreserved hmany]

/-- if there is room for all preserved words, none is dropped -/
theorem Numbered.preserved_kept (h : Numbered tokens) (htarget : target ≤ totalWords tokens)
    (hfew : (tokens.filter (Token.preserved config)).length ≤ target) {t : Token} (ht : t ∈ tokens)
    (hp : t.preserved config = true) :
    t.dropped (keepOrdinals tables config tokens (totalWords tokens) target) = false := by
  unfold Token.dropped
  cases hj : t.ordinal with
  | none => rfl
  | some j =>
    rw [Option.any_some, decide_eq_false_iff_not, not_not]
    by_contra hdropped
    have hcrowded := h.crowded htarget ht hj hdropped hp
    have hless : (preservedBefore config tokens j).length <
        (tokens.filter (Token.preserved config)).length :=
      length_filter_before_lt (List.mem_filter.mpr ⟨ht, hp⟩) hj
    omega

end

/-! ## the length of what is written -/

def nonWords (tokens : List Token) : Nat := (tokens.filter fun token => token.ordinal.isNone).length

theorem length_tokens (tokens : List Token) : tokens.length = totalWords tokens + nonWords tokens := by
  have hsplit := List.length_eq_length_filter_add (l := tokens) fun token => token.ordinal.isSome
  unfold totalWords nonWords
  rw [hsplit]
  simp only [Option.not_isSome]

section
variable {tables : CharTables} {round : ℚ → F32} {config : LlmlinguaConfig} {text : String}

variable (tables round config text) in
/-- the words that are kept, the other tokens, and one mark for each gap -/
theorem length_rendered (htarget : targetWords round config (totalWords (tokenize tables text)) ≤
      totalWords (tokenize tables text)) :
    (rendered tables round config text).length =
      targetWords round config (totalWords (tokenize tables text)) + nonWords (tokenize tables text) +
        runs (Token.dropped (kept tables round config text)) (tokenize tables text) := by
  have h := tokenize_numbered tables text
  have hcard : (kept tables round config text).card =
      targetWords round config (totalWords (tokenize tables text)) := h.card_keepOrdinals htarget
  have hsub : ∀ i ∈ kept tables round config text, i < totalWords (tokenize tables text) := by
    intro i hi
    obtain ⟨t, ht, r, hr, hri⟩ := exists_of_kept hi
    have hmem : i ∈ (tokenize tables text).filterMap Token.ordinal :=
      List.mem_filterMap.mpr ⟨t, ht, by rw [(rank_eq_some hr).1, hri]⟩
    rw [h.ordinals] at hmem
    exact List.mem_range.mp hmem
  have hdropped := h.countP_dropped hsub
  have hlength := (renderTokens_elided (kept tables round config text) (tokenize tables text)).length
  have htokens := length_tokens (tokenize tables text)
  unfold rendered
  omega

end

/-! ## what is retained -/

section
variable (tables : CharTables) (config : LlmlinguaConfig)

/-- the token's normalised form is a term to be preserved -/
def isPreserved (raw : String) : Bool :=
  (normalize tables raw).any fun normalized => decide (normalized ∈ config.preserveTerms)

/-- every preserved token occurs at least as often as before -/
def Retains (text text' : String) : Prop :=
  ∀ w ∈ splitWhitespace text, isPreserved tables config w = true →
    (splitWhitespace text).count w ≤ (splitWhitespace text').count w

/-- the text is too short, or it may keep all its words, or there is room for all preserved words, or
keeping the first ones of them makes the text no shorter -/
def HasRoom (round : ℚ → F32) (text : String) : Prop :=
  let tokens := tokenize tables text
  let total := totalWords tokens
  let target := targetWords round config total
  total < config.minTokens ∨ total ≤ target ∨
    (tokens.filter (Token.preserved config)).length ≤ target ∨
    total ≤ target + nonWords tokens +
      runs (Token.dropped (firstPreserved config tokens target)) tokens

end

section
variable {tables : CharTables} {round : ℚ → F32} {config : LlmlinguaConfig} {text : String}

theorem preserved_eq {t : Token} (ht : t ∈ tokenize tables text) :
    t.preserved config = isPreserved tables config t.text := by
  unfold Token.preserved isPreserved
  rw [(normalized_tokenizeFrom tables ht).1]

/-- a mark is not a word -/
theorem omitted_not_preserved (htables : tables.Lawful) :
    isPreserved tables config omitted = false := by
  have hfilter : (omitted.toList.filter fun c =>
      tables.isAlphanumeric c || c == '_' || c == '-') = [] := by
    rw [List.filter_eq_nil_iff, omitted_toList]
    have hascii : (['[', '.', '.', '.', ']'].all fun c => decide (c.toNat < 128)) = true := by decide
    have hmark : (['[', '.', '.', '.', ']'].all fun c =>
        !(c.isAlphanum || c == '_' || c == '-')) = true := by decide
    intro c hc
    rw [htables c (of_decide_eq_true (List.all_eq_true.mp hascii c hc))]
    simpa using List.all_eq_true.mp hmark c hc
  unfold isPreserved normalize
  rw [hfilter]
  rfl

/-- the preserved tokens that are written are the preserved words that are kept -/
theorem filter_rendered (htables : tables.Lawful) :
    (rendered tables round config text).filter (isPreserved tables config) =
      ((tokenize tables text).filter fun t =>
        t.preserved config && !t.dropped (kept tables round config text)).map Token.text := by
  have helided := renderTokens_elided (kept tables round config text) (tokenize tables text)
  unfold rendered
  rw [helided.filter (omitted_not_preserved htables), List.filter_map, List.filter_filter]
  have hsame : ∀ t ∈ tokenize tables text,
      ((isPreserved tables config ∘ Token.text) t && !t.dropped (kept tables round config text)) =
        (t.preserved config && !t.dropped (kept tables round config text)) := by
    intro t ht
    rw [Function.comp_apply, preserved_eq ht]
  rw [List.filter_congr hsame]

theorem filter_splitWhitespace :
    (splitWhitespace text).filter (isPreserved tables config) =
      ((tokenize tables text).filter (Token.preserved config)).map Token.text := by
  have hsame : ∀ t ∈ tokenize tables text,
      (isPreserved tables config ∘ Token.text) t = t.preserved config := by
    intro t ht
    rw [Function.comp_apply, preserved_eq ht]
  rw [← texts_tokenize tables text, List.filter_map, List.filter_congr hsame]

/-- with room for all preserved words, all of them are written -/
theorem count_rendered (htables : tables.Lawful)
    (htarget : targetWords round config (totalWords (tokenize tables text)) ≤
      totalWords (tokenize tables text))
    (hfew : ((tokenize tables text).filter (Token.preserved config)).length ≤
      targetWords round config (totalWords (tokenize tables text)))
    {w : String} (hw : isPreserved tables config w = true) :
    (rendered tables round config text).count w = (splitWhitespace text).count w := by
  have h := tokenize_numbered tables text
  have hall : ∀ t ∈ tokenize tables text,
      (t.preserved config && !t.dropped (kept tables round config text)) = t.preserved config := by
    intro t ht
    cases hp : t.preserved config with
    | false => rfl
    | true =>
      rw [Bool.true_and]
      exact congrArg not (h.preserved_kept htarget hfew ht hp)
  rw [← List.count_filter hw, filter_rendered htables, List.filter_congr hall,
    ← filter_splitWhitespace, List.count_filter hw]

variable (round config text) in
/-- no more preserved words are written than there is room for -/
theorem length_filter_rendered (htables : tables.Lawful)
    (htarget : targetWords round config (totalWords (tokenize tables text)) ≤
      totalWords (tokenize tables text)) :
    ((rendered tables round config text).filter (isPreserved tables config)).length ≤
      targetWords round config (totalWords (tokenize tables text)) := by
  have h := tokenize_numbered tables text
  have hcard : (kept tables round config text).card =
      targetWords round config (totalWords (tokenize tables text)) := h.card_keepOrdinals htarget
  rw [filter_rendered htables, List.length_map, ← hcard]
  apply h.length_filter_le
  intro t ht hq
  obtain ⟨hp, hkept⟩ := Bool.and_eq_true_iff.mp hq
  unfold Token.dropped at hkept
  cases hj : t.ordinal with
  | none =>
    have hsome := h.isSome_of_preserved ht hp
    rw [hj] at hsome
    cases hsome
  | some j =>
    rw [hj, Option.any_some] at hkept
    exact ⟨j, by simpa using hkept, rfl⟩

/-- if every preserved token occurs at least as often, there are at least as many of them -/
theorem Retains.length_le {text text' : String} (h : Retains tables config text text') :
    ((splitWhitespace text).filter (isPreserved tables config)).length ≤
      ((splitWhitespace text').filter (isPreserved tables config)).length := by
  apply List.Subperm.length_le
  rw [List.subperm_ext_iff]
  intro w hw
  obtain ⟨hmem, hp⟩ := List.mem_filter.mp hw
  rw [List.count_filter hp, List.count_filter hp]
  exact h w hmem hp

theorem retains_self (text : String) : Retains tables config text text := fun _ _ _ => Nat.le_refl _

end

/-- **When the preserved words are retained**: exactly if the text is left alone, or there is room for
all of them. -/
theorem preserved_retained_iff (tables : CharTables) (round : ℚ → F32) (config : LlmlinguaConfig)
    (text : String) (htables : tables.Lawful) :
    Retains tables config text (compressText tables round config text).2 ↔
      HasRoom tables config round text := by
  have hsplit := splitWhitespace_rendered tables round config text
  rw [compressText_eq]
  unfold HasRoom
  dsimp only
  by_cases hmin : totalWords (tokenize tables text) < config.minTokens
  · rw [if_neg fun h => Nat.not_le.mpr hmin h.1]
    exact ⟨fun _ => .inl hmin, fun _ => retains_self text⟩
  by_cases htarget : totalWords (tokenize tables text) ≤
      targetWords round config (totalWords (tokenize tables text))
  · rw [if_neg fun h => Nat.not_le.mpr h.2.1 htarget]
    exact ⟨fun _ => .inr (.inl htarget), fun _ => retains_self text⟩
  have hlt := Nat.lt_of_not_le htarget
  by_cases hfew : ((tokenize tables text).filter (Token.preserved config)).length ≤
      targetWords round config (totalWords (tokenize tables text))
  · refine ⟨fun _ => .inr (.inr (.inl hfew)), fun _ => ?_⟩
    split
    · intro w _ hw
      dsimp only
      rw [hsplit, count_rendered htables (Nat.le_of_lt hlt) hfew hw]
    · exact retains_self text
  -- more preserved words than room: the first ones are kept
  have hkept : kept tables round config text = firstPreserved config (tokenize tables text)
      (targetWords round config (totalWords (tokenize tables text))) :=
    (tokenize_numbered tables text).keepOrdinals_of_many (Nat.le_of_lt hlt)
      (Nat.le_of_lt (Nat.lt_of_not_le hfew))
  have hlength := length_rendered tables round config text (Nat.le_of_lt hlt)
  rw [hkept] at hlength
  by_cases hshort : (rendered tables round config text).length < totalWords (tokenize tables text)
  · rw [if_pos ⟨Nat.le_of_not_lt hmin, hlt, hshort⟩]
    constructor
    · intro hretains
      have hle := hretains.length_le
      rw [hsplit, filter_splitWhitespace, List.length_map] at hle
      have hroom := length_filter_rendered round config text htables (Nat.le_of_lt hlt)
      omega
    · intro hroom
      omega
  · rw [if_neg fun h => hshort h.2.2]
    refine ⟨fun _ => .inr (.inr (.inr ?_)), fun _ => retains_self text⟩
    omega

/-! ### secrets -/

theorem asciiTables_lawful : asciiTables.Lawful := fun _ _ => rfl

theorem one_secret_retained :
    Retains asciiTables halfConfig "keep this secret safe"
      (compressText asciiTables id halfConfig "keep this secret safe").2 :=
  (preserved_retained_iff asciiTables id halfConfig "keep this secret safe" asciiTables_lawful).mpr
    (.inr (.inr (.inl (by decide +kernel))))

/-- **A preserved term is dropped**: of four, two are kept. -/
theorem secrets_dropped :
    compressText asciiTables id halfConfig "secret secret secret secret" =
        (some (4, 3), "secret secret [...]") ∧
      ¬ Retains asciiTables halfConfig "secret secret secret secret"
        (compressText asciiTables id halfConfig "secret secret secret secret").2 := by
  have hkept : kept asciiTables id halfConfig "secret secret secret secret" = {0, 1} := by
    unfold kept keepOrdinals top
    dsimp only
    rw [List.mergeSort_of_pairwise (by decide)]
    decide +kernel
  have hrendered : rendered asciiTables id halfConfig "secret secret secret secret" =
      ["secret", "secret", "[...]"] := by
    unfold rendered
    rw [hkept]
    decide
  have hcompress : compressText asciiTables id halfConfig "secret secret secret secret" =
      (some (4, 3), "secret secret [...]") := by
    rw [compressText_eq, hrendered]
    decide +kernel
  refine ⟨hcompress, fun hretains => ?_⟩
  have hcount := hretains "secret" (by decide) (by decide)
  rw [hcompress] at hcount
  revert hcount
  decide

end LlmlinguaCompressor

end Tokudo
