import Tokudo.Compress.Llmlingua

/-!
# Which words are kept

`compress/llmlingua.rs`.  The tokens of a text are numbered: its words get the ordinals `0`, `1`, and
so on (`tokenize_numbered`).  `keepOrdinals` takes the best of them.

`keepOrdinals_best`: **no word that is dropped is better than one that is kept, and a preserved word
is dropped only if there are too many before it.**
-/

namespace Tokudo
open Seq

namespace LlmlinguaCompressor

/-! ## the tokens of a text -/

/-- the words, and only they, have ordinals: in the order of the text, without a gap -/
structure Numbered (tokens : List Token) : Prop where
  words : ∀ t ∈ tokens, t.ordinal.isSome = t.normalized.isSome
  ordinals : tokens.filterMap Token.ordinal = List.range (totalWords tokens)

section
variable (tables : CharTables)

theorem texts_tokenizeFrom (ordinal : Nat) (raws : List String) :
    (tokenizeFrom tables ordinal raws).map Token.text = raws := by
  induction raws generalizing ordinal with
  | nil => rfl
  | cons raw raws ih =>
    unfold tokenizeFrom
    cases normalize tables raw with
    | none => exact congrArg (raw :: ·) (ih ordinal)
    | some normalized => exact congrArg (raw :: ·) (ih (ordinal + 1))

theorem texts_tokenize (text : String) :
    (tokenize tables text).map Token.text = splitWhitespace text :=
  texts_tokenizeFrom tables 0 _

theorem normalized_tokenizeFrom {ordinal : Nat} {raws : List String} {t : Token}
    (ht : t ∈ tokenizeFrom tables ordinal raws) :
    t.normalized = normalize tables t.text ∧ t.ordinal.isSome = t.normalized.isSome := by
  induction raws generalizing ordinal with
  | nil => cases ht
  | cons raw raws ih =>
    unfold tokenizeFrom at ht
    cases hn : normalize tables raw with
    | none =>
      rw [hn] at ht
      rcases List.mem_cons.mp ht with h | h
      · rw [h]
        exact ⟨hn.symm, rfl⟩
      · exact ih h
    | some normalized =>
      rw [hn] at ht
      rcases List.mem_cons.mp ht with h | h
      · rw [h]
        exact ⟨hn.symm, rfl⟩
      · exact ih h

theorem ordinals_tokenizeFrom (ordinal : Nat) (raws : List String) :
    (tokenizeFrom tables ordinal raws).filterMap Token.ordinal =
      List.range' ordinal (totalWords (tokenizeFrom tables ordinal raws)) := by
  induction raws generalizing ordinal with
  | nil => rfl
  | cons raw raws ih =>
    unfold tokenizeFrom
    cases normalize tables raw with
    | none => exact ih ordinal
    | some normalized =>
      show ordinal :: (tokenizeFrom tables (ordinal + 1) raws).filterMap Token.ordinal = _
      rw [ih (ordinal + 1)]
      rfl

theorem tokenize_numbered (text : String) : Numbered (tokenize tables text) where
  words t ht := (normalized_tokenizeFrom tables ht).2
  ordinals := by
    rw [List.range_eq_range']
    exact ordinals_tokenizeFrom tables 0 _

end

/-! ## scores -/

/-- the word is one of the terms to be preserved -/
def Token.preserved (config : LlmlinguaConfig) (token : Token) : Bool :=
  token.normalized.any fun normalized => decide (normalized ∈ config.preserveTerms)

section
variable {tables : CharTables} {config : LlmlinguaConfig} {tokens : List Token} {total : Nat}

theorem ite_add_le (p : Prop) [Decidable p] {score bound : Int} (bonus : Int) (hb : 0 ≤ bonus)
    (h : score ≤ bound) : (if p then score + bonus else score) ≤ bound + bonus := by
  split
  · omega
  · omega

theorem ite_sub_le (p : Prop) [Decidable p] {score bound : Int} (malus : Int) (hm : 0 ≤ malus)
    (h : score ≤ bound) : (if p then score - malus else score) ≤ bound := by
  split
  · omega
  · omega

/-- the bonuses of a word that is not preserved add up to less than the score of one that is -/
theorem scoreToken_le {original normalized : String} {ordinal : Nat}
    (h : normalized ∉ config.preserveTerms) :
    scoreToken tables config original normalized ordinal total ≤ 123 := by
  unfold scoreToken
  rw [if_neg h]
  have hsalient := ite_add_le (normalized ∈ config.salientTerms) 100 (by omega) (Int.le_refl 1)
  have hstructural := ite_add_le (isStructuralWord normalized = true) 12 (by omega) hsalient
  have hlong := ite_add_le (7 ≤ normalized.toList.length) 3 (by omega) hstructural
  have hnumeric := ite_add_le (original.toList.any tables.isNumeric = true) 2 (by omega) hlong
  have hupper := ite_add_le (original.toList.head?.any tables.isUppercase = true) 1 (by omega) hnumeric
  have hedge := ite_add_le (ordinal < 12 ∨ total - ordinal ≤ 12) 4 (by omega) hupper
  exact ite_sub_le (isStopword normalized = true) 2 (by omega) hedge

theorem rank_eq_some {t : Token} {r : RankedToken} (h : rank tables config total t = some r) :
    t.ordinal = some r.ordinal ∧
      (t.preserved config = true → r.score = 10000) ∧
      (t.preserved config = false → r.score ≤ 123) := by
  unfold rank at h
  unfold Token.preserved
  cases ho : t.ordinal with
  | none =>
    rw [ho] at h
    cases h
  | some ordinal =>
    cases hn : t.normalized with
    | none =>
      rw [ho, hn] at h
      cases h
    | some normalized =>
      rw [ho, hn] at h
      cases h
      refine ⟨rfl, fun hp => ?_, fun hp => ?_⟩
      · exact if_pos (of_decide_eq_true hp)
      · exact scoreToken_le (of_decide_eq_false hp)

theorem Numbered.rank_ordinal (h : Numbered tokens) {t : Token} (ht : t ∈ tokens) :
    (rank tables config total t).map RankedToken.ordinal = t.ordinal := by
  have hw := h.words t ht
  unfold rank
  cases ho : t.ordinal with
  | none => rfl
  | some ordinal =>
    cases hn : t.normalized with
    | none =>
      rw [ho, hn] at hw
      cases hw
    | some normalized => rfl

variable (tables config total) in
theorem Numbered.rank_of_ordinal (h : Numbered tokens) {t : Token} (ht : t ∈ tokens) {i : Nat}
    (hi : t.ordinal = some i) : ∃ r, rank tables config total t = some r ∧ r.ordinal = i := by
  have hr : (rank tables config total t).map RankedToken.ordinal = t.ordinal := h.rank_ordinal ht
  rw [hi] at hr
  exact Option.map_eq_some_iff.mp hr

theorem Numbered.ranked_ordinals (h : Numbered tokens) :
    (tokens.filterMap (rank tables config total)).map RankedToken.ordinal =
      List.range (totalWords tokens) := by
  rw [List.map_filterMap, ← h.ordinals]
  exact List.filterMap_congr fun t ht => h.rank_ordinal ht

end

/-! ## the best words -/

theorem rankedBefore_iff {left right : RankedToken} : rankedBefore left right = true ↔
    right.score < left.score ∨ right.score = left.score ∧ left.ordinal ≤ right.ordinal := by
  unfold rankedBefore
  rw [decide_eq_true_eq, eq_comm]

theorem rankedBefore_trans (a b c : RankedToken) (hab : rankedBefore a b = true)
    (hbc : rankedBefore b c = true) : rankedBefore a c = true := by
  rw [rankedBefore_iff] at hab hbc ⊢
  omega

theorem rankedBefore_total (a b : RankedToken) : (rankedBefore a b || rankedBefore b a) = true := by
  rw [Bool.or_eq_true, rankedBefore_iff, rankedBefore_iff]
  omega

section
variable {tables : CharTables} {config : LlmlinguaConfig} {tokens : List Token}
  {total target : Nat}

theorem mem_keepOrdinals {i : Nat} : i ∈ keepOrdinals tables config tokens total target ↔
    ∃ r ∈ top rankedBefore target (tokens.filterMap (rank tables config total)), r.ordinal = i := by
  unfold keepOrdinals
  rw [List.mem_toFinset, List.mem_map]

theorem Numbered.card_keepOrdinals (h : Numbered tokens) (htarget : target ≤ totalWords tokens) :
    (keepOrdinals tables config tokens total target).card = target := by
  have hranked : ((tokens.filterMap (rank tables config total)).map RankedToken.ordinal).Nodup := by
    rw [h.ranked_ordinals]
    exact List.nodup_range
  have hlen : (tokens.filterMap (rank tables config total)).length = totalWords tokens := by
    rw [← List.length_map (f := RankedToken.ordinal), h.ranked_ordinals, List.length_range]
  unfold keepOrdinals
  rw [List.toFinset_card_of_nodup (nodup_map_top _ target hranked), List.length_map,
    length_top (by rw [hlen]; exact htarget)]

/-- two words with the same ordinal are the same word -/
theorem Numbered.rank_inj (h : Numbered tokens) {r r' : RankedToken}
    (hr : r ∈ tokens.filterMap (rank tables config total))
    (hr' : r' ∈ tokens.filterMap (rank tables config total)) (heq : r.ordinal = r'.ordinal) :
    r = r' := by
  apply List.inj_on_of_nodup_map _ hr hr' heq
  rw [h.ranked_ordinals]
  exact List.nodup_range

/-- a word that is kept comes before one that is dropped -/
theorem Numbered.kept_before_dropped (h : Numbered tokens) {s t : Token} {r r' : RankedToken}
    (hs : s ∈ tokens) (hr : rank tables config total s = some r)
    (ht : t ∈ tokens) (hr' : rank tables config total t = some r')
    (hkept : r.ordinal ∈ keepOrdinals tables config tokens total target)
    (hdropped : r'.ordinal ∉ keepOrdinals tables config tokens total target) :
    r'.score < r.score ∨ r'.score = r.score ∧ r.ordinal < r'.ordinal := by
  have hmem : r ∈ tokens.filterMap (rank tables config total) := List.mem_filterMap.mpr ⟨s, hs, hr⟩
  have hmem' : r' ∈ tokens.filterMap (rank tables config total) :=
    List.mem_filterMap.mpr ⟨t, ht, hr'⟩
  obtain ⟨u, hu, hur⟩ := mem_keepOrdinals.mp hkept
  have hru : r = u := h.rank_inj hmem (top_subset hu) hur.symm
  have hnot : r' ∉ top rankedBefore target (tokens.filterMap (rank tables config total)) :=
    fun hin => hdropped (mem_keepOrdinals.mpr ⟨r', hin, rfl⟩)
  have hbefore := rankedBefore_iff.mp
    (top_before_rest rankedBefore_trans rankedBefore_total hu hmem' hnot)
  rw [← hru] at hbefore
  have hne : r.ordinal ≠ r'.ordinal := fun heq => hdropped (heq ▸ hkept)
  omega

theorem exists_of_kept {i : Nat}
    (hi : i ∈ keepOrdinals tables config tokens total target) :
    ∃ t ∈ tokens, ∃ r, rank tables config total t = some r ∧ r.ordinal = i := by
  obtain ⟨r, hr, hri⟩ := mem_keepOrdinals.mp hi
  obtain ⟨t, ht, htr⟩ := List.mem_filterMap.mp (top_subset hr)
  exact ⟨t, ht, r, htr, hri⟩

/-- a preserved word is dropped only after other preserved words, all of them before it -/
theorem Numbered.kept_of_dropped_preserved (h : Numbered tokens) {t : Token} (ht : t ∈ tokens)
    {j : Nat} (hj : t.ordinal = some j) (hpreserved : t.preserved config = true)
    (hdropped : j ∉ keepOrdinals tables config tokens total target) {s : Token} (hs : s ∈ tokens)
    {i : Nat} (hi : s.ordinal = some i)
    (hkept : i ∈ keepOrdinals tables config tokens total target) :
    s.preserved config = true ∧ i < j := by
  obtain ⟨r, hr, hri⟩ := h.rank_of_ordinal tables config total hs hi
  obtain ⟨r', hr', hrj⟩ := h.rank_of_ordinal tables config total ht hj
  obtain ⟨-, hscore, hsmall⟩ := rank_eq_some hr
  obtain ⟨-, hscore', -⟩ := rank_eq_some hr'
  have hbefore := h.kept_before_dropped hs hr ht hr' (hri ▸ hkept) (hrj ▸ hdropped)
  have htop : r'.score = 10000 := hscore' hpreserved
  have hs' : s.preserved config = true := by
    by_contra hnot
    have hle := hsmall (Bool.eq_false_of_not_eq_true hnot)
    omega
  have heq : r.score = 10000 := hscore hs'
  exact ⟨hs', by omega⟩

end

/-! ## what is kept -/

/-- the preserved words before an ordinal -/
def preservedBefore (config : LlmlinguaConfig) (tokens : List Token) (j : Nat) : List Token :=
  (tokens.filter (Token.preserved config)).filter fun t => t.ordinal.any fun i => decide (i < j)

/-- `keep` is a choice of the `target` best words; preserved words are better than all others -/
structure BestWords (tables : CharTables) (config : LlmlinguaConfig) (tokens : List Token)
    (target : Nat) (keep : Finset Nat) : Prop where
  card : keep.card = target
  words : ∀ i ∈ keep, ∃ t ∈ tokens, t.ordinal = some i
  /-- the kept word scores no less, and among equals it is the earlier one -/
  best : ∀ s ∈ tokens, ∀ t ∈ tokens, ∀ r r',
    rank tables config (totalWords tokens) s = some r →
    rank tables config (totalWords tokens) t = some r' → r.ordinal ∈ keep → r'.ordinal ∉ keep →
    r'.score ≤ r.score ∧ (r'.score = r.score → r.ordinal < r'.ordinal)
  /-- a preserved word is not dropped for another one -/
  favoured : ∀ s ∈ tokens, ∀ t ∈ tokens, ∀ i j, s.ordinal = some i → t.ordinal = some j →
    i ∈ keep → j ∉ keep → t.preserved config = true → s.preserved config = true
  /-- a preserved word is dropped only after enough others -/
  crowded : ∀ t ∈ tokens, ∀ j, t.ordinal = some j → j ∉ keep → t.preserved config = true →
    target ≤ (preservedBefore config tokens j).length

section
variable {tables : CharTables} {config : LlmlinguaConfig} {tokens : List Token} {target : Nat}

theorem Numbered.crowded (h : Numbered tokens) (htarget : target ≤ totalWords tokens) {t : Token}
    (ht : t ∈ tokens) {j : Nat} (hj : t.ordinal = some j)
    (hdropped : j ∉ keepOrdinals tables config tokens (totalWords tokens) target)
    (hpreserved : t.preserved config = true) :
    target ≤ (preservedBefore config tokens j).length := by
  have hsub : keepOrdinals tables config tokens (totalWords tokens) target ⊆
      ((preservedBefore config tokens j).filterMap Token.ordinal).toFinset := by
    intro i hi
    obtain ⟨s, hs, r, hr, hri⟩ := exists_of_kept hi
    have hsi : s.ordinal = some i := by
      rw [(rank_eq_some hr).1, hri]
    obtain ⟨hsp, hij⟩ := h.kept_of_dropped_preserved ht hj hpreserved hdropped hs hsi hi
    rw [List.mem_toFinset, List.mem_filterMap]
    refine ⟨s, List.mem_filter.mpr ⟨List.mem_filter.mpr ⟨hs, hsp⟩, ?_⟩, hsi⟩
    rw [hsi, Option.any_some]
    exact decide_eq_true hij
  calc target = (keepOrdinals tables config tokens (totalWords tokens) target).card :=
        (h.card_keepOrdinals htarget).symm
    _ ≤ ((preservedBefore config tokens j).filterMap Token.ordinal).toFinset.card :=
        Finset.card_le_card hsub
    _ ≤ ((preservedBefore config tokens j).filterMap Token.ordinal).length :=
        List.toFinset_card_le _
    _ ≤ (preservedBefore config tokens j).length := List.length_filterMap_le _ _

end

/-- **The best words are kept**: no word that is dropped scores higher than one that is kept, among
equals the earlier one is kept, and a preserved word is dropped only if the words before it leave
no room. -/
theorem keepOrdinals_best (tables : CharTables) (config : LlmlinguaConfig) (text : String)
    (target : Nat) (hless : target < totalWords (tokenize tables text)) :
    let tokens := tokenize tables text
    BestWords tables config tokens target
      (keepOrdinals tables config tokens (totalWords tokens) target) := by
  intro tokens
  have h : Numbered tokens := tokenize_numbered tables text
  have hle : target ≤ totalWords tokens := Nat.le_of_lt hless
  constructor
  · exact h.card_keepOrdinals hle
  · intro i hi
    obtain ⟨t, ht, r, hr, hri⟩ := exists_of_kept hi
    exact ⟨t, ht, by rw [(rank_eq_some hr).1, hri]⟩
  · intro s hs t ht r r' hr hr' hkept hdropped
    have hbefore := h.kept_before_dropped hs hr ht hr' hkept hdropped
    omega
  · intro s hs t ht i j hi hj hkept hdropped hpreserved
    exact (h.kept_of_dropped_preserved ht hj hpreserved hdropped hs hi hkept).1
  · intro t ht j hj hdropped hpreserved
    exact h.crowded hle ht hj hdropped hpreserved

/-! ### four words -/

def asciiTables : CharTables where
  isAlphanumeric := Char.isAlphanum
  toLowercase c := [c.toLower]
  isNumeric := Char.isDigit
  isUppercase := Char.isUpper

def halfConfig : LlmlinguaConfig where
  targetRatio := 1 / 2
  minTokens := 0
  preserveTerms := {"secret"}
  salientTerms := ∅

/-- of a stopword, a preserved word, a word and a number, the second and the last are kept -/
theorem two_of_four_best :
    keepOrdinals asciiTables halfConfig (tokenize asciiTables "the secret plan 7") 4 2 = {1, 3} ∧
      BestWords asciiTables halfConfig (tokenize asciiTables "the secret plan 7") 2
        (keepOrdinals asciiTables halfConfig (tokenize asciiTables "the secret plan 7") 4 2) := by
  have hranked : (tokenize asciiTables "the secret plan 7").filterMap
      (rank asciiTables halfConfig 4) = [⟨0, 3⟩, ⟨1, 10000⟩, ⟨2, 5⟩, ⟨3, 7⟩] := rfl
  refine ⟨?_, keepOrdinals_best asciiTables halfConfig "the secret plan 7" 2 (by decide)⟩
  unfold keepOrdinals top
  dsimp only
  rw [hranked]
  simp [List.mergeSort, List.MergeSort.Internal.splitInTwo, rankedBefore]

end LlmlinguaCompressor

end Tokudo
