import Tokudo.Core.Pricing
import Mathlib.Data.List.DropRight
import Mathlib.Data.List.Nodup
import Mathlib.Data.List.TakeWhile

/-!
# Which row a model id resolves to

`pricing.rs`.  `resolve_price` reads an id as `provider:model`, then as `provider/model`, then as a
model of one provider.  The catalog's table is a map from provider and model; `rows` lists it in the
order of the iteration.

* `lookup_eq_some`, `resolveExplicit_eq_some`   an explicit id names a row of the table;
* `findModel_eq_some`                           the scan finds a row if no other has its model;
* `resolvePrice_unambiguous`  **the order of the rows does not matter, an id that names no row
  explicitly resolves to the only row of this model, and `p:m` and `p/m` resolve to the row `p, m`.**
-/

namespace Tokudo

/-! ## the table -/

/-- the rows of a map from provider and model, which are not empty -/
structure PricingTable.IsMap (table : PricingTable) : Prop where
  nodup : (table.rows.map fun row => (row.1, row.2.1)).Nodup
  nonempty : ∀ row ∈ table.rows, row.1 ≠ "" ∧ row.2.1 ≠ ""

/-- no provider contains a delimiter, and no id has whitespace around it -/
structure PricingTable.Spelled (table : PricingTable) : Prop where
  colon : ∀ row ∈ table.rows, ':' ∉ row.1.toList
  slash : ∀ row ∈ table.rows, '/' ∉ row.1.toList
  provider : ∀ row ∈ table.rows, trim row.1 = row.1
  model : ∀ row ∈ table.rows, trim row.2.1 = row.2.1

/-- the row is the only one of this model -/
def PricingTable.Sole (table : PricingTable) (model : String)
    (row : String × String × ModelPrice) : Prop :=
  row ∈ table.rows ∧ row.2.1 = model ∧ ∀ other ∈ table.rows, other.2.1 = model → other = row

/-- the id, split at the first delimiter, is a row of the table -/
def PricingTable.Names (table : PricingTable) (modelId : String) (delimiter : Char)
    (row : String × String × ModelPrice) : Prop :=
  splitOnce modelId delimiter = some (row.1, row.2.1) ∧ row ∈ table.rows

section
variable {table : PricingTable} {provider model modelId : String} {price : ModelPrice}
  {delimiter : Char}

theorem PricingTable.IsMap.rows_nodup (hmap : table.IsMap) : table.rows.Nodup :=
  hmap.nodup.of_map _

theorem PricingTable.IsMap.perm (hmap : table.IsMap) {table' : PricingTable}
    (h : table'.rows.Perm table.rows) : table'.IsMap := by
  constructor
  · exact (h.map _).nodup_iff.mpr hmap.nodup
  · exact fun row hrow => hmap.nonempty row (h.mem_iff.mp hrow)

/-- **An exact lookup finds the row of its key.** -/
theorem lookup_eq_some (hmap : table.IsMap) :
    table.lookup provider model = some price ↔ (provider, model, price) ∈ table.rows := by
  unfold PricingTable.lookup
  constructor
  · intro h
    obtain ⟨⟨p, m, c⟩, hfind, rfl⟩ := Option.map_eq_some_iff.mp h
    have hkey : p = provider ∧ m = model := by simpa using List.find?_some hfind
    obtain ⟨rfl, rfl⟩ := hkey
    exact List.mem_of_find?_eq_some hfind
  · intro hmem
    cases hfind : table.rows.find? fun row => decide (row.1 = provider ∧ row.2.1 = model) with
    | none =>
      have hno := List.find?_eq_none.mp hfind _ hmem
      simp at hno
    | some row =>
      have hkey : row.1 = provider ∧ row.2.1 = model := by simpa using List.find?_some hfind
      have hrow : row = (provider, model, price) :=
        List.inj_on_of_nodup_map hmap.nodup (List.mem_of_find?_eq_some hfind) hmem
          (Prod.ext hkey.1 hkey.2)
      rw [hrow]
      rfl

theorem resolveExplicit_eq_some (hmap : table.IsMap) :
    resolveExplicit table modelId delimiter = some ⟨provider, model, price⟩ ↔
      table.Names modelId delimiter (provider, model, price) := by
  unfold resolveExplicit PricingTable.Names
  cases hsplit : splitOnce modelId delimiter with
  | none => simp
  | some pm =>
    obtain ⟨p, m⟩ := pm
    show (if p = "" ∨ m = "" then none
      else (table.lookup p m).map fun price => (⟨p, m, price⟩ : ResolvedPrice)) = _ ↔ _
    constructor
    · intro h
      split at h
      · cases h
      · obtain ⟨c, hc, heq⟩ := Option.map_eq_some_iff.mp h
        cases heq
        exact ⟨rfl, (lookup_eq_some hmap).mp hc⟩
    · rintro ⟨heq, hmem⟩
      cases heq
      obtain ⟨hp, hm⟩ := hmap.nonempty _ hmem
      rw [if_neg (not_or.mpr ⟨hp, hm⟩), (lookup_eq_some hmap).mpr hmem]
      rfl

theorem resolveExplicit_eq_none (hmap : table.IsMap)
    (h : ∀ row, ¬ table.Names modelId delimiter row) :
    resolveExplicit table modelId delimiter = none := by
  rw [Option.eq_none_iff_forall_ne_some]
  rintro ⟨p, m, c⟩ hsome
  exact h (p, m, c) ((resolveExplicit_eq_some hmap).mp hsome)

end

/-! ## the scan -/

section
variable {rows : List (String × String × ModelPrice)} {trimmed : String}

/-- the rows of this model -/
def ofModel (trimmed : String) (rows : List (String × String × ModelPrice)) :
    List (String × String × ModelPrice) :=
  rows.filter fun row => decide (row.2.1 = trimmed)

theorem findModel_some (found : ResolvedPrice) :
    findModel trimmed rows (some found) =
      if ofModel trimmed rows = [] then some found else none := by
  induction rows with
  | nil => rfl
  | cons row rows ih =>
    obtain ⟨p, m, c⟩ := row
    by_cases hm : m = trimmed
    · rw [findModel, if_neg (not_not_intro hm), ofModel, List.filter_cons_of_pos (by simpa using hm)]
      rfl
    · rw [findModel, if_pos hm, ih, ofModel, ofModel, List.filter_cons_of_neg (by simpa using hm)]

theorem findModel_eq_some (provider model : String) (price : ModelPrice) :
    findModel trimmed rows none = some ⟨provider, model, price⟩ ↔
      ofModel trimmed rows = [(provider, model, price)] := by
  induction rows with
  | nil => simp [findModel, ofModel]
  | cons row rows ih =>
    obtain ⟨p, m, c⟩ := row
    by_cases hm : m = trimmed
    · have hcons : ofModel trimmed ((p, m, c) :: rows) = (p, m, c) :: ofModel trimmed rows :=
        List.filter_cons_of_pos (by simpa using hm)
      rw [hcons, findModel, if_neg (not_not_intro hm)]
      show findModel trimmed rows (some ⟨p, m, c⟩) = _ ↔ _
      rw [findModel_some, List.cons.injEq]
      by_cases hrest : ofModel trimmed rows = []
      · rw [if_pos hrest]
        simp [hrest]
      · rw [if_neg hrest]
        simp [hrest]
    · have hcons : ofModel trimmed ((p, m, c) :: rows) = ofModel trimmed rows :=
        List.filter_cons_of_neg (by simpa using hm)
      rw [hcons, findModel, if_pos hm, ih]

theorem ofModel_eq_singleton {table : PricingTable} (hmap : table.IsMap)
    (row : String × String × ModelPrice) :
    ofModel trimmed table.rows = [row] ↔ table.Sole trimmed row := by
  have hmem : ∀ other, other ∈ ofModel trimmed table.rows ↔
      other ∈ table.rows ∧ other.2.1 = trimmed := by
    intro other
    rw [ofModel, List.mem_filter, decide_eq_true_iff]
  constructor
  · intro h
    obtain ⟨hrow, hmodel⟩ := (hmem row).mp (by rw [h]; exact List.mem_singleton_self row)
    refine ⟨hrow, hmodel, fun other hother heq => ?_⟩
    have hin := (hmem other).mpr ⟨hother, heq⟩
    rw [h] at hin
    exact List.mem_singleton.mp hin
  · rintro ⟨hrow, hmodel, hsole⟩
    have hnodup : (ofModel trimmed table.rows).Nodup := hmap.rows_nodup.filter _
    apply List.perm_singleton.mp
    rw [List.perm_ext_iff_of_nodup hnodup (List.nodup_singleton row)]
    intro other
    rw [hmem, List.mem_singleton]
    constructor
    · rintro ⟨hother, heq⟩
      exact hsole other hother heq
    · rintro rfl
      exact ⟨hrow, hmodel⟩

end

/-! ## a spelled id -/

section
variable {s provider model : String} {delimiter : Char}

theorem trim_eq_self : trim s = s ↔
    (∀ h : 0 < s.toList.length, ¬ isWhitespace s.toList[0]) ∧
      ∀ h : s.toList ≠ [], ¬ isWhitespace (s.toList.getLast h) := by
  have htrim : trim s = String.ofList ((s.toList.dropWhile isWhitespace).rdropWhile isWhitespace) :=
    rfl
  rw [← List.dropWhile_eq_self_iff, ← List.rdropWhile_eq_self_iff, htrim]
  constructor
  · intro h
    have hlist := congrArg String.toList h
    rw [String.toList_ofList] at hlist
    -- both drops leave a part of the list, so neither drops anything
    have hdrop : s.toList.dropWhile isWhitespace = s.toList := by
      apply (List.dropWhile_suffix isWhitespace).eq_of_length_le
      have hle := (List.rdropWhile_prefix isWhitespace
        (l := s.toList.dropWhile isWhitespace)).length_le
      rw [hlist] at hle
      exact hle
    rw [hdrop] at hlist
    exact ⟨hdrop, hlist⟩
  · rintro ⟨hleft, hright⟩
    rw [hleft, hright, String.ofList_toList]

theorem toList_ne_nil (h : s ≠ "") : s.toList ≠ [] := by
  intro hnil
  exact h (String.toList_eq_nil_iff.mp hnil)

/-- the id in which a delimiter stands between a provider and a model -/
def spelling (provider : String) (delimiter : Char) (model : String) : String :=
  provider ++ String.singleton delimiter ++ model

theorem toList_spelling :
    (spelling provider delimiter model).toList =
      provider.toList ++ delimiter :: model.toList := by
  unfold spelling
  simp

theorem trim_spelling (hp : provider ≠ "") (hm : model ≠ "") (hptrim : trim provider = provider)
    (hmtrim : trim model = model) :
    trim (spelling provider delimiter model) = spelling provider delimiter model := by
  obtain ⟨hfirst, -⟩ := trim_eq_self.mp hptrim
  obtain ⟨-, hlast⟩ := trim_eq_self.mp hmtrim
  have hpne := toList_ne_nil hp
  have hmne := toList_ne_nil hm
  rw [trim_eq_self]
  simp only [toList_spelling]
  constructor
  · intro h
    have hpos := List.length_pos_of_ne_nil hpne
    rw [List.getElem_append_left hpos]
    exact hfirst hpos
  · intro h
    rw [List.getLast_append_of_ne_nil _ (List.cons_ne_nil _ _), List.getLast_cons hmne]
    exact hlast hmne

theorem taken_of_notMem {l : List Char} (h : delimiter ∉ l) :
    ∀ c ∈ l, decide (c ≠ delimiter) = true := by
  intro c hc
  exact decide_eq_true fun heq => h (heq ▸ hc)

/-- the text before a delimiter is what is taken -/
theorem splitOnce_spelling (h : delimiter ∉ provider.toList) :
    splitOnce (spelling provider delimiter model) delimiter = some (provider, model) := by
  unfold splitOnce
  rw [toList_spelling, if_pos (List.mem_append_right _ List.mem_cons_self),
    List.takeWhile_append_of_pos (taken_of_notMem h),
    List.dropWhile_append_of_pos (taken_of_notMem h)]
  simp

/-- split at another delimiter, the first part reaches over the first one -/
theorem mem_of_splitOnce_spelling {other : Char} (hne : delimiter ≠ other)
    (h : other ∉ provider.toList) {left right : String}
    (hsplit : splitOnce (spelling provider delimiter model) other = some (left, right)) :
    delimiter ∈ left.toList := by
  unfold splitOnce at hsplit
  split at hsplit
  · obtain ⟨hleft, -⟩ := Prod.mk.inj (Option.some.inj hsplit)
    rw [← hleft, toList_spelling, String.toList_ofList, List.takeWhile_append_of_pos (taken_of_notMem h),
      List.takeWhile_cons_of_pos (by simpa using hne)]
    exact List.mem_append_right _ List.mem_cons_self
  · cases hsplit

theorem spelling_ne_empty : spelling provider delimiter model ≠ "" := by
  intro h
  have hlist := congrArg String.toList h
  rw [toList_spelling] at hlist
  simp at hlist

end

/-! ## resolution -/

section
variable {table table' : PricingTable} {modelId : String}

theorem resolvePrice_of_colon (hmap : table.IsMap) (hne : trim modelId ≠ "")
    {row : String × String × ModelPrice} (h : table.Names (trim modelId) ':' row) :
    resolvePrice table modelId = some ⟨row.1, row.2.1, row.2.2⟩ := by
  unfold resolvePrice
  dsimp only
  rw [(resolveExplicit_eq_some hmap).mpr h]
  exact if_neg hne

theorem resolvePrice_of_slash (hmap : table.IsMap) (hne : trim modelId ≠ "")
    (hcolon : ∀ row, ¬ table.Names (trim modelId) ':' row)
    {row : String × String × ModelPrice} (h : table.Names (trim modelId) '/' row) :
    resolvePrice table modelId = some ⟨row.1, row.2.1, row.2.2⟩ := by
  unfold resolvePrice
  dsimp only
  rw [resolveExplicit_eq_none hmap hcolon, (resolveExplicit_eq_some hmap).mpr h]
  exact if_neg hne

/-- an id that names no row is looked up as a model; a blank one is no model either -/
theorem resolvePrice_of_unnamed (hmap : table.IsMap)
    (h : ∀ d ∈ [':', '/'], ∀ row, ¬ table.Names (trim modelId) d row) :
    resolvePrice table modelId = findModel (trim modelId) table.rows none := by
  unfold resolvePrice
  dsimp only
  rw [resolveExplicit_eq_none hmap (h ':' (by decide)),
    resolveExplicit_eq_none hmap (h '/' (by decide))]
  show (if trim modelId = "" then none else findModel (trim modelId) table.rows none) = _
  split
  · rename_i hblank
    rw [hblank, eq_comm, Option.eq_none_iff_forall_ne_some]
    rintro ⟨p, m, c⟩ hfound
    rw [findModel_eq_some, ofModel_eq_singleton hmap] at hfound
    obtain ⟨hrow, hmodel, -⟩ := hfound
    exact (hmap.nonempty _ hrow).2 hmodel
  · rfl

theorem names_perm (h : table'.rows.Perm table.rows) (modelId : String) (delimiter : Char)
    (row : String × String × ModelPrice) :
    table'.Names modelId delimiter row ↔ table.Names modelId delimiter row := by
  unfold PricingTable.Names
  rw [h.mem_iff]

theorem sole_perm (h : table'.rows.Perm table.rows) (model : String)
    (row : String × String × ModelPrice) : table'.Sole model row ↔ table.Sole model row := by
  unfold PricingTable.Sole
  simp only [h.mem_iff]

theorem resolvePrice_perm (hmap : table.IsMap) (h : table'.rows.Perm table.rows) (modelId : String) :
    resolvePrice table' modelId = resolvePrice table modelId := by
  have hmap' := hmap.perm h
  have hexplicit : ∀ x d, resolveExplicit table' x d = resolveExplicit table x d := by
    intro x d
    apply Option.ext
    rintro ⟨p, m, c⟩
    rw [resolveExplicit_eq_some hmap', resolveExplicit_eq_some hmap, names_perm h]
  have hscan : ∀ x, findModel x table'.rows none = findModel x table.rows none := by
    intro x
    apply Option.ext
    rintro ⟨p, m, c⟩
    rw [findModel_eq_some, findModel_eq_some, ofModel_eq_singleton hmap', ofModel_eq_singleton hmap,
      sole_perm h]
  unfold resolvePrice
  dsimp only
  rw [hexplicit, hexplicit, hscan]

variable {row : String × String × ModelPrice}

theorem resolvePrice_colon (hmap : table.IsMap) (hspelled : table.Spelled) (hrow : row ∈ table.rows) :
    resolvePrice table (spelling row.1 ':' row.2.1) = some ⟨row.1, row.2.1, row.2.2⟩ := by
  obtain ⟨hp, hm⟩ := hmap.nonempty row hrow
  have htrim : trim (spelling row.1 ':' row.2.1) = spelling row.1 ':' row.2.1 :=
    trim_spelling hp hm (hspelled.provider row hrow) (hspelled.model row hrow)
  apply resolvePrice_of_colon hmap
  · rw [htrim]
    exact spelling_ne_empty
  · rw [htrim]
    exact ⟨splitOnce_spelling (hspelled.colon row hrow), hrow⟩

/-- the first part at a colon inside the model contains the slash, so it is no provider -/
theorem resolvePrice_slash (hmap : table.IsMap) (hspelled : table.Spelled) (hrow : row ∈ table.rows) :
    resolvePrice table (spelling row.1 '/' row.2.1) = some ⟨row.1, row.2.1, row.2.2⟩ := by
  obtain ⟨hp, hm⟩ := hmap.nonempty row hrow
  have htrim : trim (spelling row.1 '/' row.2.1) = spelling row.1 '/' row.2.1 :=
    trim_spelling hp hm (hspelled.provider row hrow) (hspelled.model row hrow)
  apply resolvePrice_of_slash hmap
  · rw [htrim]
    exact spelling_ne_empty
  · rw [htrim]
    rintro other ⟨hsplit, hother⟩
    have hmem := mem_of_splitOnce_spelling (by decide) (hspelled.colon row hrow) hsplit
    exact hspelled.slash other hother hmem
  · rw [htrim]
    exact ⟨splitOnce_spelling (hspelled.slash row hrow), hrow⟩

end

/-- **What a model id resolves to.**  In whatever order the table is iterated, the result is the
same; an id that names no row, neither at its first colon nor at its first slash, resolves to a row
exactly if this is the only row of the model; and where no provider contains a delimiter and
nothing is padded, both spellings of a row resolve to that row. -/
theorem resolvePrice_unambiguous (table : PricingTable) (hmap : table.IsMap) (modelId : String) :
    (∀ table' : PricingTable, table'.rows.Perm table.rows →
      resolvePrice table' modelId = resolvePrice table modelId) ∧
    ((∀ d ∈ [':', '/'], ∀ row, ¬ table.Names (trim modelId) d row) →
      ∀ provider model price, resolvePrice table modelId = some ⟨provider, model, price⟩ ↔
        table.Sole (trim modelId) (provider, model, price)) ∧
    (table.Spelled → ∀ row ∈ table.rows,
      resolvePrice table (row.1 ++ ":" ++ row.2.1) = some ⟨row.1, row.2.1, row.2.2⟩ ∧
      resolvePrice table (row.1 ++ "/" ++ row.2.1) = some ⟨row.1, row.2.1, row.2.2⟩) := by
  refine ⟨fun table' h => resolvePrice_perm hmap h modelId, fun h provider model price => ?_,
    fun hspelled row hrow => ⟨?_, ?_⟩⟩
  · rw [resolvePrice_of_unnamed hmap h, findModel_eq_some, ofModel_eq_singleton hmap]
  · exact resolvePrice_colon hmap hspelled hrow
  · exact resolvePrice_slash hmap hspelled hrow

/-! ### a model with both delimiters -/

def flatPrice : ModelPrice := ⟨0, 0, none, none⟩

/-- one model is sold by two providers, another has both delimiters in its name -/
def twoProviders : PricingTable :=
  ⟨[("openai", "gpt", flatPrice), ("azure", "gpt", flatPrice),
    ("openrouter", "meta/llama:free", flatPrice)]⟩

theorem twoProviders_isMap : twoProviders.IsMap := by
  constructor
  · decide
  · decide

theorem slash_before_colon :
    resolvePrice twoProviders " gpt " = none ∧
      resolvePrice twoProviders "openrouter/meta/llama:free" =
        some ⟨"openrouter", "meta/llama:free", flatPrice⟩ := by
  have hspelled : twoProviders.Spelled := ⟨by decide, by decide, by decide, by decide⟩
  obtain ⟨-, hscan, hspellings⟩ := resolvePrice_unambiguous twoProviders twoProviders_isMap " gpt "
  have hunnamed : ∀ d ∈ [':', '/'], ∀ row, ¬ twoProviders.Names (trim " gpt ") d row := by
    have hcolon : splitOnce (trim " gpt ") ':' = none := by decide
    have hslash : splitOnce (trim " gpt ") '/' = none := by decide
    have hwhole : ∀ d ∈ [':', '/'], splitOnce (trim " gpt ") d = none :=
      List.forall_mem_cons.mpr ⟨hcolon, List.forall_mem_singleton.mpr hslash⟩
    intro d hd row hnames
    have hsplit := hnames.1
    rw [hwhole d hd] at hsplit
    cases hsplit
  refine ⟨?_, (hspellings hspelled ("openrouter", "meta/llama:free", flatPrice) (by decide)).2⟩
  rw [Option.eq_none_iff_forall_ne_some]
  rintro ⟨p, m, c⟩ hfound
  obtain ⟨-, -, hsole⟩ := (hscan hunnamed p m c).mp hfound
  have hopenai := hsole ("openai", "gpt", flatPrice) (by decide) (by decide)
  have hazure := hsole ("azure", "gpt", flatPrice) (by decide) (by decide)
  exact absurd (hopenai.trans hazure.symm) (by decide)

end Tokudo
