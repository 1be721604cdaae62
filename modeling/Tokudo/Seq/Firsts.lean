import Mathlib.Data.List.Induction
import Mathlib.Data.Finset.Card
import Mathlib.Algebra.BigOperators.Group.List.Basic

/-!
# First occurrences

Some elements of a list have a key.  `Seq.distinct key l` are the different keys; each has a first
occurrence.

* `distinct_le_countP`   if every first occurrence counts, at least that many elements count;
* `countP_le_distinct`   if nothing but a first occurrence counts, at most that many do;
* `repeats_add_distinct` the elements with a key are the first occurrences and the repeats;
* `sum_marked`           a sum that weighs repeats differently from the rest differs from the plain
                         sum by the repeats alone.
-/

namespace Seq

variable {α κ : Type} [DecidableEq κ] {key : α → Option κ} {counts : α → Bool} {l : List α}

def distinct (key : α → Option κ) (l : List α) : Nat := (l.filterMap key).toFinset.card

theorem distinct_of_none {a : α} (h : key a = none) (l : List α) :
    distinct key (l ++ [a]) = distinct key l := by
  unfold distinct
  rw [List.filterMap_append, List.filterMap_cons_none h, List.filterMap_nil, List.append_nil]

theorem distinct_of_some {a : α} {k : κ} (h : key a = some k) (l : List α) :
    distinct key (l ++ [a]) = (insert k (l.filterMap key).toFinset).card := by
  unfold distinct
  rw [List.filterMap_append, List.filterMap_cons_some h, List.filterMap_nil, List.toFinset_append,
    Finset.union_comm]
  rfl

theorem distinct_of_old {a : α} {k : κ} (h : key a = some k) (hold : k ∈ l.filterMap key) :
    distinct key (l ++ [a]) = distinct key l := by
  rw [distinct_of_some h, Finset.insert_eq_of_mem (List.mem_toFinset.mpr hold)]
  rfl

theorem distinct_of_new {a : α} {k : κ} (h : key a = some k) (hnew : k ∉ l.filterMap key) :
    distinct key (l ++ [a]) = distinct key l + 1 := by
  rw [distinct_of_some h, Finset.card_insert_of_notMem fun hm => hnew (List.mem_toFinset.mp hm)]
  rfl

theorem distinct_le_countP (h : ∀ xs a ys k, l = xs ++ a :: ys → key a = some k →
    k ∉ xs.filterMap key → counts a = true) : distinct key l ≤ l.countP counts := by
  induction l using List.reverseRecOn with
  | nil => exact Nat.le_refl 0
  | append_singleton l a ih =>
    have hl : distinct key l ≤ l.countP counts := by
      apply ih
      rintro xs b ys k rfl
      exact h xs b (ys ++ [a]) k (by rw [List.append_assoc, List.cons_append])
    rw [List.countP_append]
    cases hk : key a with
    | none =>
      rw [distinct_of_none hk]
      omega
    | some k =>
      by_cases hm : k ∈ l.filterMap key
      · rw [distinct_of_old hk hm]
        omega
      · rw [distinct_of_new hk hm, List.countP_singleton, if_pos (h l a [] k rfl hk hm)]
        omega

theorem countP_le_distinct (h : ∀ xs a ys, l = xs ++ a :: ys → counts a = true →
    ∃ k, key a = some k ∧ k ∉ xs.filterMap key) : l.countP counts ≤ distinct key l := by
  induction l using List.reverseRecOn with
  | nil => exact Nat.le_refl 0
  | append_singleton l a ih =>
    have hl : l.countP counts ≤ distinct key l := by
      apply ih
      rintro xs b ys rfl
      exact h xs b (ys ++ [a]) (by rw [List.append_assoc, List.cons_append])
    rw [List.countP_append, List.countP_singleton]
    by_cases ha : counts a = true
    · obtain ⟨k, hk, hnew⟩ := h l a [] rfl ha
      rw [if_pos ha, distinct_of_new hk hnew]
      omega
    · rw [if_neg ha]
      cases hk : key a with
      | none =>
        rw [distinct_of_none hk]
        exact hl
      | some k =>
        by_cases hm : k ∈ l.filterMap key
        · rw [distinct_of_old hk hm]
          exact hl
        · rw [distinct_of_new hk hm]
          omega

/-! ## repeats -/

/-- the key of the element is among those that were seen -/
def isOld (key : α → Option κ) (seen : List κ) (a : α) : Bool :=
  match key a with
  | none => false
  | some k => decide (k ∈ seen)

def seenAfter (key : α → Option κ) (seen : List κ) (a : α) : List κ := (key a).toList ++ seen

/-- the elements in order, marked if their key was seen before -/
def marked (key : α → Option κ) (seen : List κ) : List α → List (α × Bool)
  | [] => []
  | a :: l => (a, isOld key seen a) :: marked key (seenAfter key seen a) l

/-- the elements whose key was seen before -/
def repeats (key : α → Option κ) (seen : List κ) (l : List α) : List α :=
  ((marked key seen l).filter Prod.snd).map Prod.fst

theorem marked_fst (key : α → Option κ) (seen : List κ) (l : List α) :
    (marked key seen l).map Prod.fst = l := by
  induction l generalizing seen with
  | nil => rfl
  | cons a l ih => rw [marked, List.map_cons, ih]

theorem repeats_length (key : α → Option κ) (seen : List κ) (l : List α) :
    (repeats key seen l).length = (marked key seen l).countP Prod.snd := by
  rw [repeats, List.length_map, List.countP_eq_length_filter]

theorem repeats_add_distinct (key : α → Option κ) (l : List α) :
    (repeats key [] l).length + distinct key l = (l.filterMap key).length := by
  -- what was seen before counts as distinct from the start
  have hseen (seen : List κ) : (repeats key seen l).length +
      (seen ++ l.filterMap key).toFinset.card = (l.filterMap key).length + seen.toFinset.card := by
    induction l generalizing seen with
    | nil =>
      rw [List.filterMap_nil, List.append_nil]
      rfl
    | cons a l ih =>
      have hrest := ih (seenAfter key seen a)
      rw [repeats_length] at hrest ⊢
      rw [marked, List.countP_cons]
      unfold seenAfter isOld at *
      cases hk : key a with
      | none =>
        rw [hk] at hrest
        rw [List.filterMap_cons_none hk, if_neg Bool.false_ne_true]
        exact hrest
      | some k =>
        rw [hk] at hrest
        have hset : (seen ++ k :: l.filterMap key).toFinset =
            ([k] ++ seen ++ l.filterMap key).toFinset := by
          ext x
          simp
        rw [List.filterMap_cons_some hk, hset, List.length_cons]
        change _ + ([k] ++ seen ++ l.filterMap key).toFinset.card = _ at hrest
        by_cases hm : k ∈ seen
        · have hcard : ([k] ++ seen).toFinset.card = seen.toFinset.card := by
            rw [List.singleton_append, List.toFinset_cons,
              Finset.insert_eq_of_mem (List.mem_toFinset.mpr hm)]
          simp only [hm, decide_true, if_true]
          simp only [Option.toList_some] at hrest ⊢
          omega
        · have hcard : ([k] ++ seen).toFinset.card = seen.toFinset.card + 1 := by
            rw [List.singleton_append, List.toFinset_cons,
              Finset.card_insert_of_notMem fun h => hm (List.mem_toFinset.mp h)]
          simp only [hm, decide_false, Bool.false_eq_true, if_false]
          simp only [Option.toList_some] at hrest ⊢
          omega
  exact hseen []

/-- **Only the repeats make a difference.** -/
theorem sum_marked {M : Type} [AddCommMonoid M] (first again : α → M) (key : α → Option κ)
    (seen : List κ) (l : List α) :
    ((marked key seen l).map fun x => if x.2 then again x.1 else first x.1).sum +
        ((repeats key seen l).map first).sum =
      (l.map first).sum + ((repeats key seen l).map again).sum := by
  induction l generalizing seen with
  | nil => rfl
  | cons a l ih =>
    have hrest := ih (seenAfter key seen a)
    unfold repeats at hrest ⊢
    rw [marked, List.map_cons, List.sum_cons, List.map_cons, List.sum_cons]
    cases ho : isOld key seen a with
    | false =>
      rw [List.filter_cons_of_neg (by exact Bool.false_ne_true), add_assoc, add_assoc, hrest]
      rfl
    | true =>
      rw [List.filter_cons_of_pos rfl, List.map_cons, List.map_cons, List.sum_cons, List.map_cons,
        List.sum_cons, if_pos rfl, add_add_add_comm, hrest]
      exact (congrArg (· + _) (add_comm (again a) (first a))).trans (add_add_add_comm _ _ _ _)

end Seq
