import Mathlib.Data.List.Basic

/-!
# Words between separators

`Seq.words p l` are the pieces of `l` between the elements that satisfy `p`, the empty ones dropped.

* `mem_words`            a word is not empty and has no separator in it;
* `words_append`         the words on the two sides of a separator;
* `words_intercalate`    words that are joined by a separator are found again.
-/

namespace Seq

variable {α : Type} {p : α → Bool}

def words (p : α → Bool) (l : List α) : List (List α) :=
  (l.splitOnP p).filter fun word => !word.isEmpty

structure IsWord (p : α → Bool) (w : List α) : Prop where
  nonempty : w ≠ []
  solid : ∀ a ∈ w, p a = false

theorem solid_of_mem_splitOnP {l w : List α} (h : w ∈ l.splitOnP p) : ∀ a ∈ w, p a = false := by
  induction l generalizing w with
  | nil =>
    rw [List.splitOnP_nil, List.mem_singleton] at h
    intro a ha
    rw [h] at ha
    cases ha
  | cons x l ih =>
    rw [List.splitOnP_cons_eq_if_modifyHead] at h
    cases hx : p x with
    | true =>
      rw [hx, if_pos rfl] at h
      rcases List.mem_cons.mp h with hw | hw
      · intro a ha
        rw [hw] at ha
        cases ha
      · exact ih hw
    | false =>
      rw [hx, if_neg Bool.false_ne_true] at h
      cases hs : l.splitOnP p with
      | nil => exact absurd hs (List.splitOnP_ne_nil p l)
      | cons head tail =>
        rw [hs, List.modifyHead_cons] at h
        rcases List.mem_cons.mp h with hw | hw
        · intro a ha
          rw [hw] at ha
          rcases List.mem_cons.mp ha with heq | hmem
          · rw [heq, hx]
          · exact ih (by rw [hs]; exact List.mem_cons_self) a hmem
        · exact ih (by rw [hs]; exact List.mem_cons_of_mem _ hw)

theorem mem_words {l w : List α} (h : w ∈ words p l) : IsWord p w := by
  obtain ⟨hmem, hne⟩ := List.mem_filter.mp h
  refine ⟨fun hnil => ?_, solid_of_mem_splitOnP hmem⟩
  rw [hnil] at hne
  cases hne

theorem words_nil : words p [] = [] := rfl

theorem words_of_solid {w : List α} (hw : IsWord p w) : words p w = [w] := by
  unfold words
  rw [List.splitOnP_eq_singleton hw.solid]
  exact List.filter_cons_of_pos (by simpa using hw.nonempty)

theorem words_append (l l' : List α) {sep : α} (hsep : p sep = true) :
    words p (l ++ sep :: l') = words p l ++ words p l' := by
  unfold words
  rw [List.splitOnP_append_cons l l' hsep, List.filter_append]

theorem words_append_cons {w : List α} (hw : IsWord p w) {sep : α} (hsep : p sep = true)
    (l : List α) : words p (w ++ sep :: l) = w :: words p l := by
  rw [words_append w l hsep, words_of_solid hw]
  rfl

/-- **Words that are joined are found again.** -/
theorem words_intercalate {sep : α} (hsep : p sep = true) {ws : List (List α)}
    (h : ∀ w ∈ ws, IsWord p w) : words p ([sep].intercalate ws) = ws := by
  induction ws with
  | nil => exact words_nil
  | cons w ws ih =>
    have hw := h w List.mem_cons_self
    have hws := ih fun v hv => h v (List.mem_cons_of_mem _ hv)
    cases ws with
    | nil =>
      rw [List.intercalate_singleton]
      exact words_of_solid hw
    | cons v ws =>
      rw [List.intercalate_cons_cons, List.append_assoc, List.singleton_append,
        words_append_cons hw hsep, hws]

end Seq
