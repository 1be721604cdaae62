import Mathlib.Data.List.Basic
import Mathlib.Data.List.Nodup

/-!
# The best elements of a list

`Seq.top le n l` are the first `n` elements of `l`, sorted by `le`.

* `top_before_rest`    every element of the list that is not among them comes after each of them;
* `length_top`         there are `n` of them, if the list is long enough;
* `top_mono`           fewer of them are among more of them.
-/

namespace Seq

variable {α : Type} {le : α → α → Bool}

def top (le : α → α → Bool) (n : Nat) (l : List α) : List α := (l.mergeSort le).take n

theorem length_top {n : Nat} {l : List α} (h : n ≤ l.length) : (top le n l).length = n := by
  unfold top
  rw [List.length_take, List.length_mergeSort, Nat.min_eq_left h]

theorem top_subset {n : Nat} {l : List α} {a : α} (h : a ∈ top le n l) : a ∈ l :=
  List.mem_mergeSort.mp (List.mem_of_mem_take h)

theorem top_mono {n m : Nat} (h : n ≤ m) {l : List α} {a : α} (ha : a ∈ top le n l) :
    a ∈ top le m l :=
  (List.take_sublist_take_left h).subset ha

theorem top_before_rest (trans : ∀ a b c, le a b = true → le b c = true → le a c = true)
    (total : ∀ a b, (le a b || le b a) = true) {n : Nat} {l : List α} {a b : α}
    (ha : a ∈ top le n l) (hb : b ∈ l) (hnot : b ∉ top le n l) : le a b = true := by
  have hsorted := List.pairwise_mergeSort trans total l
  rw [← List.take_append_drop n (l.mergeSort le), List.pairwise_append] at hsorted
  have hmem : b ∈ (l.mergeSort le).take n ++ (l.mergeSort le).drop n := by
    rw [List.take_append_drop]
    exact List.mem_mergeSort.mpr hb
  have hrest := (List.mem_append.mp hmem).resolve_left hnot
  exact hsorted.2.2 a ha b hrest

theorem nodup_map_top {β : Type} (f : α → β) (n : Nat) {l : List α} (h : (l.map f).Nodup) :
    ((top le n l).map f).Nodup := by
  have hsort : ((l.mergeSort le).map f).Nodup := ((l.mergeSort_perm le).map f).nodup_iff.mpr h
  exact hsort.sublist ((List.take_sublist n _).map f)

end Seq
