import Mathlib.Data.List.Basic
import Mathlib.Data.Set.Basic

/-!
# Fields that are joined by a delimiter

`Seq.tagged d s t tag rest` are two fields, a tag and the rest, each joined to the next by `d`.  Only
the tag is known to be free of `d`; so what is split off may be more than one field's.

* `splitOn_tagged`       the pieces of the whole are the pieces of the fields, in order;
* `tagged_inj`           where the fields are free of `d`, the whole determines them;
* `tagged_unique_iff`    **no other fields have the same whole, exactly if the two fields are free of
  `d` and no piece of the rest, the last apart, is a tag.**
-/

namespace Seq

variable {α : Type} [DecidableEq α] {d : α}

theorem splitOn_injective {l l' : List α} (h : l.splitOn d = l'.splitOn d) : l = l' := by
  have hback : [d].intercalate (l.splitOn d) = l := List.intercalate_splitOn d
  rw [← hback, h, List.intercalate_splitOn]

theorem eq_of_splitOn_eq_singleton {l piece : List α} (h : l.splitOn d = [piece]) : l = piece := by
  have hback : [d].intercalate (l.splitOn d) = l := List.intercalate_splitOn d
  rw [← hback, h, List.intercalate_singleton]

/-- what stands before the first delimiter -/
theorem append_cons_inj {a b l l' : List α} (ha : d ∉ a) (hb : d ∉ b)
    (h : a ++ d :: l = b ++ d :: l') : a = b ∧ l = l' := by
  have hpieces := congrArg (List.splitOn d) h
  rw [List.splitOn_append_cons_self_of_not_mem ha, List.splitOn_append_cons_self_of_not_mem hb,
    List.cons.injEq] at hpieces
  exact ⟨hpieces.1, splitOn_injective hpieces.2⟩

omit [DecidableEq α] in
theorem intercalate_append {xs ys : List (List α)} (hx : xs ≠ []) (hy : ys ≠ []) :
    [d].intercalate (xs ++ ys) = [d].intercalate xs ++ d :: [d].intercalate ys := by
  induction xs with
  | nil => exact absurd rfl hx
  | cons x xs ih =>
    cases xs with
    | nil =>
      rw [List.singleton_append, List.intercalate_cons_of_ne_nil hy, List.intercalate_singleton]
      simp
    | cons x' xs =>
      have hrest := ih (List.cons_ne_nil x' xs)
      rw [List.cons_append] at hrest
      rw [List.cons_append, List.cons_append, List.intercalate_cons_cons, hrest,
        List.intercalate_cons_cons]
      simp

def tagged (d : α) (s t tag rest : List α) : List α := s ++ d :: (t ++ d :: (tag ++ d :: rest))

variable {s t tag rest s' t' tag' rest' : List α}

omit [DecidableEq α] in
/-- a delimiter in the first field may be taken for the one after it -/
theorem tagged_shift_left (s₁ s₂ : List α) :
    tagged d s₁ (s₂ ++ d :: t) tag rest = tagged d (s₁ ++ d :: s₂) t tag rest := by
  simp [tagged]

omit [DecidableEq α] in
theorem tagged_shift_right (t₁ t₂ : List α) :
    tagged d (s ++ d :: t₁) t₂ tag rest = tagged d s (t₁ ++ d :: t₂) tag rest := by
  simp [tagged]

theorem splitOn_tagged (htag : d ∉ tag) :
    (tagged d s t tag rest).splitOn d =
      s.splitOn d ++ (t.splitOn d ++ tag :: rest.splitOn d) := by
  unfold tagged
  rw [List.splitOn_append_cons_self, List.splitOn_append_cons_self,
    List.splitOn_append_cons_self_of_not_mem htag]

theorem splitOn_tagged_of_solid (hs : d ∉ s) (ht : d ∉ t) (htag : d ∉ tag) :
    (tagged d s t tag rest).splitOn d = s :: t :: tag :: rest.splitOn d := by
  rw [splitOn_tagged htag, List.splitOn_eq_singleton hs, List.splitOn_eq_singleton ht]
  rfl

/-- **Fields free of the delimiter can be read back**, whatever the rest is. -/
theorem tagged_inj (hs : d ∉ s) (ht : d ∉ t) (htag : d ∉ tag) (hs' : d ∉ s') (ht' : d ∉ t')
    (htag' : d ∉ tag') (h : tagged d s t tag rest = tagged d s' t' tag' rest') :
    s = s' ∧ t = t' ∧ tag = tag' ∧ rest = rest' := by
  have hpieces := congrArg (List.splitOn d) h
  rw [splitOn_tagged_of_solid hs ht htag, splitOn_tagged_of_solid hs' ht' htag'] at hpieces
  obtain ⟨h₁, hpieces⟩ := List.cons.inj hpieces
  obtain ⟨h₂, hpieces⟩ := List.cons.inj hpieces
  obtain ⟨h₃, hpieces⟩ := List.cons.inj hpieces
  exact ⟨h₁, h₂, h₃, splitOn_injective hpieces⟩

/-- a tag among the pieces of the rest may be taken for the tag -/
theorem tagged_of_tag_in_rest {xs ys : List (List α)} (hys : ys ≠ [])
    (hrest : rest.splitOn d = xs ++ tag' :: ys) :
    tagged d s (t ++ d :: [d].intercalate (tag :: xs)) tag' ([d].intercalate ys) =
      tagged d s t tag rest := by
  have htail : [d].intercalate (tag' :: ys) = tag' ++ d :: [d].intercalate ys := by
    rw [List.intercalate_cons_of_ne_nil hys]
    simp
  have hwhole : tag ++ d :: rest = [d].intercalate (tag :: xs) ++ d :: (tag' ++ d :: [d].intercalate ys) := by
    rw [← htail, ← intercalate_append (List.cons_ne_nil tag xs) (List.cons_ne_nil tag' ys),
      List.cons_append, ← hrest, List.intercalate_cons_of_ne_nil (List.splitOn_ne_nil d rest),
      List.intercalate_splitOn]
    simp
  unfold tagged
  rw [hwhole]
  simp

omit [DecidableEq α] in
/-- either the pieces before the tag are one for each field, or a piece of the rest is the tag -/
theorem fields_of_pieces {xs ys zs zs' : List (List α)} (hxs : xs ≠ []) (hys : ys ≠ [])
    (hzs : zs ≠ []) (htag' : tag' ∉ zs'.dropLast)
    (h : xs ++ (ys ++ tag' :: zs) = s :: t :: tag :: zs') :
    xs = [s] ∧ ys = [t] ∧ tag' = tag ∧ zs = zs' := by
  have hout : ∀ ws, ws ++ tag' :: zs ≠ zs' := by
    intro ws hws
    apply htag'
    rw [← hws, List.dropLast_append_cons, List.dropLast_cons_of_ne_nil hzs]
    exact List.mem_append_right ws List.mem_cons_self
  obtain ⟨x, xs, rfl⟩ := List.exists_cons_of_ne_nil hxs
  obtain ⟨y, ys, rfl⟩ := List.exists_cons_of_ne_nil hys
  rw [List.cons_append, List.cons.injEq] at h
  obtain ⟨rfl, h⟩ := h
  cases xs with
  | nil =>
    rw [List.nil_append, List.cons_append, List.cons.injEq] at h
    obtain ⟨rfl, h⟩ := h
    cases ys with
    | nil =>
      rw [List.nil_append, List.cons.injEq] at h
      obtain ⟨rfl, rfl⟩ := h
      exact ⟨rfl, rfl, rfl, rfl⟩
    | cons y' ys =>
      rw [List.cons_append, List.cons.injEq] at h
      exact absurd h.2 (hout ys)
  | cons x' xs =>
    rw [List.cons_append, List.cons.injEq] at h
    obtain ⟨-, h⟩ := h
    cases xs with
    | nil =>
      rw [List.nil_append, List.cons_append, List.cons.injEq] at h
      exact absurd h.2 (hout ys)
    | cons x'' xs =>
      rw [List.cons_append, List.cons.injEq, ← List.append_assoc] at h
      exact absurd h.2 (hout _)

/-- **Whether the fields can be read back.**  The tags are free of the delimiter; nothing is known
about the other fields. -/
theorem tagged_unique_iff {T : Set (List α)} (hT : ∀ tag ∈ T, d ∉ tag) (htag : tag ∈ T) :
    (∀ s' t' tag' rest', tag' ∈ T → tagged d s' t' tag' rest' = tagged d s t tag rest →
      s' = s ∧ t' = t ∧ tag' = tag ∧ rest' = rest) ↔
    d ∉ s ∧ d ∉ t ∧ ∀ tag' ∈ T, tag' ∉ (rest.splitOn d).dropLast := by
  constructor
  · intro h
    refine ⟨fun hs => ?_, fun ht => ?_, fun tag' htag' hin => ?_⟩
    · obtain ⟨s₁, s₂, rfl⟩ := List.append_of_mem hs
      obtain ⟨hshort, -⟩ := h _ _ tag rest htag (tagged_shift_left s₁ s₂)
      have hlength := congrArg List.length hshort
      simp at hlength
    · obtain ⟨t₁, t₂, rfl⟩ := List.append_of_mem ht
      obtain ⟨hlong, -⟩ := h _ _ tag rest htag (tagged_shift_right t₁ t₂)
      have hlength := congrArg List.length hlong
      simp at hlength
    · obtain ⟨xs, ys, hsplit⟩ := List.append_of_mem hin
      have hlast := List.dropLast_concat_getLast (List.splitOn_ne_nil d rest)
      rw [hsplit, List.append_assoc, List.cons_append] at hlast
      obtain ⟨-, hlong, -⟩ := h s _ tag' _ htag' (tagged_of_tag_in_rest (by simp) hlast.symm)
      have hlength := congrArg List.length hlong
      simp at hlength
  · rintro ⟨hs, ht, hrest⟩ s' t' tag' rest' htag' h
    have hpieces := congrArg (List.splitOn d) h
    rw [splitOn_tagged_of_solid hs ht (hT tag htag), splitOn_tagged (hT tag' htag')] at hpieces
    obtain ⟨h₁, h₂, h₃, h₄⟩ := fields_of_pieces (List.splitOn_ne_nil d s') (List.splitOn_ne_nil d t')
      (List.splitOn_ne_nil d rest') (hrest tag' htag') hpieces
    exact ⟨eq_of_splitOn_eq_singleton h₁, eq_of_splitOn_eq_singleton h₂, h₃, splitOn_injective h₄⟩

end Seq
