import Tokudo.Store.Ledger
import Mathlib.Data.List.Basic
import Mathlib.Data.List.Nodup

/-!
# A bounded list of pairs in insertion order

`Fifo κ ν bound` is a list of (key, value) pairs, oldest first, with no key twice and, if there
is a bound, no more pairs than the bound: both facts are fields.

* `Fifo.put k v`          nothing for bound `0`; in place if `k` is there; otherwise at the end, and
                          then the head is dropped while the list is longer than the bound;
* `Fifo.get expired k`    the value of `k`; a value that is expired is removed and not returned.

`put_lossy`, `get_lossy`: the two operations as `Store.Lossy` steps.
`lookup_put_of_room`, `lookup_put_of_full`: a `put` loses the head of a full list, and nothing else.
-/

namespace Store

variable {α κ ν : Type}

/-! ## dropping heads -/

def trim (m : Nat) : List α → List α
  | [] => []
  | x :: xs => if m < (x :: xs).length then trim m xs else x :: xs

theorem trim_suffix (m : Nat) (l : List α) : trim m l <:+ l := by
  induction l with
  | nil => exact List.suffix_refl _
  | cons x xs ih =>
    unfold trim
    split
    · exact ih.trans (List.suffix_cons x xs)
    · exact List.suffix_refl _

theorem trim_length (m : Nat) (l : List α) : (trim m l).length ≤ m := by
  induction l with
  | nil => exact Nat.zero_le m
  | cons x xs ih =>
    unfold trim
    split
    · exact ih
    · exact Nat.le_of_not_lt ‹_›

theorem trim_of_le {m : Nat} {l : List α} (h : l.length ≤ m) : trim m l = l := by
  cases l with
  | nil => rfl
  | cons x xs => exact if_neg (Nat.not_lt.mpr h)

theorem trim_of_full {m : Nat} {x : α} {xs : List α} (h : xs.length = m) : trim m (x :: xs) = xs := by
  have hlt : m < (x :: xs).length := by
    rw [List.length_cons, h]
    exact Nat.lt_succ_self m
  rw [trim, if_pos hlt]
  exact trim_of_le (Nat.le_of_eq h)

/-! ## lookups in a list without repeated keys -/

section
variable [DecidableEq κ]

theorem lookup_iff_mem {l : List (κ × ν)} (h : (l.map Prod.fst).Nodup) (k : κ) (v : ν) :
    l.lookup k = some v ↔ (k, v) ∈ l := by
  induction l with
  | nil => simp
  | cons p l ih =>
    obtain ⟨k', v'⟩ := p
    rw [List.map_cons, List.nodup_cons] at h
    rw [List.lookup_cons]
    by_cases hk : k = k'
    · subst hk
      have hn : (k, v) ∉ l := fun hm => h.1 (List.mem_map.mpr ⟨(k, v), hm, rfl⟩)
      simp only [beq_self_eq_true, Option.some.injEq, List.mem_cons, Prod.mk.injEq,
        true_and, hn, or_false, eq_comm]
    · simp only [beq_eq_false_iff_ne.mpr hk, ih h.2, List.mem_cons, Prod.mk.injEq, hk, false_and,
        false_or]

theorem lookup_none_iff {l : List (κ × ν)} {k : κ} :
    l.lookup k = none ↔ k ∉ l.map Prod.fst := by
  rw [List.lookup_eq_none_iff, List.mem_map]
  constructor
  · rintro h ⟨p, hp, rfl⟩
    simpa using h p hp
  · intro h p hp
    rw [bne_iff_ne]
    rintro rfl
    exact h ⟨p, hp, rfl⟩

def replaceAt (k : κ) (v : ν) (l : List (κ × ν)) : List (κ × ν) :=
  l.map fun p => if p.1 = k then (k, v) else p

theorem replaceAt_keys (k : κ) (v : ν) (l : List (κ × ν)) :
    (replaceAt k v l).map Prod.fst = l.map Prod.fst := by
  rw [replaceAt, List.map_map]
  refine List.map_congr_left fun p _ => ?_
  show (if p.1 = k then (k, v) else p).1 = p.1
  split
  · exact Eq.symm ‹_›
  · rfl

theorem replaceAt_cons (k : κ) (v : ν) (p : κ × ν) (l : List (κ × ν)) :
    replaceAt k v (p :: l) = (if p.1 = k then (k, v) else p) :: replaceAt k v l := rfl

theorem lookup_replaceAt_self {k : κ} (v : ν) {l : List (κ × ν)} (hk : k ∈ l.map Prod.fst) :
    (replaceAt k v l).lookup k = some v := by
  induction l with
  | nil => simp at hk
  | cons p l ih =>
    rw [replaceAt_cons]
    by_cases hp : p.1 = k
    · rw [if_pos hp, List.lookup_cons_self]
    · rw [List.map_cons, List.mem_cons] at hk
      rw [if_neg hp, List.lookup_cons, beq_eq_false_iff_ne.mpr (Ne.symm hp)]
      exact ih (hk.resolve_left (Ne.symm hp))

theorem lookup_replaceAt_ne {k k' : κ} (h : k' ≠ k) (v : ν) (l : List (κ × ν)) :
    (replaceAt k v l).lookup k' = l.lookup k' := by
  induction l with
  | nil => rfl
  | cons p l ih =>
    obtain ⟨j, u⟩ := p
    rw [replaceAt_cons, List.lookup_cons]
    by_cases hj : j = k
    · subst hj
      rw [if_pos rfl, List.lookup_cons, ih, beq_eq_false_iff_ne.mpr h]
    · rw [if_neg hj, List.lookup_cons, ih]

theorem lookup_filter_ne (k : κ) (l : List (κ × ν)) (k' : κ) :
    (l.filter fun p => decide (p.1 ≠ k)).lookup k' = if k' = k then none else l.lookup k' := by
  induction l with
  | nil => simp
  | cons p l ih =>
    obtain ⟨j, u⟩ := p
    rw [List.filter_cons, List.lookup_cons]
    by_cases hj : j = k
    · subst hj
      rw [if_neg (by simp), ih]
      by_cases hk : k' = j
      · simp [hk]
      · simp [hk, beq_eq_false_iff_ne.mpr hk]
    · rw [if_pos (by simpa using hj), List.lookup_cons, ih]
      by_cases hk : k' = j
      · have hkk : ¬ k' = k := fun h => hj (hk.symm.trans h)
        simp [hk, hj]
      · simp [beq_eq_false_iff_ne.mpr hk]

end

/-! ## the store -/

/-- pairs in insertion order: no key twice, never more than the bound -/
structure Fifo (κ ν : Type) (bound : Option Nat) where
  entries : List (κ × ν)
  nodup : (entries.map Prod.fst).Nodup
  short : ∀ m, bound = some m → entries.length ≤ m

namespace Fifo
variable {bound : Option Nat}

def empty (bound : Option Nat) : Fifo κ ν bound := ⟨[], List.nodup_nil, fun m _ => Nat.zero_le m⟩

def keys (l : Fifo κ ν bound) : List κ := l.entries.map Prod.fst

variable [DecidableEq κ]

def lookup (l : Fifo κ ν bound) (k : κ) : Option ν := l.entries.lookup k

theorem lookup_eq_none {l : Fifo κ ν bound} {k : κ} : l.lookup k = none ↔ k ∉ l.keys :=
  lookup_none_iff

theorem lookup_of_zero (l : Fifo κ ν bound) (h : bound = some 0) (k : κ) : l.lookup k = none := by
  have hl : l.entries = [] := List.length_eq_zero_iff.mp (Nat.le_zero.mp (l.short 0 h))
  show l.entries.lookup k = none
  rw [hl]
  rfl

def overwrite (k : κ) (v : ν) (l : Fifo κ ν bound) : Fifo κ ν bound where
  entries := replaceAt k v l.entries
  nodup := by rw [replaceAt_keys]; exact l.nodup
  short := fun m hm => by rw [replaceAt, List.length_map]; exact l.short m hm

/-- the list a new key leaves: at the end, and then heads dropped down to the bound -/
def appended (bound : Option Nat) (k : κ) (v : ν) (l : List (κ × ν)) : List (κ × ν) :=
  match bound with
  | none => l ++ [(k, v)]
  | some m => trim m (l ++ [(k, v)])

omit [DecidableEq κ] in
theorem appended_suffix (k : κ) (v : ν) (l : List (κ × ν)) :
    appended bound k v l <:+ l ++ [(k, v)] := by
  cases bound with
  | none => exact List.suffix_refl _
  | some m => exact trim_suffix m _

omit [DecidableEq κ] in
theorem nodup_snoc {k : κ} {v : ν} {l : List (κ × ν)} (hn : (l.map Prod.fst).Nodup)
    (hk : k ∉ l.map Prod.fst) : ((l ++ [(k, v)]).map Prod.fst).Nodup := by
  rw [List.map_append, List.map_singleton]
  exact List.nodup_append.mpr ⟨hn, List.nodup_singleton k, fun a ha b hb => by
    rw [List.mem_singleton.mp hb]
    rintro rfl
    exact hk ha⟩

def append (k : κ) (v : ν) (l : Fifo κ ν bound) (hk : k ∉ l.keys) : Fifo κ ν bound where
  entries := appended bound k v l.entries
  nodup := (nodup_snoc l.nodup hk).sublist ((appended_suffix k v l.entries).sublist.map _)
  short := by
    rintro m rfl
    exact trim_length m _

def put (k : κ) (v : ν) (l : Fifo κ ν bound) : Fifo κ ν bound :=
  if bound = some 0 then l
  else if hk : k ∈ l.keys then l.overwrite k v
  else l.append k v hk

def remove (k : κ) (l : Fifo κ ν bound) : Fifo κ ν bound where
  entries := l.entries.filter fun p => decide (p.1 ≠ k)
  nodup := l.nodup.sublist ((List.filter_sublist).map _)
  short := fun m hm => Nat.le_trans (List.length_filter_le _ _) (l.short m hm)

def get (expired : ν → Bool) (k : κ) (l : Fifo κ ν bound) : Option ν × Fifo κ ν bound :=
  match l.lookup k with
  | none => (none, l)
  | some v => if expired v then (none, l.remove k) else (some v, l)

/-! ## what the operations do to lookups -/

theorem lookup_overwrite {k : κ} {v : ν} {l : Fifo κ ν bound} (hk : k ∈ l.keys) (k' : κ) :
    (l.overwrite k v).lookup k' = if k' = k then some v else l.lookup k' := by
  show (replaceAt k v l.entries).lookup k' = _
  by_cases h : k' = k
  · rw [if_pos h, h]
    exact lookup_replaceAt_self v hk
  · rw [if_neg h]
    exact lookup_replaceAt_ne h v l.entries

theorem lookup_remove (k : κ) (l : Fifo κ ν bound) (k' : κ) :
    (l.remove k).lookup k' = if k' = k then none else l.lookup k' :=
  lookup_filter_ne k l.entries k'

theorem lookup_append_imp {k : κ} {v : ν} {l : Fifo κ ν bound} {hk : k ∉ l.keys} {k' : κ} {v' : ν}
    (h : (l.append k v hk).lookup k' = some v') :
    (k' = k ∧ v' = v) ∨ (k' ≠ k ∧ l.lookup k' = some v') := by
  have hm : (k', v') ∈ appended bound k v l.entries := (lookup_iff_mem (l.append k v hk).nodup k' v').mp h
  rcases List.mem_append.mp ((appended_suffix k v l.entries).subset hm) with h₁ | h₁
  · refine .inr ⟨?_, (lookup_iff_mem l.nodup k' v').mpr h₁⟩
    rintro rfl
    exact hk (List.mem_map.mpr ⟨(k', v'), h₁, rfl⟩)
  · rw [List.mem_singleton, Prod.mk.injEq] at h₁
    exact .inl h₁

theorem get_of_none {expired : ν → Bool} {k : κ} {l : Fifo κ ν bound} (h : l.lookup k = none) :
    l.get expired k = (none, l) := by
  unfold get
  rw [h]

theorem get_of_some {expired : ν → Bool} {k : κ} {v : ν} {l : Fifo κ ν bound}
    (h : l.lookup k = some v) :
    l.get expired k = if expired v then (none, l.remove k) else (some v, l) := by
  unfold get
  rw [h]

theorem lookup_get (expired : ν → Bool) (k : κ) (l : Fifo κ ν bound) (k' : κ) :
    (l.get expired k).2.lookup k' =
      if k' = k ∧ (l.lookup k).any expired = true then none else l.lookup k' := by
  cases hl : l.lookup k with
  | none =>
    rw [get_of_none hl, if_neg (fun h => Bool.false_ne_true h.2)]
  | some u =>
    rw [get_of_some hl]
    cases he : expired u with
    | true =>
      show (l.remove k).lookup k' = _
      rw [lookup_remove]
      by_cases h : k' = k
      · rw [if_pos h, if_pos ⟨h, he⟩]
      · rw [if_neg h, if_neg (fun hh => h hh.1)]
    | false =>
      have hn : ¬ (k' = k ∧ (some u).any expired = true) := fun h =>
        Bool.false_ne_true (he.symm.trans h.2)
      rw [if_neg hn]
      rfl

theorem put_lossy (k : κ) (v : ν) (l : Fifo κ ν bound) :
    Lossy (some (k, v)) l.lookup (l.put k v).lookup := by
  intro k' v' h
  unfold put at h
  by_cases h0 : bound = some 0
  · rw [if_pos h0, l.lookup_of_zero h0] at h
    cases h
  · rw [if_neg h0] at h
    by_cases hk : k ∈ l.keys
    · rw [dif_pos hk, lookup_overwrite hk] at h
      by_cases hkk : k' = k
      · rw [if_pos hkk] at h
        cases h
        exact .inl (by rw [hkk])
      · rw [if_neg hkk] at h
        exact .inr ⟨h, fun u hu => hkk (by cases hu; rfl)⟩
    · rw [dif_neg hk] at h
      rcases lookup_append_imp h with ⟨rfl, rfl⟩ | ⟨hkk, h⟩
      · exact .inl rfl
      · exact .inr ⟨h, fun u hu => hkk (by cases hu; rfl)⟩

theorem lookup_snoc (l : List (κ × ν)) {k : κ} (v : ν) (hk : k ∉ l.map Prod.fst) (k' : κ) :
    (l ++ [(k, v)]).lookup k' = if k' = k then some v else l.lookup k' := by
  rw [List.lookup_append, List.lookup_cons, List.lookup_nil]
  by_cases h : k' = k
  · have hn : l.lookup k' = none := by
      rw [h]
      exact lookup_none_iff.mpr hk
    rw [if_pos h, hn, h, beq_self_eq_true]
    rfl
  · rw [if_neg h, beq_eq_false_iff_ne.mpr h]
    exact Option.or_none

/-- while there is room, `put` writes and loses nothing -/
theorem lookup_put_of_room {m : Nat} {l : Fifo κ ν (some m)} {k : κ}
    (h : k ∈ l.keys ∧ 0 < m ∨ l.keys.length < m) (v : ν) (k' : κ) :
    (l.put k v).lookup k' = if k' = k then some v else l.lookup k' := by
  have h0 : ¬ some m = some 0 := by
    intro h0
    have hm := Option.some.inj h0
    omega
  unfold put
  rw [if_neg h0]
  by_cases hk : k ∈ l.keys
  · rw [dif_pos hk]
    exact lookup_overwrite hk k'
  · have hroom : l.keys.length < m := h.resolve_left fun hh => hk hh.1
    have hlen : (l.entries ++ [(k, v)]).length ≤ m := by
      rw [keys, List.length_map] at hroom
      rw [List.length_append]
      exact hroom
    rw [dif_neg hk]
    show (trim m (l.entries ++ [(k, v)])).lookup k' = _
    rw [trim_of_le hlen]
    exact lookup_snoc l.entries v hk k'

/-- a new key in a full list costs the head of the list -/
theorem lookup_put_of_full {m : Nat} {l : Fifo κ ν (some m)} {k oldest : κ} {rest : List κ}
    (hk : k ∉ l.keys) (hl : l.keys = oldest :: rest) (hfull : l.keys.length = m) (v : ν) (k' : κ) :
    (l.put k v).lookup k' =
      if k' = oldest then none else if k' = k then some v else l.lookup k' := by
  have h0 : ¬ some m = some 0 := by
    intro h0
    rw [hl, List.length_cons] at hfull
    have hm := Option.some.inj h0
    omega
  unfold put
  rw [if_neg h0, dif_neg hk]
  show (trim m (l.entries ++ [(k, v)])).lookup k' = _
  rw [show l.lookup k' = l.entries.lookup k' from rfl, ← lookup_snoc l.entries v hk k']
  have hn := nodup_snoc (v := v) l.nodup hk
  rw [keys] at hl hfull
  cases hentries : l.entries with
  | nil =>
    rw [hentries] at hl
    cases hl
  | cons p entries =>
    rw [hentries, List.map_cons] at hl hfull
    rw [hentries, List.cons_append, List.map_cons, List.nodup_cons] at hn
    obtain ⟨hp, -⟩ := List.cons.inj hl
    have hlen : (entries ++ [(k, v)]).length = m := by
      rw [List.length_cons, List.length_map] at hfull
      rw [List.length_append]
      exact hfull
    rw [List.cons_append, trim_of_full hlen]
    by_cases h : k' = oldest
    · rw [if_pos h, h, ← hp]
      exact lookup_none_iff.mpr hn.1
    · rw [if_neg h, List.lookup_cons, hp, beq_eq_false_iff_ne.mpr h]

theorem get_lossy (expired : ν → Bool) (k : κ) (l : Fifo κ ν bound) :
    Lossy none l.lookup (l.get expired k).2.lookup := by
  intro k' v' h
  rw [lookup_get] at h
  split at h
  · cases h
  · exact .inr ⟨h, fun u hu => by cases hu⟩

end Fifo

end Store
