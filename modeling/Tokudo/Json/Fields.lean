import Tokudo.Json.Value

/-!
# Structs as objects

How a derived `Deserialize` reads the fields of a struct from an object: by name, in any order.  A
field may not occur twice; one without a default may not be missing; other fields are ignored.

* `requireField_of_mem`, `defaultField_of_mem`   a field that is there is decoded, if no name
                                                 occurs twice;
* `Carries known written fields`                 the fields with known names are those written, in
                                                 any order; there may be others;
* `requireField_of_carries`, `skippedField_of_carries`   **so a field is read from an object that
                                                 carries it**, and a skipped one has its default.
-/

namespace Json

inductive DecodeError where
  | notJson
  | missingField (name : String)
  | duplicateField (name : String)
  | invalidType (expected : String)
  deriving DecidableEq

abbrev Decode (α : Type) := Except DecodeError α

def uniqueField (name : String) (fields : List (String × Json)) : Decode (Option Json) :=
  match fields.filter fun p => p.1 = name with
  | [] => .ok none
  | [p] => .ok (some p.2)
  | _ => .error (.duplicateField name)

section
variable {α : Type} (name : String) (default : α) (decode : Json → Decode α)
  (fields : List (String × Json))

def requireField : Decode α := do
  match ← uniqueField name fields with
  | some v => decode v
  | none => .error (.missingField name)

/-- the field of a struct with `#[serde(default)]` -/
def defaultField : Decode α := do
  match ← uniqueField name fields with
  | some v => decode v
  | none => .ok default

end

theorem uniqueField_of_mem {fields : List (String × Json)} (hnodup : (fields.map Prod.fst).Nodup)
    {name : String} {v : Json} (h : (name, v) ∈ fields) :
    uniqueField name fields = .ok (some v) := by
  have hfilter : fields.filter (fun p => p.1 = name) = [(name, v)] := by
    induction fields with
    | nil => cases h
    | cons p fields ih =>
      rw [List.map_cons, List.nodup_cons] at hnodup
      obtain ⟨hp, hrest⟩ := hnodup
      by_cases hname : p.1 = name
      · have hnone : fields.filter (fun p => p.1 = name) = [] := by
          rw [List.filter_eq_nil_iff]
          intro p' hp' he
          apply hp
          rw [hname, ← of_decide_eq_true he]
          exact List.mem_map_of_mem hp'
        have hhead : (name, v) = p := by
          rcases List.mem_cons.mp h with h | h
          · exact h
          · exact absurd (List.mem_map_of_mem h) (hname ▸ hp)
        rw [List.filter_cons, if_pos (decide_eq_true hname), hnone, hhead]
      · have htail : (name, v) ∈ fields := by
          rcases List.mem_cons.mp h with h | h
          · exact absurd (h ▸ rfl) hname
          · exact h
        rw [List.filter_cons, if_neg (by simpa using hname)]
        exact ih hrest htail
  unfold uniqueField
  rw [hfilter]

section
variable {α : Type} {fields : List (String × Json)} {name : String} {v : Json}

theorem requireField_of_mem (decode : Json → Decode α) (hnodup : (fields.map Prod.fst).Nodup)
    (h : (name, v) ∈ fields) : requireField name decode fields = decode v := by
  unfold requireField
  rw [uniqueField_of_mem hnodup h]
  rfl

theorem defaultField_of_mem (default : α) (decode : Json → Decode α)
    (hnodup : (fields.map Prod.fst).Nodup) (h : (name, v) ∈ fields) :
    defaultField name default decode fields = decode v := by
  unfold defaultField
  rw [uniqueField_of_mem hnodup h]
  rfl

end

/-! ## objects that carry what was written -/

/-- a field with `#[serde(skip_serializing_if = "Option::is_none")]` -/
def skipNone {α : Type} (name : String) (encode : α → Json) : Option α → List (String × Json)
  | none => []
  | some a => [(name, encode a)]

/-- a counter with `#[serde(skip_serializing_if = "is_zero")]` -/
def skipZero (name : String) (n : Nat) : List (String × Json) :=
  if n = 0 then [] else [(name, .ofNat n)]

theorem names_skipNone {α : Type} (name : String) (encode : α → Json) (q : Option α) :
    ((skipNone name encode q).map Prod.fst).Sublist [name] := by
  cases q with
  | none => exact List.nil_sublist _
  | some a => exact List.Sublist.refl _

theorem names_skipZero (name : String) (n : Nat) :
    ((skipZero name n).map Prod.fst).Sublist [name] := by
  unfold skipZero
  split
  · exact List.nil_sublist _
  · exact List.Sublist.refl _

theorem name_mem_skipNone {α : Type} {name name' : String} {encode : α → Json} {q : Option α} :
    name' ∈ (skipNone name encode q).map Prod.fst ↔ q.isSome = true ∧ name' = name := by
  cases q <;> simp [skipNone]

theorem name_mem_skipZero {name name' : String} {n : Nat} :
    name' ∈ (skipZero name n).map Prod.fst ↔ n ≠ 0 ∧ name' = name := by
  unfold skipZero
  split <;> simp [*]

/-- the fields of these names are gone -/
def without (names : List String) (fields : List (String × Json)) : List (String × Json) :=
  fields.filter fun p => p.1 ∉ names

/-- among the fields are those written, and no other has a known name -/
structure Carries (known : List String) (written fields : List (String × Json)) : Prop where
  nodup : (written.map Prod.fst).Nodup
  perm : (fields.filter fun p => p.1 ∈ known).Perm written

section
variable {known : List String} {written fields : List (String × Json)} {name : String}

theorem carries_self (hnodup : (written.map Prod.fst).Nodup)
    (hknown : ∀ p ∈ written, p.1 ∈ known) : Carries known written written where
  nodup := hnodup
  perm := by
    rw [List.filter_eq_self.mpr fun p hp => decide_eq_true (hknown p hp)]

/-- of two halves the one with the known names is left -/
theorem filter_known {own rest : List (String × Json)} (hown : ∀ p ∈ own, p.1 ∉ known)
    (hrest : ∀ p ∈ rest, p.1 ∈ known) : (own ++ rest).filter (fun p => p.1 ∈ known) = rest := by
  have hnone : (own.filter fun p => p.1 ∈ known) = [] :=
    List.filter_eq_nil_iff.mpr fun p hp hk => hown p hp (of_decide_eq_true hk)
  rw [List.filter_append, hnone, List.nil_append]
  exact List.filter_eq_self.mpr fun p hp => decide_eq_true (hrest p hp)

/-- fields that are not looked at may be taken away -/
theorem Carries.without (h : Carries known written fields) {names known' : List String}
    {written' : List (String × Json)} (hk : ∀ name ∈ known', name ∈ known)
    (hn : ∀ name ∈ known', name ∉ names)
    (hw : (written.filter fun p => p.1 ∈ known') = written') :
    Carries known' written' (without names fields) where
  nodup := by
    rw [← hw]
    exact h.nodup.sublist (List.filter_sublist.map Prod.fst)
  perm := by
    have hfilter : ((Json.without names fields).filter fun p => p.1 ∈ known') =
        (fields.filter fun p => p.1 ∈ known).filter fun p => p.1 ∈ known' := by
      unfold Json.without
      rw [List.filter_filter, List.filter_filter]
      apply List.filter_congr
      intro p _
      by_cases hp : p.1 ∈ known'
      · simp [hp, hk _ hp, hn _ hp]
      · simp [hp]
    rw [hfilter, ← hw]
    exact h.perm.filter _

theorem Carries.filter_perm (h : Carries known written fields) (hk : name ∈ known) :
    (fields.filter fun p => p.1 = name).Perm (written.filter fun p => p.1 = name) := by
  have hfilter : (fields.filter fun p => p.1 = name) =
      (fields.filter fun p => p.1 ∈ known).filter fun p => p.1 = name := by
    rw [List.filter_filter]
    apply List.filter_congr
    intro p _
    by_cases hp : p.1 = name
    · simp [hp, hk]
    · simp [hp]
  rw [hfilter]
  exact h.perm.filter _

/-- one field of a name is one field of it in any order -/
theorem uniqueField_of_perm {x : Option Json}
    (hperm : (fields.filter fun p => p.1 = name).Perm (written.filter fun p => p.1 = name))
    (h : uniqueField name written = .ok x) : uniqueField name fields = .ok x := by
  unfold uniqueField at h ⊢
  generalize hw : (written.filter fun p => p.1 = name) = found at h hperm
  match found with
  | [] => rwa [List.perm_nil.mp hperm]
  | [p] => rwa [List.perm_singleton.mp hperm]
  | p :: q :: rest => cases h

theorem uniqueField_of_carries {v : Json} (h : Carries known written fields) (hk : name ∈ known)
    (hm : (name, v) ∈ written) : uniqueField name fields = .ok (some v) :=
  uniqueField_of_perm (h.filter_perm hk) (uniqueField_of_mem h.nodup hm)

theorem uniqueField_of_skipped (h : Carries known written fields) (hk : name ∈ known)
    (hm : name ∉ written.map Prod.fst) : uniqueField name fields = .ok none := by
  refine uniqueField_of_perm (h.filter_perm hk) ?_
  have hnone : (written.filter fun p => p.1 = name) = [] := by
    rw [List.filter_eq_nil_iff]
    intro p hp hname
    exact hm (of_decide_eq_true hname ▸ List.mem_map_of_mem hp)
  unfold uniqueField
  rw [hnone]

variable {α : Type}

theorem requireField_of_carries (decode : Json → Decode α) {v : Json} {a : α}
    (h : Carries known written fields) (hk : name ∈ known) (hm : (name, v) ∈ written)
    (hv : decode v = .ok a) : requireField name decode fields = .ok a := by
  unfold requireField
  rw [uniqueField_of_carries h hk hm]
  exact hv

/-- a field that is written, or has its default and is skipped -/
theorem skippedField_of_carries (default : α) (decode : Json → Decode α) {a : α}
    (h : Carries known written fields) (hk : name ∈ known)
    (hm : (∃ v, (name, v) ∈ written ∧ decode v = .ok a) ∨
      (name ∉ written.map Prod.fst ∧ a = default)) :
    defaultField name default decode fields = .ok a := by
  unfold defaultField
  rcases hm with ⟨v, hm, hv⟩ | ⟨hm, rfl⟩
  · rw [uniqueField_of_carries h hk hm]
    exact hv
  · rw [uniqueField_of_skipped h hk hm]
    rfl

theorem mappedField_of_carries {β γ : Type} {encode : β → Json} {decode : Json → Decode (Option γ)}
    {f : β → γ} {q : Option β} (h : Carries known written fields) (hk : name ∈ known)
    (hcode : ∀ b, decode (encode b) = .ok (some (f b)))
    (hsome : ∀ p ∈ skipNone name encode q, p ∈ written)
    (hnone : q = none → name ∉ written.map Prod.fst) :
    defaultField name none decode fields = .ok (q.map f) := by
  refine skippedField_of_carries none decode h hk ?_
  cases q with
  | none => exact .inr ⟨hnone rfl, rfl⟩
  | some b => exact .inl ⟨encode b, hsome _ List.mem_cons_self, hcode b⟩

theorem noneField_of_carries {β : Type} {encode : β → Json} {decode : Json → Decode (Option β)}
    {q : Option β} (h : Carries known written fields) (hk : name ∈ known)
    (hcode : ∀ b, decode (encode b) = .ok (some b))
    (hsome : ∀ p ∈ skipNone name encode q, p ∈ written)
    (hnone : q = none → name ∉ written.map Prod.fst) :
    defaultField name none decode fields = .ok q := by
  have hread := mappedField_of_carries h hk (f := id) hcode hsome hnone
  rwa [Option.map_id_fun, id] at hread

theorem zeroField_of_carries {decode : Json → Decode Nat} {n : Nat}
    (h : Carries known written fields) (hk : name ∈ known) (hcode : decode (.ofNat n) = .ok n)
    (hpos : ∀ p ∈ skipZero name n, p ∈ written) (hzero : n = 0 → name ∉ written.map Prod.fst) :
    defaultField name 0 decode fields = .ok n := by
  refine skippedField_of_carries 0 decode h hk ?_
  by_cases hn : n = 0
  · exact .inr ⟨hzero hn, hn⟩
  · refine .inl ⟨.ofNat n, hpos _ ?_, hcode⟩
    rw [skipZero, if_neg hn]
    exact List.mem_cons_self

end

end Json
