import Tokudo.Core.Traits
import Tokudo.Json.Pointer

/-!
# Validators of a cheap answer

`route/validator.rs`.  `LengthValidator` counts the characters of the strings of a response, and
stops when it has enough; `RegexValidator` puts the strings together and matches the text;
`ConfidenceValidator` compares the number that a pointer leads to.

* `lengthValidator_iff`      **stopping early does not change what it says;**
* `regexValidator_iff`       **the text that is matched, and how long it is;**
* `confidenceValidator_iff`  **a number at a path is compared by the pointer that is written of the
                             path.**
-/

namespace Tokudo

/-! ## strings of a value -/

mutual

/-- the string leaves, in the order of the text; the keys of objects are not among them -/
def stringLeaves : Json → List String
  | .str s => [s]
  | .arr items => itemLeaves items
  | .obj map => fieldLeaves map
  | _ => []

def itemLeaves : List Json → List String
  | [] => []
  | item :: items => stringLeaves item ++ itemLeaves items

def fieldLeaves : List (String × Json) → List String
  | [] => []
  | (_, v) :: map => stringLeaves v ++ fieldLeaves map

end

/-- the characters of some strings -/
def charCount : List String → Nat
  | [] => 0
  | s :: strings => s.toList.length + charCount strings

theorem charCount_append (strings strings' : List String) :
    charCount (strings ++ strings') = charCount strings + charCount strings' := by
  induction strings with
  | nil => exact (Nat.zero_add _).symm
  | cons s strings ih =>
    rw [List.cons_append, charCount, charCount, ih]
    omega

/-! ## the validator -/

section
variable (cap : Nat)

mutual

/-- `collect_chars`: the total so far goes in, and the new one comes out -/
def collectChars (value : Json) (total : Nat) : Nat :=
  if cap ≤ total then total
  else match value with
    | .str s => saturatingAdd total s.toList.length
    | .arr items => collectItems items total
    | .obj map => collectFields map total
    | _ => total

def collectItems (items : List Json) (total : Nat) : Nat :=
  match items with
  | [] => total
  | item :: items => if cap ≤ total then total else collectItems items (collectChars item total)

def collectFields (map : List (String × Json)) (total : Nat) : Nat :=
  match map with
  | [] => total
  | (_, v) :: map => if cap ≤ total then total else collectFields map (collectChars v total)

end

end

/-- `min_chars` is a `usize` -/
def LengthValidator (minChars : UInt64) : Validator where
  validate response :=
    let total := collectChars minChars.toNat response 0
    .ok (decide (minChars.toNat ≤ total))

/-! ## stopping early -/

section
variable {cap : Nat}

theorem collectItems_of_full {total : Nat} (h : cap ≤ total) (items : List Json) :
    collectItems cap items total = total := by
  cases items with
  | nil => rfl
  | cons item items => rw [collectItems, if_pos h]

theorem collectFields_of_full {total : Nat} (h : cap ≤ total) (map : List (String × Json)) :
    collectFields cap map total = total := by
  cases map with
  | nil => rfl
  | cons p map => rw [collectFields, if_pos h]

mutual

/-- **Up to the cap, the total is the count.**  The total may have been wrong before, if it and the
count were both beyond the cap. -/
theorem collectChars_count (hcap : cap ≤ u64Max) : ∀ (value : Json) {total count : Nat},
    min cap total = min cap count →
    min cap (collectChars cap value total) = min cap (count + charCount (stringLeaves value)) := by
  intro value total count heq
  unfold collectChars
  by_cases hfull : cap ≤ total
  · rw [if_pos hfull]
    omega
  rw [if_neg hfull]
  cases value with
  | null => exact heq
  | bool b => exact heq
  | num n => exact heq
  | str s =>
    show min cap (saturatingAdd total s.toList.length) = min cap (count + (s.toList.length + 0))
    unfold saturatingAdd
    omega
  | arr items => exact collectItems_count hcap items heq
  | obj map => exact collectFields_count hcap map heq

theorem collectItems_count (hcap : cap ≤ u64Max) : ∀ (items : List Json) {total count : Nat},
    min cap total = min cap count →
    min cap (collectItems cap items total) = min cap (count + charCount (itemLeaves items))
  | [], _, _, heq => heq
  | item :: items, total, count, heq => by
    rw [itemLeaves, charCount_append, ← Nat.add_assoc]
    by_cases hfull : cap ≤ total
    · rw [collectItems_of_full hfull]
      omega
    · rw [collectItems, if_neg hfull]
      exact collectItems_count hcap items (collectChars_count hcap item heq)

theorem collectFields_count (hcap : cap ≤ u64Max) :
    ∀ (map : List (String × Json)) {total count : Nat}, min cap total = min cap count →
    min cap (collectFields cap map total) = min cap (count + charCount (fieldLeaves map))
  | [], _, _, heq => heq
  | (_, v) :: map, total, count, heq => by
    rw [fieldLeaves, charCount_append, ← Nat.add_assoc]
    by_cases hfull : cap ≤ total
    · rw [collectFields_of_full hfull]
      omega
    · rw [collectFields, if_neg hfull]
      exact collectFields_count hcap map (collectChars_count hcap v heq)

end

end

/-- **What `LengthValidator` accepts**: the responses whose strings have enough characters together. -/
theorem lengthValidator_iff (minChars : UInt64) (v : Json) :
    (LengthValidator minChars).validate v = .ok true ↔
      minChars.toNat ≤ charCount (stringLeaves v) := by
  have hcap : minChars.toNat ≤ u64Max := Nat.le_pred_of_lt minChars.toNat_lt
  have hcount := collectChars_count hcap v (Eq.refl (min minChars.toNat 0))
  have hiff : minChars.toNat ≤ collectChars minChars.toNat v 0 ↔
      minChars.toNat ≤ charCount (stringLeaves v) := by
    omega
  show Except.ok (decide _) = Except.ok true ↔ _
  rw [Except.ok.injEq, decide_eq_true_eq, hiff]

/-! ## matching the text -/

mutual

/-- `collect_text`: the buffer goes in, and the new one comes out -/
def collectText : Json → String → String
  | .str s, buf => (if buf.isEmpty then buf else buf.push ' ') ++ s
  | .arr items, buf => collectTextItems items buf
  | .obj map, buf => collectTextFields map buf
  | _, buf => buf

def collectTextItems : List Json → String → String
  | [], buf => buf
  | item :: items, buf => collectTextItems items (collectText item buf)

def collectTextFields : List (String × Json) → String → String
  | [], buf => buf
  | (_, v) :: map, buf => collectTextFields map (collectText v buf)

end

/-- `isMatch` is `is_match` of the compiled pattern -/
def RegexValidator (isMatch : String → Bool) : Validator where
  validate response := .ok (isMatch (collectText response ""))

/-- one more string -/
def pushLeaf (buf s : String) : String := (if buf.isEmpty then buf else buf.push ' ') ++ s

mutual

/-- **The strings are pushed one after the other.** -/
theorem collectText_eq : ∀ (v : Json) (buf : String),
    collectText v buf = (stringLeaves v).foldl pushLeaf buf
  | .null, _ => rfl
  | .bool _, _ => rfl
  | .num _, _ => rfl
  | .str _, _ => rfl
  | .arr items, buf => collectTextItems_eq items buf
  | .obj map, buf => collectTextFields_eq map buf

theorem collectTextItems_eq : ∀ (items : List Json) (buf : String),
    collectTextItems items buf = (itemLeaves items).foldl pushLeaf buf
  | [], _ => rfl
  | item :: items, buf => by
    rw [itemLeaves, List.foldl_append, ← collectText_eq item buf]
    exact collectTextItems_eq items (collectText item buf)

theorem collectTextFields_eq : ∀ (map : List (String × Json)) (buf : String),
    collectTextFields map buf = (fieldLeaves map).foldl pushLeaf buf
  | [], _ => rfl
  | (_, v) :: map, buf => by
    rw [fieldLeaves, List.foldl_append, ← collectText_eq v buf]
    exact collectTextFields_eq map (collectText v buf)

end

theorem intercalate_append_cons (t u : String) (l : List String) :
    String.intercalate " " ((t ++ u) :: l) = t ++ String.intercalate " " (u :: l) := by
  cases l with
  | nil => rw [String.intercalate_singleton, String.intercalate_singleton]
  | cons w l =>
    rw [String.intercalate_cons_cons, String.intercalate_cons_cons, String.append_assoc,
      String.append_assoc, String.append_assoc]

/-- onto a text that is not empty every string is pushed with a space -/
theorem foldl_pushLeaf {buf : String} (h : buf ≠ "") (strings : List String) :
    strings.foldl pushLeaf buf = String.intercalate " " (buf :: strings) := by
  induction strings generalizing buf with
  | nil => exact String.intercalate_singleton.symm
  | cons s strings ih =>
    have hpush : pushLeaf buf s = buf ++ " " ++ s := by
      unfold pushLeaf
      rw [String.isEmpty_eq_false_iff.mpr h, if_neg Bool.false_ne_true, String.push_eq_append]
      rfl
    have hnext : buf ++ " " ++ s ≠ "" := fun h0 =>
      h (String.append_eq_empty_iff.mp (String.append_eq_empty_iff.mp h0).1).1
    rw [List.foldl_cons, hpush, ih hnext, intercalate_append_cons, String.intercalate_cons_cons]

/-- empty strings at the beginning leave nothing, not even a space -/
theorem collectText_text (v : Json) :
    collectText v "" = String.intercalate " " ((stringLeaves v).dropWhile String.isEmpty) := by
  rw [collectText_eq]
  induction stringLeaves v with
  | nil => exact String.intercalate_nil.symm
  | cons s strings ih =>
    have hfirst : pushLeaf "" s = s := String.empty_append
    rw [List.foldl_cons, hfirst]
    by_cases hs : s = ""
    · rw [hs, List.dropWhile_cons_of_pos rfl]
      exact ih
    · have hkept : ¬ s.isEmpty = true := fun h0 => hs (String.isEmpty_iff.mp h0)
      rw [List.dropWhile_cons_of_neg hkept]
      exact foldl_pushLeaf hs strings

theorem length_intercalate (s : String) (strings : List String) :
    (String.intercalate " " (s :: strings)).toList.length =
      charCount (s :: strings) + strings.length := by
  induction strings generalizing s with
  | nil =>
    rw [String.intercalate_singleton]
    rfl
  | cons t strings ih =>
    have hspace : " ".toList.length = 1 := rfl
    have hcount : charCount (s :: t :: strings) = s.toList.length + charCount (t :: strings) := rfl
    rw [String.intercalate_cons_cons, String.toList_append, String.toList_append,
      List.length_append, List.length_append, ih t, hcount, hspace, List.length_cons]
    omega

theorem charCount_dropWhile (strings : List String) :
    charCount (strings.dropWhile String.isEmpty) = charCount strings := by
  induction strings with
  | nil => rfl
  | cons s strings ih =>
    by_cases hs : s.isEmpty = true
    · have hzero : s.toList.length = 0 := by rw [String.isEmpty_iff.mp hs]; rfl
      rw [List.dropWhile_cons_of_pos hs, ih, charCount, hzero, Nat.zero_add]
    · rw [List.dropWhile_cons_of_neg hs]

theorem charCount_of_accepted {minChars : UInt64} {v : Json}
    (h : (LengthValidator minChars).validate v = .ok true) :
    minChars.toNat ≤ charCount (stringLeaves v) := by
  have hcap : minChars.toNat ≤ u64Max := Nat.le_pred_of_lt minChars.toNat_lt
  have hcount := collectChars_count hcap v (Eq.refl (min minChars.toNat 0))
  have henough : minChars.toNat ≤ collectChars minChars.toNat v 0 :=
    of_decide_eq_true (Except.ok.inj h)
  omega

/-- **What `RegexValidator` matches**: the strings of the response with a space between any two, after
the empty ones at the beginning.  The text has the characters that `LengthValidator` counts, and one
for each space. -/
theorem regexValidator_iff (isMatch : String → Bool) (v : Json) :
    ∃ text, ((RegexValidator isMatch).validate v = .ok true ↔ isMatch text = true) ∧
      text = String.intercalate " " ((stringLeaves v).dropWhile String.isEmpty) ∧
      text.toList.length = charCount (stringLeaves v) +
        (((stringLeaves v).dropWhile String.isEmpty).length - 1) ∧
      ∀ minChars : UInt64, (LengthValidator minChars).validate v = .ok true →
        minChars.toNat ≤ text.toList.length := by
  have hlength : (String.intercalate " " ((stringLeaves v).dropWhile String.isEmpty)).toList.length =
      charCount (stringLeaves v) + (((stringLeaves v).dropWhile String.isEmpty).length - 1) := by
    rw [← charCount_dropWhile]
    cases (stringLeaves v).dropWhile String.isEmpty with
    | nil =>
      rw [String.intercalate_nil]
      rfl
    | cons s strings => exact length_intercalate s strings
  refine ⟨_, ?_, rfl, hlength, ?_⟩
  · rw [← collectText_text]
    show Except.ok _ = Except.ok true ↔ _
    rw [Except.ok.injEq]
  · intro minChars h
    have hcount := charCount_of_accepted h
    omega

/-! ## the number at a pointer -/

/-- `as_f64` of a value, if it is a number -/
def asF64 (round : JsonNumber → F64) : Json → Option F64
  | .num n => some (round n)
  | _ => none

/-- any value of an `f64`; the numbers of a response are finite -/
inductive AnyF64 where
  | nan
  | negInfinity
  | finite (q : F64)
  | infinity

/-- `>=` on `f64`; nothing compares with a NaN -/
def AnyF64.ge : AnyF64 → AnyF64 → Bool
  | .nan, _ => false
  | _, .nan => false
  | _, .negInfinity => true
  | .negInfinity, _ => false
  | .infinity, _ => true
  | _, .infinity => false
  | .finite a, .finite b => decide (b ≤ a)

/-- `round` is the conversion of a number to `f64`; without one, the observed value is the lowest -/
def ConfidenceValidator (round : JsonNumber → F64) (pointer : String) (min : AnyF64) : Validator where
  validate response :=
    let observed : AnyF64 :=
      ((Json.pointer pointer response).bind (asF64 round)).elim .negInfinity .finite
    .ok (observed.ge min)

theorem negInfinity_ge_iff {min : AnyF64} :
    AnyF64.negInfinity.ge min = true ↔ min = .negInfinity := by
  cases min <;> simp [AnyF64.ge]

theorem ge_negInfinity {q : F64} : (AnyF64.finite q).ge .negInfinity = true := rfl

theorem confidence_eq_ok_true {round : JsonNumber → F64} {pointer : String} {min : AnyF64} {v : Json} :
    (ConfidenceValidator round pointer min).validate v = .ok true ↔ min = .negInfinity ∨
      ∃ n, Json.pointer pointer v = some (.num n) ∧ (AnyF64.finite (round n)).ge min = true := by
  unfold ConfidenceValidator
  dsimp only
  rw [Except.ok.injEq]
  cases Json.pointer pointer v with
  | none => simp [negInfinity_ge_iff]
  | some w =>
    cases w with
    | num n =>
      have hlowest : min = .negInfinity → (AnyF64.finite (round n)).ge min = true := by
        rintro rfl
        exact ge_negInfinity
      simpa [asF64] using hlowest
    | _ => simp [asF64, negInfinity_ge_iff]

/-- **What `ConfidenceValidator` accepts.**  The threshold `-∞` is passed by everything.  Any other:
with the pointer that is written of a path, by the responses that have a number at this path, at least
`min`; with any pointer, only by responses that have such a number somewhere. -/
theorem confidenceValidator_iff (round : JsonNumber → F64) (min : AnyF64) (v : Json) :
    (∀ p w, Json.Path.Fits p → v.at? p = some w →
      ((ConfidenceValidator round (Json.pointerText p) min).validate v = .ok true ↔
        min = .negInfinity ∨ ∃ n, w = .num n ∧ (AnyF64.finite (round n)).ge min = true)) ∧
    ∀ pointer, (ConfidenceValidator round pointer min).validate v = .ok true →
      min = .negInfinity ∨
        ∃ p n, v.at? p = some (.num n) ∧ (AnyF64.finite (round n)).ge min = true := by
  constructor
  · intro p w hp hw
    rw [confidence_eq_ok_true, Json.pointer_pointerText hp hw]
    apply or_congr_right
    constructor
    · rintro ⟨n, hn, hmin⟩
      exact ⟨n, Option.some.inj hn, hmin⟩
    · rintro ⟨n, rfl, hmin⟩
      exact ⟨n, rfl, hmin⟩
  · intro pointer h
    rcases confidence_eq_ok_true.mp h with hmin | ⟨n, hn, hmin⟩
    · exact .inl hmin
    · obtain ⟨p, hp⟩ := Json.path_of_pointer hn
      exact .inr ⟨p, n, hp, hmin⟩

/-- a score under a key with a slash in it -/
theorem score_accepted :
    (ConfidenceValidator (fun n => n.mantissa) "/a~1b/0" (.finite 5)).validate
      (.obj [("a/b", .arr [.ofNat 7])]) = .ok true := by
  let path : Json.Path := [.key "a/b", .index 0]
  have htext : Json.pointerText path = "/a~1b/0" := rfl
  have hfits : Json.Path.Fits path := by
    intro i hi
    rcases List.mem_cons.mp hi with h | h
    · cases h
    · cases List.mem_singleton.mp h
      exact Nat.two_pow_pos 64
  have hscore : decide ((5 : F64) ≤ ((7 : ℤ) : F64)) = true := decide_eq_true (by norm_num)
  rw [← htext]
  exact ((confidenceValidator_iff _ (.finite 5) _).1 path (.ofNat 7) hfits rfl).mpr
    (.inr ⟨⟨7, 0⟩, rfl, hscore⟩)

end Tokudo
