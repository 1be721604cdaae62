import Tokudo.Json.Size
import Tokudo.Json.Pretty

/-!
# The compact writer

`Json.compactText` is the text of a value on one line, numbers with a fraction with a decimal point.
The reader reads back what any writer of numbers makes of a value, if it reads back the numbers
(`ReadsNumbers`).
-/

namespace Json

/-- the machine reads a number's text as the number, below any stack -/
structure ReadsNumbers (number : JsonNumber → List Char) : Prop where
  head : ∀ n, ∃ c cs, number n = c :: cs ∧ isBlank c = false ∧ c ≠ ']'
  ends : ∀ n k, Ends (run (.value k) (number n)) (.num n) k

theorem readsNumbers_decimalChars : ReadsNumbers decimalChars where
  head := decimalChars_head
  ends := run_decimalChars

section
variable {number : JsonNumber → List Char}

theorem write_head (hnumber : ReadsNumbers number) (v : Json) :
    ∃ c cs, write number v = c :: cs ∧ isBlank c = false ∧ c ≠ ']' := by
  cases v with
  | null => exact ⟨_, _, rfl, rfl, by decide⟩
  | bool b => cases b <;> exact ⟨_, _, rfl, rfl, by decide⟩
  | num n => exact hnumber.head n
  | str s => exact ⟨_, _, rfl, rfl, by decide⟩
  | arr xs => cases xs <;> exact ⟨_, _, rfl, rfl, by decide⟩
  | obj fields =>
    cases fields with
    | nil => exact ⟨_, _, rfl, rfl, by decide⟩
    | cons p fields =>
      obtain ⟨key, x⟩ := p
      exact ⟨_, _, rfl, rfl, by decide⟩

mutual

theorem run_write (hnumber : ReadsNumbers number) : ∀ (v : Json) (k : List Frame),
    Ends (run (.value k) (write number v)) v k
  | .null, k => ends_after .null k
  | .bool true, k => ends_after (.bool true) k
  | .bool false, k => ends_after (.bool false) k
  | .num n, k => hnumber.ends n k
  | .str s, k => (run_chars (.str s) k).ends
  | .arr [], k => ends_after (.arr []) k
  | .arr (x :: xs), k => by
    have hfirst : run (.firstElem k) (write number x ++ writeElems number xs) =
        run (.value (.elems [] :: k)) (write number x ++ writeElems number xs) := by
      obtain ⟨c, cs, hx, hb, hc⟩ := write_head hnumber x
      rw [hx]
      exact run_firstElem_cons hb hc _ k
    show Ends (run (.firstElem k) (write number x ++ writeElems number xs)) _ k
    rw [hfirst, run_append, run_writeElems hnumber xs [] x k _ (run_write hnumber x _)]
    exact ends_after _ k
  | .obj [], k => ends_after (.obj []) k
  | .obj ((key, x) :: fields), k => by
    show Ends (run (.firstKey k) (quote key ++ ':' :: (write number x ++
      writeFields number fields))) _ k
    rw [run_key rfl, run_append, run_writeFields hnumber fields [] key x k _ (run_write hnumber x _)]
    exact ends_after _ k

theorem run_writeElems (hnumber : ReadsNumbers number) : ∀ (xs done : List Json) (v : Json)
    (k : List Frame) (s : State), Ends s v (.elems done :: k) →
    run s (writeElems number xs) = .after (.arr (done.reverse ++ v :: xs)) k
  | [], done, v, k, s, h => by
    show step s ']' = _
    rw [h.1 ']' (by decide)]
    simp [stepAfter, isBlank]
  | x :: xs, done, v, k, s, h => by
    have hcomma : step s ',' = .value (.elems (v :: done) :: k) := by
      rw [h.1 ',' (by decide)]
      rfl
    show run (step s ',') (write number x ++ writeElems number xs) = _
    rw [hcomma, run_append, run_writeElems hnumber xs (v :: done) x k _ (run_write hnumber x _),
      List.reverse_cons, List.append_assoc]
    rfl

theorem run_writeFields (hnumber : ReadsNumbers number) : ∀ (fields done : List (String × Json))
    (key : String) (v : Json) (k : List Frame) (s : State), Ends s v (.member done key :: k) →
    run s (writeFields number fields) = .after (.obj (done.reverse ++ (key, v) :: fields)) k
  | [], done, key, v, k, s, h => by
    show step s '}' = _
    rw [h.1 '}' (by decide)]
    simp [stepAfter, isBlank]
  | (key', x) :: fields, done, key, v, k, s, h => by
    have hcomma : step s ',' = .key ((key, v) :: done) k := by
      rw [h.1 ',' (by decide)]
      rfl
    show run (step s ',') (quote key' ++ ':' :: (write number x ++ writeFields number fields)) = _
    rw [hcomma, run_key rfl, run_append,
      run_writeFields hnumber fields ((key, v) :: done) key' x k _ (run_write hnumber x _),
      List.reverse_cons,
      List.append_assoc]
    rfl

end

/-- **The reader reads back what the writer writes.** -/
theorem read_write (hnumber : ReadsNumbers number) (v : Json) :
    read (write number v) = some v :=
  (run_write hnumber v []).2 rfl

end

/-- `serde_json::to_string` of a value -/
def compactText (v : Json) : String := String.ofList (write decimalChars v)

theorem read_compactText (v : Json) : read (compactText v).toList = some v := by
  rw [compactText, String.toList_ofList]
  exact read_write readsNumbers_decimalChars v

end Json
