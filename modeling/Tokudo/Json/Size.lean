import Tokudo.Json.Text

/-!
# The size of compact JSON text

`Json.write number v` is the compact text of `v`, where `number` writes the numbers; `Json.chars` is
the writer with numbers as decimals (`write_numChars`).  `Json.size number v` is the length of this
text in bytes.

* `size_arr`, `size_obj`   the size of an array or an object that is not empty: one byte, and each
                           element or field with the comma or bracket after it;
* `size_str`               the size of a string: two quotes, and the size of what is between.
-/

/-! ## bytes of a text -/

/-- the length in UTF-8 -/
def charBytes : List Char → Nat
  | [] => 0
  | c :: cs => c.utf8Size + charBytes cs

theorem charBytes_nil : charBytes [] = 0 := rfl

theorem charBytes_cons (c : Char) (cs : List Char) :
    charBytes (c :: cs) = c.utf8Size + charBytes cs := rfl

theorem charBytes_append (cs ds : List Char) : charBytes (cs ++ ds) = charBytes cs + charBytes ds := by
  induction cs with
  | nil => exact (Nat.zero_add _).symm
  | cons c cs ih =>
    rw [List.cons_append, charBytes_cons, charBytes_cons, ih]
    omega

theorem utf8ByteSize_ofList (cs : List Char) : (String.ofList cs).utf8ByteSize = charBytes cs := by
  induction cs with
  | nil => rfl
  | cons c cs ih =>
    have hsplit : String.ofList (c :: cs) = String.singleton c ++ String.ofList cs := by
      rw [← String.toList_inj, String.toList_append, String.toList_ofList, String.toList_ofList,
        String.toList_singleton]
      rfl
    rw [hsplit, String.utf8ByteSize_append, String.utf8ByteSize_singleton, ih, charBytes_cons]

namespace Json

/-! ## the writer -/

section
variable (number : JsonNumber → List Char)

mutual

def write : Json → List Char
  | .null => ['n', 'u', 'l', 'l']
  | .bool true => ['t', 'r', 'u', 'e']
  | .bool false => ['f', 'a', 'l', 's', 'e']
  | .num n => number n
  | .str s => quote s
  | .arr [] => ['[', ']']
  | .arr (x :: xs) => '[' :: (write x ++ writeElems xs)
  | .obj [] => ['{', '}']
  | .obj ((key, x) :: fields) => '{' :: (quote key ++ ':' :: (write x ++ writeFields fields))

def writeElems : List Json → List Char
  | [] => [']']
  | x :: xs => ',' :: (write x ++ writeElems xs)

def writeFields : List (String × Json) → List Char
  | [] => ['}']
  | (key, x) :: fields => ',' :: (quote key ++ ':' :: (write x ++ writeFields fields))

end

end

mutual

theorem write_numChars : ∀ v : Json, write numChars v = chars v
  | .null => rfl
  | .bool true => rfl
  | .bool false => rfl
  | .num _ => rfl
  | .str _ => rfl
  | .arr [] => rfl
  | .arr (x :: xs) => by rw [write, chars, write_numChars x, writeElems_numChars xs]
  | .obj [] => rfl
  | .obj ((key, x) :: fields) => by
    rw [write, chars, write_numChars x, writeFields_numChars fields]

theorem writeElems_numChars : ∀ xs : List Json, writeElems numChars xs = elemsChars xs
  | [] => rfl
  | x :: xs => by rw [writeElems, elemsChars, write_numChars x, writeElems_numChars xs]

theorem writeFields_numChars : ∀ fields : List (String × Json),
    writeFields numChars fields = fieldsChars fields
  | [] => rfl
  | (key, x) :: fields => by
    rw [writeFields, fieldsChars, write_numChars x, writeFields_numChars fields]

end

/-! ## sizes -/

section
variable (number : JsonNumber → List Char)

def size (v : Json) : Nat := charBytes (write number v)

/-- each element, and the comma or bracket after it -/
def elemsSize : List Json → Nat
  | [] => 0
  | x :: xs => size number x + 1 + elemsSize xs

/-- each field, and the comma or brace after it -/
def fieldsSize : List (String × Json) → Nat
  | [] => 0
  | (key, x) :: fields => charBytes (quote key) + 1 + size number x + 1 + fieldsSize fields

theorem size_str (s : String) :
    size number (.str s) = charBytes (s.toList.flatMap escape) + 2 := by
  show charBytes ('"' :: (s.toList.flatMap escape ++ ['"'])) = _
  have hquote : Char.utf8Size '"' = 1 := by decide
  rw [charBytes_cons, charBytes_append, charBytes_cons, charBytes_nil, hquote]
  omega

theorem size_writeElems (xs : List Json) :
    charBytes (writeElems number xs) = 1 + elemsSize number xs := by
  induction xs with
  | nil => rfl
  | cons x xs ih =>
    have hcomma : Char.utf8Size ',' = 1 := by decide
    rw [writeElems, charBytes_cons, charBytes_append, ih, elemsSize, size, hcomma]
    omega

theorem size_writeFields (fields : List (String × Json)) :
    charBytes (writeFields number fields) = 1 + fieldsSize number fields := by
  induction fields with
  | nil => rfl
  | cons p fields ih =>
    obtain ⟨key, x⟩ := p
    have hcomma : Char.utf8Size ',' = 1 := by decide
    have hcolon : Char.utf8Size ':' = 1 := by decide
    rw [writeFields, charBytes_cons, charBytes_append, charBytes_cons, charBytes_append, ih,
      fieldsSize, size, hcomma, hcolon]
    omega

theorem size_arr {xs : List Json} (h : xs ≠ []) :
    size number (.arr xs) = 1 + elemsSize number xs := by
  cases xs with
  | nil => exact absurd rfl h
  | cons x xs =>
    have hbracket : Char.utf8Size '[' = 1 := by decide
    show charBytes ('[' :: (write number x ++ writeElems number xs)) = _
    rw [charBytes_cons, charBytes_append, size_writeElems, elemsSize, size, hbracket]
    omega

theorem size_obj {fields : List (String × Json)} (h : fields ≠ []) :
    size number (.obj fields) = 1 + fieldsSize number fields := by
  cases fields with
  | nil => exact absurd rfl h
  | cons p fields =>
    obtain ⟨key, x⟩ := p
    have hbrace : Char.utf8Size '{' = 1 := by decide
    have hcolon : Char.utf8Size ':' = 1 := by decide
    show charBytes ('{' :: (quote key ++ ':' :: (write number x ++ writeFields number fields))) = _
    rw [charBytes_cons, charBytes_append, charBytes_cons, charBytes_append, size_writeFields,
      fieldsSize, size, hbrace, hcolon]
    omega

end

end Json
