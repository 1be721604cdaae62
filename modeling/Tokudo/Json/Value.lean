import Mathlib.Tactic.Common

/-!
# JSON values

`Json` is a JSON value.  A number is a decimal `mantissa * 10 ^ exponent`, as its text says; an
object is a list of fields in the order in which they are written.

`Json.insertField` is insertion into a map kept in the order of its keys: a field that is there is
replaced, a new one goes before the first field with a greater key.
-/

structure JsonNumber where
  mantissa : Int
  exponent : Int
  deriving DecidableEq

inductive Json where
  | null
  | bool (b : Bool)
  | num (n : JsonNumber)
  | str (s : String)
  | arr (xs : List Json)
  | obj (fields : List (String × Json))

namespace Json

instance : Inhabited Json := ⟨.null⟩

def ofNat (n : Nat) : Json := .num ⟨n, 0⟩

def ofOption {α : Type} (f : α → Json) : Option α → Json
  | none => .null
  | some a => f a

def ofString? (s : Option String) : Json := ofOption .str s

def field? (k : String) (fields : List (String × Json)) : Option Json := fields.lookup k

/-- the order of the keys of a map: by code points, which is by bytes -/
def codesLt : List Char → List Char → Bool
  | _, [] => false
  | [], _ :: _ => true
  | c :: cs, d :: ds => if c = d then codesLt cs ds else decide (c.toNat < d.toNat)

/-- insertion into a map kept in the order of its keys -/
def insertField (k : String) (v : Json) : List (String × Json) → List (String × Json)
  | [] => [(k, v)]
  | (k', v') :: fields =>
    if k' = k then (k, v) :: fields
    else if codesLt k.toList k'.toList then (k, v) :: (k', v') :: fields
    else (k', v') :: insertField k v fields

theorem ofString?_injective {s t : Option String} (h : ofString? s = ofString? t) : s = t := by
  cases s <;> cases t
  · rfl
  · cases h
  · cases h
  · injection h with h
    rw [h]

end Json
