import Tokudo.Json.Value

/-!
# JSON text: a writer, and a reader that is a machine over characters

`Json.chars v` is the compact text of `v`.  `Json.read` is a pushdown machine: a state (`State`), a
stack of the arrays and objects that are still open, one step for every character.  What follows
a complete value is not looked at.

Escapes of surrogates are refused; the writer writes none.
-/

namespace Json

/-! ## the writer -/

def shortEscapes : List (Char × Char) :=
  [('"', '"'), ('\\', '\\'), ('\x08', 'b'), ('\x0c', 'f'), ('\n', 'n'), ('\r', 'r'), ('\t', 't')]

def escape (c : Char) : List Char :=
  match shortEscapes.lookup c with
  | some e => ['\\', e]
  | none =>
    if c.toNat < 0x20 then
      ['\\', 'u', '0', '0', Nat.digitChar (c.toNat / 16), Nat.digitChar (c.toNat % 16)]
    else [c]

def quote (s : String) : List Char := '"' :: s.toList.flatMap escape ++ ['"']

def intChars (i : Int) : List Char :=
  if i < 0 then '-' :: Nat.toDigits 10 i.natAbs else Nat.toDigits 10 i.natAbs

def numChars (n : JsonNumber) : List Char :=
  intChars n.mantissa ++ if n.exponent = 0 then [] else 'e' :: intChars n.exponent

mutual

def chars : Json → List Char
  | .null => ['n', 'u', 'l', 'l']
  | .bool true => ['t', 'r', 'u', 'e']
  | .bool false => ['f', 'a', 'l', 's', 'e']
  | .num n => numChars n
  | .str s => quote s
  | .arr [] => ['[', ']']
  | .arr (x :: xs) => '[' :: (chars x ++ elemsChars xs)
  | .obj [] => ['{', '}']
  | .obj ((key, x) :: fields) => '{' :: (quote key ++ ':' :: (chars x ++ fieldsChars fields))

def elemsChars : List Json → List Char
  | [] => [']']
  | x :: xs => ',' :: (chars x ++ elemsChars xs)

def fieldsChars : List (String × Json) → List Char
  | [] => ['}']
  | (key, x) :: fields => ',' :: (quote key ++ ':' :: (chars x ++ fieldsChars fields))

end

def text (v : Json) : String := String.ofList (chars v)

/-! ## numbers -/

inductive Phase where
  | sign
  | zero
  | int
  | dot
  | frac
  | e
  | eSign
  | exp
  deriving DecidableEq

structure Num where
  neg : Bool
  mant : Nat
  fracDigits : Nat
  expNeg : Bool
  exp : Nat
  phase : Phase

def Num.init (neg : Bool) : Num := ⟨neg, 0, 0, false, 0, .sign⟩

def digit (c : Char) : Nat := c.toNat - '0'.toNat

/-- `none` if the character does not belong to the number -/
def Num.step (n : Num) (c : Char) : Option Num :=
  match n.phase with
  | .sign =>
    if c = '0' then some { n with phase := .zero }
    else if c.isDigit then some { n with mant := digit c, phase := .int } else none
  | .zero =>
    if c = '.' then some { n with phase := .dot }
    else if c = 'e' ∨ c = 'E' then some { n with phase := .e } else none
  | .int =>
    if c.isDigit then some { n with mant := 10 * n.mant + digit c }
    else if c = '.' then some { n with phase := .dot }
    else if c = 'e' ∨ c = 'E' then some { n with phase := .e } else none
  | .dot =>
    if c.isDigit then
      some { n with mant := 10 * n.mant + digit c, fracDigits := 1, phase := .frac }
    else none
  | .frac =>
    if c.isDigit then some { n with mant := 10 * n.mant + digit c, fracDigits := n.fracDigits + 1 }
    else if c = 'e' ∨ c = 'E' then some { n with phase := .e } else none
  | .e =>
    if c = '-' then some { n with expNeg := true, phase := .eSign }
    else if c = '+' then some { n with phase := .eSign }
    else if c.isDigit then some { n with exp := digit c, phase := .exp } else none
  | .eSign => if c.isDigit then some { n with exp := digit c, phase := .exp } else none
  | .exp => if c.isDigit then some { n with exp := 10 * n.exp + digit c } else none

def signed (neg : Bool) (n : Nat) : Int := if neg then -(n : Int) else n

def Num.value (n : Num) : Option Json :=
  match n.phase with
  | .zero | .int | .frac | .exp =>
    some (.num ⟨signed n.neg n.mant, signed n.expNeg n.exp - n.fracDigits⟩)
  | _ => none

/-! ## the machine -/

/-- an array or an object that is still open; what it has so far, the last one first -/
inductive Frame where
  | elems (done : List Json)
  | member (done : List (String × Json)) (key : String)

/-- inside a string: plain, after a backslash, or in the digits of a `\u` escape -/
inductive Escape where
  | plain
  | slash
  | hex (digits value : Nat)

inductive State where
  /-- a value comes next -/
  | value (k : List Frame)
  /-- after `[`: a value or `]` -/
  | firstElem (k : List Frame)
  /-- after an opening brace: a key or the closing brace -/
  | firstKey (k : List Frame)
  /-- after a comma in an object -/
  | key (done : List (String × Json)) (k : List Frame)
  /-- after a key -/
  | colon (done : List (String × Json)) (key : String) (k : List Frame)
  /-- inside a string, a value (`none`) or a key -/
  | string (target : Option (List (String × Json))) (acc : List Char) (escape : Escape)
      (k : List Frame)
  /-- inside `null`, `true` or `false` -/
  | word (rest : List Char) (v : Json) (k : List Frame)
  | number (n : Num) (k : List Frame)
  /-- a value has been read -/
  | after (v : Json) (k : List Frame)
  | failed

def isBlank (c : Char) : Bool := c = ' ' ∨ c = '\n' ∨ c = '\r' ∨ c = '\t'

def startValue (k : List Frame) (c : Char) : State :=
  if c = '{' then .firstKey k
  else if c = '[' then .firstElem k
  else if c = '"' then .string none [] .plain k
  else if c = 'n' then .word ['u', 'l', 'l'] .null k
  else if c = 't' then .word ['r', 'u', 'e'] (.bool true) k
  else if c = 'f' then .word ['a', 'l', 's', 'e'] (.bool false) k
  else if c = '-' then .number (.init true) k
  else match (Num.init false).step c with
    | some n => .number n k
    | none => .failed

def stepAfter (v : Json) (k : List Frame) (c : Char) : State :=
  match k with
  | [] => .after v []
  | .elems done :: k' =>
    if isBlank c then .after v k
    else if c = ',' then .value (.elems (v :: done) :: k')
    else if c = ']' then .after (.arr (v :: done).reverse) k'
    else .failed
  | .member done key :: k' =>
    if isBlank c then .after v k
    else if c = ',' then .key ((key, v) :: done) k'
    else if c = '}' then .after (.obj ((key, v) :: done).reverse) k'
    else .failed

def closeString (target : Option (List (String × Json))) (acc : List Char) (k : List Frame) : State :=
  match target with
  | none => .after (.str (String.ofList acc.reverse)) k
  | some done => .colon done (String.ofList acc.reverse) k

def unescape (e : Char) : Option Char :=
  if e = '/' then some '/' else (shortEscapes.map Prod.swap).lookup e

def hexValue (c : Char) : Option Nat :=
  if c.isDigit then some (digit c)
  else if 'a' ≤ c ∧ c ≤ 'f' then some (c.toNat - 'a'.toNat + 10)
  else if 'A' ≤ c ∧ c ≤ 'F' then some (c.toNat - 'A'.toNat + 10)
  else none

def stepString (target : Option (List (String × Json))) (acc : List Char) (escape : Escape)
    (k : List Frame) (c : Char) : State :=
  match escape with
  | .plain =>
    if c = '"' then closeString target acc k
    else if c = '\\' then .string target acc .slash k
    else if c.toNat < 0x20 then .failed
    else .string target (c :: acc) .plain k
  | .slash =>
    if c = 'u' then .string target acc (.hex 0 0) k
    else match unescape c with
      | some c' => .string target (c' :: acc) .plain k
      | none => .failed
  | .hex digits value =>
    match hexValue c with
    | none => .failed
    | some d =>
      if digits < 3 then .string target acc (.hex (digits + 1) (16 * value + d)) k
      else if (16 * value + d).isValidChar then
        .string target (Char.ofNat (16 * value + d) :: acc) .plain k
      else .failed

def step (s : State) (c : Char) : State :=
  match s with
  | .value k => if isBlank c then s else startValue k c
  | .firstElem k =>
    if isBlank c then s else if c = ']' then .after (.arr []) k else startValue (.elems [] :: k) c
  | .firstKey k =>
    if isBlank c then s
    else if c = '}' then .after (.obj []) k
    else if c = '"' then .string (some []) [] .plain k
    else .failed
  | .key done k =>
    if isBlank c then s else if c = '"' then .string (some done) [] .plain k else .failed
  | .colon done key k =>
    if isBlank c then s else if c = ':' then .value (.member done key :: k) else .failed
  | .string target acc escape k => stepString target acc escape k c
  | .word rest v k =>
    match rest with
    | [] => .failed
    | [r] => if c = r then .after v k else .failed
    | r :: rest => if c = r then .word rest v k else .failed
  | .number n k =>
    match n.step c with
    | some n => .number n k
    | none => match n.value with
      | some v => stepAfter v k c
      | none => .failed
  | .after v k => stepAfter v k c
  | .failed => .failed

def run (s : State) (cs : List Char) : State := cs.foldl step s

def result : State → Option Json
  | .after v [] => some v
  | .number n [] => n.value
  | _ => none

def read (cs : List Char) : Option Json := result (run (.value []) cs)

theorem run_cons (s : State) (c : Char) (cs : List Char) : run s (c :: cs) = run (step s c) cs := rfl
theorem run_append (s : State) (cs ds : List Char) : run s (cs ++ ds) = run (run s cs) ds :=
  List.foldl_append

end Json
