import Tokudo.Json.Value
import Mathlib.Data.List.Basic

/-!
# Paths into JSON values

A path is a list of steps, each into a field of an object or an element of an array.

* `Json.child? s v`   what the step `s` leads to from `v`;
* `Json.at? v p`      what stands in `v` at the path `p`.
-/

namespace Json

inductive Step where
  | key (k : String)
  | index (i : Nat)
  deriving DecidableEq

abbrev Path := List Step

def child? : Step → Json → Option Json
  | .key k, .obj fields => field? k fields
  | .index i, .arr xs => xs[i]?
  | _, _ => none

def at? (v : Json) : Path → Option Json
  | [] => some v
  | s :: p => (child? s v).bind fun w => at? w p

theorem at?_cons (v : Json) (s : Step) (p : Path) :
    at? v (s :: p) = (child? s v).bind fun w => at? w p := rfl

theorem at?_append (v : Json) (p q : Path) :
    at? v (p ++ q) = (at? v p).bind fun w => at? w q := by
  induction p generalizing v with
  | nil => rfl
  | cons s p ih =>
    rw [List.cons_append, at?_cons, at?_cons, Option.bind_assoc]
    congr 1
    funext w
    exact ih w

theorem child?_str (s : Step) (t : String) : child? s (.str t) = none := by
  cases s <;> rfl

theorem field?_cons (k k' : String) (x : Json) (fields : List (String × Json)) :
    field? k ((k', x) :: fields) = if k = k' then some x else field? k fields := by
  unfold field?
  rw [List.lookup_cons]
  by_cases h : k = k'
  · rw [if_pos h, beq_iff_eq.mpr h]
  · rw [if_neg h, beq_eq_false_iff_ne.mpr h]

end Json
