import Tokudo.Json.RoundTrip

/-!
# The pretty writer

`Json.prettyChars depth v` is the text of `v` over several lines, two blanks for every array and
object that is open.  A number with a fraction is written with a decimal point.

* `run_prettyChars`   below any stack, the machine reads this text as the value;
* `read_pretty`       so the reader reads back what the pretty writer writes.
-/

namespace Json

/-! ## the writer -/

def newline (depth : Nat) : List Char := '\n' :: List.replicate (2 * depth) ' '

/-- the last `k` digits of `m` -/
def fracChars : Nat → Nat → List Char
  | 0, _ => []
  | k + 1, m => fracChars k (m / 10) ++ [Nat.digitChar (m % 10)]

def naturalChars (neg : Bool) (m : Nat) : List Char :=
  if neg then '-' :: Nat.toDigits 10 m else Nat.toDigits 10 m

def decimalChars (n : JsonNumber) : List Char :=
  match n.exponent with
  | .ofNat _ => numChars n
  | .negSucc k =>
    naturalChars (decide (n.mantissa < 0)) (n.mantissa.natAbs / 10 ^ (k + 1)) ++
      '.' :: fracChars (k + 1) n.mantissa.natAbs

mutual

def prettyChars (depth : Nat) : Json → List Char
  | .null => ['n', 'u', 'l', 'l']
  | .bool true => ['t', 'r', 'u', 'e']
  | .bool false => ['f', 'a', 'l', 's', 'e']
  | .num n => decimalChars n
  | .str s => quote s
  | .arr [] => ['[', ']']
  | .arr (x :: xs) =>
    '[' :: (newline (depth + 1) ++ (prettyChars (depth + 1) x ++ prettyElems depth xs))
  | .obj [] => ['{', '}']
  | .obj ((key, x) :: fields) =>
    '{' :: (newline (depth + 1) ++
      (quote key ++ ':' :: ' ' :: (prettyChars (depth + 1) x ++ prettyFields depth fields)))

def prettyElems (depth : Nat) : List Json → List Char
  | [] => newline depth ++ [']']
  | x :: xs => ',' :: (newline (depth + 1) ++ (prettyChars (depth + 1) x ++ prettyElems depth xs))

def prettyFields (depth : Nat) : List (String × Json) → List Char
  | [] => newline depth ++ ['}']
  | (key, x) :: fields =>
    ',' :: (newline (depth + 1) ++
      (quote key ++ ':' :: ' ' :: (prettyChars (depth + 1) x ++ prettyFields depth fields)))

end

def prettyText (v : Json) : String := String.ofList (prettyChars 0 v)

/-! ## numbers -/

theorem run_fracChars (k m : Nat) {n : Num} (hp : n.phase = .dot)
    (hm : n.mant = m / 10 ^ (k + 1)) :
    n.run (fracChars (k + 1) m) = some { n with mant := m, fracDigits := k + 1, phase := .frac } := by
  induction k generalizing m with
  | zero =>
    have hmod : m % 10 < 10 := Nat.mod_lt m (by decide)
    have hsplit : 10 * n.mant + m % 10 = m := by
      rw [hm, Nat.zero_add, Nat.pow_one]
      exact Nat.div_add_mod m 10
    show (n.step (Nat.digitChar (m % 10))).bind some = _
    rw [step_dotDigit hmod hp, hsplit]
    rfl
  | succ k ih =>
    have hmod : m % 10 < 10 := Nat.mod_lt m (by decide)
    have hdiv : n.mant = m / 10 / 10 ^ (k + 1) := by
      rw [hm, Nat.div_div_eq_div_mul, ← Nat.pow_succ']
    show n.run (fracChars (k + 1) (m / 10) ++ [Nat.digitChar (m % 10)]) = _
    rw [Num.run_append, ih (m / 10) hdiv]
    show (Num.step _ (Nat.digitChar (m % 10))).bind some = _
    rw [step_fracDigit hmod rfl]
    show some _ = some _
    rw [Nat.div_add_mod m 10]

theorem run_naturalChars (neg : Bool) (m : Nat) (k : List Frame) :
    run (.value k) (naturalChars neg m) =
      .number { Num.init neg with mant := m, phase := if m = 0 then .zero else .int } k := by
  cases neg with
  | true =>
    show run (.number (Num.init true) k) (Nat.toDigits 10 m) = _
    exact run_number (run_digits true m) k
  | false =>
    have hi : ¬ (m : Int) < 0 := by omega
    have hchars : intChars (m : Int) = Nat.toDigits 10 m := by
      rw [intChars, if_neg hi, Int.natAbs_natCast]
    show run (.value k) (Nat.toDigits 10 m) = _
    rw [← hchars, run_int, Num.ofInt, decide_eq_false hi, Int.natAbs_natCast]

/-- the state after the text of `v`: what may follow a value ends it -/
def Ends (s : State) (v : Json) (k : List Frame) : Prop :=
  (∀ c, c = ',' ∨ c = ']' ∨ c = '}' ∨ c = '\n' → step s c = stepAfter v k c) ∧
    (k = [] → result s = some v)

theorem Reads.ends {s : State} {v : Json} {k : List Frame} (h : Reads s v k) : Ends s v k := by
  refine ⟨fun c hc => h.step hc, ?_⟩
  intro hk
  subst hk
  exact h.result

theorem ends_after (v : Json) (k : List Frame) : Ends (.after v k) v k :=
  Reads.ends (.inl rfl)

theorem ends_frac {n : Num} {v : Json} (hp : n.phase = .frac) (hv : n.value = some v)
    (k : List Frame) : Ends (.number n k) v k := by
  constructor
  · intro c hc
    have hnone : n.step c = none := by
      rcases hc with rfl | rfl | rfl | rfl <;> simp [Num.step, hp]
    simp [step, hnone, hv]
  · intro hk
    subst hk
    exact hv

theorem run_decimalChars (n : JsonNumber) (k : List Frame) :
    Ends (run (.value k) (decimalChars n)) (.num n) k := by
  obtain ⟨m, e⟩ := n
  cases e with
  | ofNat e => exact (run_num ⟨m, .ofNat e⟩ k).ends
  | negSucc e =>
    let whole : Num := { Num.init (decide (m < 0)) with
      mant := m.natAbs / 10 ^ (e + 1)
      phase := if m.natAbs / 10 ^ (e + 1) = 0 then .zero else .int }
    have hdot : whole.step '.' = some { whole with phase := .dot } := by
      by_cases h0 : m.natAbs / 10 ^ (e + 1) = 0
      · simp [Num.step, whole, h0]
      · simp [Num.step, whole, h0]
    have hfrac : whole.run ('.' :: fracChars (e + 1) m.natAbs) =
        some { whole with mant := m.natAbs, fracDigits := e + 1, phase := .frac } := by
      show (whole.step '.').bind (fun n => n.run (fracChars (e + 1) m.natAbs)) = _
      rw [hdot]
      exact run_fracChars e m.natAbs rfl rfl
    show Ends (run _ (naturalChars (decide (m < 0)) (m.natAbs / 10 ^ (e + 1)) ++
      '.' :: fracChars (e + 1) m.natAbs)) _ k
    rw [run_append, run_naturalChars, run_number hfrac]
    refine ends_frac rfl ?_ k
    show some (Json.num ⟨signed (decide (m < 0)) m.natAbs, 0 - ((e + 1 : Nat) : Int)⟩) = _
    rw [signed_natAbs, Int.negSucc_eq, Int.zero_sub]
    rfl

/-! ## lines -/

theorem run_blanks {s : State} (h : step s ' ' = s) (n : Nat) :
    run s (List.replicate n ' ') = s := by
  induction n with
  | zero => rfl
  | succ n ih =>
    rw [List.replicate_succ, run_cons, h, ih]

theorem run_newline {s : State} (hn : step s '\n' = s) (hb : step s ' ' = s) (depth : Nat) :
    run s (newline depth) = s := by
  rw [newline, run_cons, hn, run_blanks hb]

/-- after a value in an array or an object, the next line is blank -/
theorem Ends.run_newline {s : State} {v : Json} {f : Frame} {k : List Frame}
    (h : Ends s v (f :: k)) (depth : Nat) : run s (newline depth) = .after v (f :: k) := by
  have hstep : step s '\n' = .after v (f :: k) := by
    rw [h.1 '\n' (by decide)]
    cases f <;> rfl
  have hblank : step (.after v (f :: k)) ' ' = .after v (f :: k) := by
    cases f <;> rfl
  rw [newline, run_cons, hstep, run_blanks hblank]

/-! ## the round trip -/

theorem decimalChars_head (n : JsonNumber) :
    ∃ c cs, decimalChars n = c :: cs ∧ isBlank c = false ∧ c ≠ ']' := by
  obtain ⟨m, e⟩ := n
  cases e with
  | ofNat e => exact chars_head (.num ⟨m, .ofNat e⟩)
  | negSucc e =>
    show ∃ c cs, naturalChars (decide (m < 0)) _ ++ _ = c :: cs ∧ _
    cases decide (m < 0) with
    | true => exact ⟨_, _, rfl, rfl, by decide⟩
    | false =>
      obtain ⟨c, cs, hds, hdig⟩ := digits_head (m.natAbs / 10 ^ (e + 1))
      show ∃ c cs, Nat.toDigits 10 (m.natAbs / 10 ^ (e + 1)) ++ _ = c :: cs ∧ _
      rw [hds]
      exact ⟨c, _, rfl, (digit_ne hdig).1, (digit_ne hdig).2.2.2.2.2.2.2.2⟩

theorem prettyChars_head (depth : Nat) (v : Json) :
    ∃ c cs, prettyChars depth v = c :: cs ∧ isBlank c = false ∧ c ≠ ']' := by
  cases v with
  | null => exact ⟨_, _, rfl, rfl, by decide⟩
  | bool b => cases b <;> exact ⟨_, _, rfl, rfl, by decide⟩
  | num n => exact decimalChars_head n
  | str s => exact ⟨_, _, rfl, rfl, by decide⟩
  | arr xs => cases xs <;> exact ⟨_, _, rfl, rfl, by decide⟩
  | obj fields =>
    cases fields with
    | nil => exact ⟨_, _, rfl, rfl, by decide⟩
    | cons p fields =>
      obtain ⟨key, x⟩ := p
      exact ⟨_, _, rfl, rfl, by decide⟩

mutual

/-- **The machine reads a value's pretty text**, below any stack. -/
theorem run_prettyChars : ∀ (v : Json) (depth : Nat) (k : List Frame),
    Ends (run (.value k) (prettyChars depth v)) v k
  | .null, _, k => ends_after .null k
  | .bool true, _, k => ends_after (.bool true) k
  | .bool false, _, k => ends_after (.bool false) k
  | .num n, _, k => run_decimalChars n k
  | .str s, _, k => (run_chars (.str s) k).ends
  | .arr [], _, k => ends_after (.arr []) k
  | .arr (x :: xs), depth, k => by
    have hfirst : run (.firstElem k) (prettyChars (depth + 1) x ++ prettyElems depth xs) =
        run (.value (.elems [] :: k)) (prettyChars (depth + 1) x ++ prettyElems depth xs) := by
      obtain ⟨c, cs, hx, hb, hc⟩ := prettyChars_head (depth + 1) x
      rw [hx]
      exact run_firstElem_cons hb hc _ k
    show Ends (run (.firstElem k) (newline (depth + 1) ++ (prettyChars (depth + 1) x ++
      prettyElems depth xs))) _ k
    rw [run_append, run_newline rfl rfl, hfirst, run_append,
      run_prettyElems xs depth [] x k _ (run_prettyChars x _ _)]
    exact ends_after _ k
  | .obj [], _, k => ends_after (.obj []) k
  | .obj ((key, x) :: fields), depth, k => by
    show Ends (run (.firstKey k) (newline (depth + 1) ++ (quote key ++ ':' :: ' ' ::
      (prettyChars (depth + 1) x ++ prettyFields depth fields)))) _ k
    rw [run_append, run_newline rfl rfl, run_key rfl, run_cons]
    show Ends (run (.value (.member [] key :: k)) _) _ k
    rw [run_append, run_prettyFields fields depth [] key x k _ (run_prettyChars x _ _)]
    exact ends_after _ k

theorem run_prettyElems : ∀ (xs : List Json) (depth : Nat) (done : List Json) (v : Json)
    (k : List Frame) (s : State), Ends s v (.elems done :: k) →
    run s (prettyElems depth xs) = .after (.arr (done.reverse ++ v :: xs)) k
  | [], depth, done, v, k, s, h => by
    show run s (newline depth ++ [']']) = _
    rw [run_append, h.run_newline]
    show stepAfter v (.elems done :: k) ']' = _
    simp [stepAfter, isBlank]
  | x :: xs, depth, done, v, k, s, h => by
    have hcomma : step s ',' = .value (.elems (v :: done) :: k) := by
      rw [h.1 ',' (by decide)]
      rfl
    show run (step s ',') (newline (depth + 1) ++ (prettyChars (depth + 1) x ++
      prettyElems depth xs)) = _
    rw [hcomma, run_append, run_newline rfl rfl, run_append,
      run_prettyElems xs depth (v :: done) x k _ (run_prettyChars x _ _), List.reverse_cons,
      List.append_assoc]
    rfl

theorem run_prettyFields : ∀ (fields : List (String × Json)) (depth : Nat)
    (done : List (String × Json)) (key : String) (v : Json) (k : List Frame) (s : State),
    Ends s v (.member done key :: k) →
    run s (prettyFields depth fields) = .after (.obj (done.reverse ++ (key, v) :: fields)) k
  | [], depth, done, key, v, k, s, h => by
    show run s (newline depth ++ ['}']) = _
    rw [run_append, h.run_newline]
    show stepAfter v (.member done key :: k) '}' = _
    simp [stepAfter, isBlank]
  | (key', x) :: fields, depth, done, key, v, k, s, h => by
    have hcomma : step s ',' = .key ((key, v) :: done) k := by
      rw [h.1 ',' (by decide)]
      rfl
    show run (step s ',') (newline (depth + 1) ++ (quote key' ++ ':' :: ' ' ::
      (prettyChars (depth + 1) x ++ prettyFields depth fields))) = _
    rw [hcomma, run_append, run_newline rfl rfl, run_key rfl, run_cons]
    show run (.value (.member ((key, v) :: done) key' :: k)) _ = _
    rw [run_append,
      run_prettyFields fields depth ((key, v) :: done) key' x k _ (run_prettyChars x _ _),
      List.reverse_cons, List.append_assoc]
    rfl

end

theorem read_pretty (v : Json) : read (prettyChars 0 v) = some v :=
  (run_prettyChars v 0 []).2 rfl

end Json
