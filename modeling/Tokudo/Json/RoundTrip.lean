import Tokudo.Json.Text
import Mathlib.Tactic.IntervalCases

/-!
# The reader reads back what the writer writes

* `run_chars`            below any stack, the machine reads the text of a value as this value;
* `read_chars`           so the reader reads back what the writer writes;
* `chars_injective`      two values never have the same text;
* `read_within_line`     an object that is not complete at the end of a line stays incomplete when
                         another object's text follows on the next line.
-/

namespace Json

/-! ## strings -/

theorem hexValue_digitChar : ∀ d < 16, hexValue (Nat.digitChar d) = some d := by decide

theorem run_shortEscape (target : Option (List (String × Json))) (acc : List Char)
    (k : List Frame) {c e : Char} (h : (c, e) ∈ shortEscapes) :
    run (.string target acc .plain k) ['\\', e] = .string target (c :: acc) .plain k := by
  simp only [shortEscapes, List.mem_cons, Prod.mk.injEq, List.not_mem_nil, or_false] at h
  rcases h with ⟨rfl, rfl⟩ | ⟨rfl, rfl⟩ | ⟨rfl, rfl⟩ | ⟨rfl, rfl⟩ | ⟨rfl, rfl⟩ | ⟨rfl, rfl⟩ |
    ⟨rfl, rfl⟩ <;> rfl

theorem mem_of_lookup {α β : Type} [BEq α] [LawfulBEq α] {l : List (α × β)} {a : α} {b : β}
    (h : l.lookup a = some b) : (a, b) ∈ l := by
  obtain ⟨l₁, l₂, rfl, -⟩ := List.lookup_eq_some_iff.mp h
  exact List.mem_append_right _ List.mem_cons_self

theorem run_hexEscape (target : Option (List (String × Json))) (acc : List Char) (k : List Frame)
    {c : Char} (hc : c.toNat < 0x20) :
    run (.string target acc .plain k)
      ['\\', 'u', '0', '0', Nat.digitChar (c.toNat / 16), Nat.digitChar (c.toNat % 16)] =
    .string target (c :: acc) .plain k := by
  have h1 := hexValue_digitChar (c.toNat / 16) (by omega)
  have h2 := hexValue_digitChar (c.toNat % 16) (by omega)
  have hn : 16 * (c.toNat / 16) + c.toNat % 16 = c.toNat := by omega
  have hlast : step (.string target acc (.hex 2 0) k) (Nat.digitChar (c.toNat / 16)) =
      .string target acc (.hex 3 (c.toNat / 16)) k := by
    simp [step, stepString, h1]
  show step (step (.string target acc (.hex 2 0) k) _) _ = _
  rw [hlast]
  simp only [step, stepString, h2, hn, Nat.lt_irrefl, if_false, Char.ofNat_toNat]
  rw [if_pos]
  exact .inl (by omega)

theorem run_escape (target : Option (List (String × Json))) (acc : List Char) (k : List Frame)
    (c : Char) :
    run (.string target acc .plain k) (escape c) = .string target (c :: acc) .plain k := by
  unfold escape
  cases hs : shortEscapes.lookup c with
  | some e => exact run_shortEscape target acc k (mem_of_lookup hs)
  | none =>
    have hq : c ≠ '"' := by rintro rfl; cases hs
    have hb : c ≠ '\\' := by rintro rfl; cases hs
    by_cases hc : c.toNat < 0x20
    · simp only [hc, if_true]
      exact run_hexEscape target acc k hc
    · simp only [hc, if_false]
      show stepString target acc .plain k c = _
      simp [stepString, hq, hb, hc]

theorem run_escapes (target : Option (List (String × Json))) (cs : List Char) (acc : List Char)
    (k : List Frame) :
    run (.string target acc .plain k) (cs.flatMap escape) =
      .string target (cs.reverse ++ acc) .plain k := by
  induction cs generalizing acc with
  | nil => rfl
  | cons c cs ih =>
    rw [List.flatMap_cons, run_append, run_escape, ih, List.reverse_cons, List.append_assoc]
    rfl

theorem run_quote (target : Option (List (String × Json))) (s : String) (k : List Frame) :
    run (.string target [] .plain k) (s.toList.flatMap escape ++ ['"']) =
      closeString target s.toList.reverse k := by
  rw [run_append, run_escapes, List.append_nil]
  rfl

/-! ## numbers -/

def Num.run (n : Num) (cs : List Char) : Option Num := cs.foldlM Num.step n

theorem Num.run_append (n : Num) (cs ds : List Char) :
    n.run (cs ++ ds) = (n.run cs).bind fun n' => n'.run ds := List.foldlM_append

theorem run_number {n n' : Num} {cs : List Char} (h : n.run cs = some n') (k : List Frame) :
    Json.run (.number n k) cs = .number n' k := by
  induction cs generalizing n with
  | nil =>
    cases h
    rfl
  | cons c cs ih =>
    obtain ⟨n₁, h₁, h₂⟩ := Option.bind_eq_some_iff.mp h
    rw [run_cons]
    have hstep : step (.number n k) c = .number n₁ k := by simp [step, h₁]
    rw [hstep]
    exact ih h₂

theorem digit_digitChar : ∀ d < 10, digit (Nat.digitChar d) = d := by decide

theorem isDigit_digitChar : ∀ d < 10, (Nat.digitChar d).isDigit = true := by decide

theorem step_sign : ∀ d < 10, ∀ neg,
    (Num.init neg).step (Nat.digitChar d) =
      some { Num.init neg with mant := d, phase := if d = 0 then .zero else .int } := by
  intro d hd neg
  interval_cases d <;> rfl

/-- the digits of a number: a first one, and then one after the other -/
theorem toDigits_induction {P : Nat → List Char → Prop}
    (first : ∀ d, d < 10 → P d [Nat.digitChar d])
    (next : ∀ m cs d, m ≠ 0 → d < 10 → P m cs → P (10 * m + d) (cs ++ [Nat.digitChar d])) (m : Nat) :
    P m (Nat.toDigits 10 m) := by
  induction m using Nat.strongRecOn with
  | _ m ih =>
    by_cases hm : m < 10
    · rw [Nat.toDigits_of_lt_base hm]
      exact first m hm
    · have hd : m / 10 ≠ 0 := by omega
      have hmod : m % 10 < 10 := Nat.mod_lt m (by decide)
      have hsplit : 10 * (m / 10) + m % 10 = m := Nat.div_add_mod m 10
      have hnext := next (m / 10) (Nat.toDigits 10 (m / 10)) (m % 10) hd hmod (ih _ (by omega))
      rw [hsplit] at hnext
      rw [Nat.toDigits_of_base_le (by decide) (by omega)]
      exact hnext

section
variable {n : Num} {d : Nat} (hd : d < 10)
include hd

theorem step_intDigit (hn : n.phase = .int) :
    n.step (Nat.digitChar d) = some { n with mant := 10 * n.mant + d } := by
  simp only [Num.step, hn, isDigit_digitChar d hd, digit_digitChar d hd, if_true]

theorem step_dotDigit (hn : n.phase = .dot) :
    n.step (Nat.digitChar d) =
      some { n with mant := 10 * n.mant + d, fracDigits := 1, phase := .frac } := by
  simp only [Num.step, hn, isDigit_digitChar d hd, digit_digitChar d hd, if_true]

theorem step_fracDigit (hn : n.phase = .frac) :
    n.step (Nat.digitChar d) =
      some { n with mant := 10 * n.mant + d, fracDigits := n.fracDigits + 1 } := by
  simp only [Num.step, hn, isDigit_digitChar d hd, digit_digitChar d hd, if_true]

theorem step_firstExp (hn : n.phase = .e ∨ n.phase = .eSign) :
    n.step (Nat.digitChar d) = some { n with exp := d, phase := .exp } := by
  rcases hn with h | h <;> interval_cases d <;> simp [Num.step, h] <;> rfl

theorem step_nextExp (hn : n.phase = .exp) :
    n.step (Nat.digitChar d) = some { n with exp := 10 * n.exp + d } := by
  simp only [Num.step, hn, isDigit_digitChar d hd, digit_digitChar d hd, if_true]

end

theorem run_digits (neg : Bool) (m : Nat) :
    (Num.init neg).run (Nat.toDigits 10 m) =
      some { Num.init neg with mant := m, phase := if m = 0 then .zero else .int } := by
  refine toDigits_induction (P := fun m cs => (Num.init neg).run cs =
    some { Num.init neg with mant := m, phase := if m = 0 then .zero else .int }) ?_ ?_ m
  · intro d hd
    show ((Num.init neg).step (Nat.digitChar d)).bind some = _
    rw [step_sign d hd]
    rfl
  · intro m cs d hm hd ih
    have hm' : ¬ 10 * m + d = 0 := by omega
    rw [if_neg hm] at ih
    rw [Num.run_append, ih, if_neg hm']
    show (Num.step _ (Nat.digitChar d)).bind some = _
    rw [step_intDigit hd rfl]
    rfl

theorem run_expDigits (n : Num) (hn : n.phase = .e ∨ n.phase = .eSign) (m : Nat) :
    n.run (Nat.toDigits 10 m) = some { n with exp := m, phase := .exp } := by
  refine toDigits_induction
    (P := fun m cs => n.run cs = some { n with exp := m, phase := .exp }) ?_ ?_ m
  · intro d hd
    show (n.step (Nat.digitChar d)).bind some = _
    rw [step_firstExp hd hn]
    rfl
  · intro m cs d _ hd ih
    rw [Num.run_append, ih]
    show (Num.step _ (Nat.digitChar d)).bind some = _
    rw [step_nextExp hd rfl]
    rfl

/-- the state after the text of `v`: it is read, or the number it is may still go on -/
def Reads (s : State) (v : Json) (k : List Frame) : Prop :=
  s = .after v k ∨
    ∃ n, s = .number n k ∧ n.value = some v ∧ (n.phase = .zero ∨ n.phase = .int ∨ n.phase = .exp)

theorem Reads.step {s : State} {v : Json} {k : List Frame} (h : Reads s v k) {c : Char}
    (hc : c = ',' ∨ c = ']' ∨ c = '}' ∨ c = '\n') : step s c = stepAfter v k c := by
  rcases h with rfl | ⟨n, rfl, hv, hn⟩
  · rfl
  · have hnone : n.step c = none := by
      rcases hn with h | h | h <;> rcases hc with rfl | rfl | rfl | rfl <;> simp [Num.step, h]
    simp [Json.step, hnone, hv]

theorem Reads.result {s : State} {v : Json} (h : Reads s v []) : result s = some v := by
  rcases h with rfl | ⟨n, rfl, hv, -⟩
  · rfl
  · exact hv

theorem digit_ne {c : Char} (h : c.isDigit = true) :
    isBlank c = false ∧ c ≠ '{' ∧ c ≠ '[' ∧ c ≠ '"' ∧ c ≠ 'n' ∧ c ≠ 't' ∧ c ≠ 'f' ∧ c ≠ '-' ∧
      c ≠ ']' := by
  refine ⟨?_, ?_, ?_, ?_, ?_, ?_, ?_, ?_, ?_⟩
  · cases hb : isBlank c with
    | false => rfl
    | true =>
      simp only [isBlank, decide_eq_true_eq] at hb
      rcases hb with rfl | rfl | rfl | rfl <;> cases h
  all_goals rintro rfl; cases h

theorem startValue_digit {c : Char} (h : c.isDigit = true) (k : List Frame) {n : Num}
    (hn : (Num.init false).step c = some n) : startValue k c = .number n k := by
  obtain ⟨-, h1, h2, h3, h4, h5, h6, h7, -⟩ := digit_ne h
  simp [startValue, h1, h2, h3, h4, h5, h6, h7, hn]

theorem signed_natAbs (i : Int) : signed (decide (i < 0)) i.natAbs = i := by
  unfold signed
  by_cases h : i < 0
  · simp only [h, decide_true, if_true]
    omega
  · simp only [h, decide_false, Bool.false_eq_true, if_false]
    omega

theorem digits_head (m : Nat) : ∃ c cs, Nat.toDigits 10 m = c :: cs ∧ c.isDigit = true := by
  cases hds : Nat.toDigits 10 m with
  | nil => exact absurd hds Nat.toDigits_ne_nil
  | cons c cs =>
    have hdig : c.isDigit = true :=
      Nat.isDigit_of_mem_toDigits (by decide) (by decide) (hds ▸ List.mem_cons_self)
    exact ⟨c, cs, rfl, hdig⟩

def Num.ofInt (i : Int) : Num :=
  { Num.init (decide (i < 0)) with mant := i.natAbs, phase := if i.natAbs = 0 then .zero else .int }

theorem run_int (i : Int) (k : List Frame) :
    run (.value k) (intChars i) = .number (Num.ofInt i) k := by
  unfold intChars
  by_cases hi : i < 0
  · rw [if_pos hi, run_cons]
    show run (.number (Num.init true) k) _ = _
    rw [run_number (run_digits true i.natAbs), Num.ofInt, decide_eq_true hi]
  · rw [if_neg hi, Num.ofInt, decide_eq_false hi]
    have hrun := run_digits false i.natAbs
    obtain ⟨c, cs, hds, hdig⟩ := digits_head i.natAbs
    rw [hds] at hrun ⊢
    obtain ⟨n₁, h₁, h₂⟩ := Option.bind_eq_some_iff.mp hrun
    have hstep : step (.value k) c = .number n₁ k := by
      simp only [step, (digit_ne hdig).1, Bool.false_eq_true, if_false]
      exact startValue_digit hdig k h₁
    rw [run_cons, hstep]
    exact run_number h₂ k

theorem run_exp {n : Num} (hn : n.phase = .e) (hneg : n.expNeg = false) (i : Int) :
    n.run (intChars i) = some { n with expNeg := decide (i < 0), exp := i.natAbs, phase := .exp } := by
  unfold intChars
  by_cases hi : i < 0
  · rw [if_pos hi, decide_eq_true hi]
    have hminus : n.step '-' = some { n with expNeg := true, phase := .eSign } := by
      simp [Num.step, hn]
    show (n.step '-').bind (fun n' => n'.run (Nat.toDigits 10 i.natAbs)) = _
    rw [hminus]
    exact run_expDigits _ (.inr rfl) i.natAbs
  · rw [if_neg hi, decide_eq_false hi, run_expDigits n (.inl hn), hneg]

theorem run_num (n : JsonNumber) (k : List Frame) :
    Reads (run (.value k) (numChars n)) (.num n) k := by
  obtain ⟨m, e⟩ := n
  unfold numChars
  rw [run_append, run_int]
  have hphase : (Num.ofInt m).phase = .zero ∨ (Num.ofInt m).phase = .int := by
    simp only [Num.ofInt]
    split
    · exact .inl rfl
    · exact .inr rfl
  by_cases he : e = 0
  · subst he
    refine .inr ⟨Num.ofInt m, rfl, ?_, ?_⟩
    · have hval : (Num.ofInt m).value =
          some (.num ⟨signed (decide (m < 0)) m.natAbs, signed false 0 - ((0 : Nat) : Int)⟩) := by
        rcases hphase with h | h <;> simp only [Num.value, h] <;> rfl
      rw [hval, signed_natAbs]
      rfl
    · rcases hphase with h | h
      · exact .inl h
      · exact .inr (.inl h)
  · simp only [he, if_false]
    have hstep : (Num.ofInt m).step 'e' = some { Num.ofInt m with phase := .e } := by
      rcases hphase with h | h <;> simp [Num.step, h]
    have hrun : (Num.ofInt m).run ('e' :: intChars e) = some
        { Num.ofInt m with expNeg := decide (e < 0), exp := e.natAbs, phase := .exp } := by
      show ((Num.ofInt m).step 'e').bind (fun n' => n'.run (intChars e)) = _
      rw [hstep]
      exact run_exp rfl rfl e
    refine .inr ⟨_, run_number hrun k, ?_, .inr (.inr rfl)⟩
    simp [Num.value, Num.ofInt, Num.init, signed_natAbs]

/-! ## the round trip -/

theorem chars_head (v : Json) : ∃ c cs, chars v = c :: cs ∧ isBlank c = false ∧ c ≠ ']' := by
  cases v with
  | null => exact ⟨_, _, rfl, rfl, by decide⟩
  | bool b => cases b <;> exact ⟨_, _, rfl, rfl, by decide⟩
  | str s => exact ⟨_, _, rfl, rfl, by decide⟩
  | arr xs => cases xs <;> exact ⟨_, _, rfl, rfl, by decide⟩
  | obj fields =>
    cases fields with
    | nil => exact ⟨_, _, rfl, rfl, by decide⟩
    | cons p fields => obtain ⟨key, x⟩ := p; exact ⟨_, _, rfl, rfl, by decide⟩
  | num n =>
    show ∃ c cs, intChars n.mantissa ++ _ = c :: cs ∧ _
    unfold intChars
    by_cases hi : n.mantissa < 0
    · rw [if_pos hi]
      exact ⟨_, _, rfl, rfl, by decide⟩
    · rw [if_neg hi]
      obtain ⟨c, cs, hds, hdig⟩ := digits_head n.mantissa.natAbs
      rw [hds]
      exact ⟨c, _, rfl, (digit_ne hdig).1, (digit_ne hdig).2.2.2.2.2.2.2.2⟩

theorem run_firstElem_cons {c : Char} (hb : isBlank c = false) (hc : c ≠ ']') (cs : List Char)
    (k : List Frame) :
    run (.firstElem k) (c :: cs) = run (.value (.elems [] :: k)) (c :: cs) := by
  rw [run_cons, run_cons]
  simp only [step, hb, hc, Bool.false_eq_true, if_false]

theorem run_firstElem (x : Json) (k : List Frame) :
    run (.firstElem k) (chars x) = run (.value (.elems [] :: k)) (chars x) := by
  obtain ⟨c, cs, hx, hb, hc⟩ := chars_head x
  rw [hx]
  exact run_firstElem_cons hb hc cs k

theorem run_key {s : State} {done : List (String × Json)} {k : List Frame}
    (hs : step s '"' = .string (some done) [] .plain k) (key : String) (cs : List Char) :
    run s (quote key ++ ':' :: cs) = run (.value (.member done key :: k)) cs := by
  show run (step s '"') (key.toList.flatMap escape ++ ['"'] ++ ':' :: cs) = _
  rw [hs, run_append, run_quote, closeString, List.reverse_reverse, String.ofList_toList]
  rfl

mutual

/-- **The machine reads a value's text**, below any stack. -/
theorem run_chars : ∀ (v : Json) (k : List Frame), Reads (run (.value k) (chars v)) v k
  | .null, _ => .inl rfl
  | .bool true, _ => .inl rfl
  | .bool false, _ => .inl rfl
  | .num n, k => run_num n k
  | .str s, k => by
    left
    show run (.string none [] .plain k) (s.toList.flatMap escape ++ ['"']) = _
    rw [run_quote, closeString, List.reverse_reverse, String.ofList_toList]
  | .arr [], _ => .inl rfl
  | .arr (x :: xs), k => by
    left
    show run (.firstElem k) (chars x ++ elemsChars xs) = _
    rw [run_append, run_firstElem]
    exact run_elems xs [] x k _ (run_chars x _)
  | .obj [], _ => .inl rfl
  | .obj ((key, x) :: fields), k => by
    left
    show run (.firstKey k) (quote key ++ ':' :: (chars x ++ fieldsChars fields)) = _
    rw [run_key rfl, run_append]
    exact run_fields fields [] key x k _ (run_chars x _)

theorem run_elems : ∀ (xs done : List Json) (v : Json) (k : List Frame) (s : State),
    Reads s v (.elems done :: k) → run s (elemsChars xs) = .after (.arr (done.reverse ++ v :: xs)) k
  | [], done, v, k, s, h => by
    show step s ']' = _
    rw [h.step (by decide)]
    simp [stepAfter, isBlank]
  | x :: xs, done, v, k, s, h => by
    have hcomma : step s ',' = .value (.elems (v :: done) :: k) := by
      rw [h.step (by decide)]
      rfl
    show run (step s ',') (chars x ++ elemsChars xs) = _
    rw [hcomma, run_append, run_elems xs (v :: done) x k _ (run_chars x _), List.reverse_cons,
      List.append_assoc]
    rfl

theorem run_fields : ∀ (fields done : List (String × Json)) (key : String) (v : Json)
    (k : List Frame) (s : State), Reads s v (.member done key :: k) →
    run s (fieldsChars fields) = .after (.obj (done.reverse ++ (key, v) :: fields)) k
  | [], done, key, v, k, s, h => by
    show step s '}' = _
    rw [h.step (by decide)]
    simp [stepAfter, isBlank]
  | (key', x) :: fields, done, key, v, k, s, h => by
    have hcomma : step s ',' = .key ((key, v) :: done) k := by
      rw [h.step (by decide)]
      rfl
    show run (step s ',') (quote key' ++ ':' :: (chars x ++ fieldsChars fields)) = _
    rw [hcomma, run_key rfl, run_append,
      run_fields fields ((key, v) :: done) key' x k _ (run_chars x _), List.reverse_cons,
      List.append_assoc]
    rfl

end

theorem run_after_nil (v : Json) (cs : List Char) : run (.after v []) cs = .after v [] := by
  induction cs with
  | nil => rfl
  | cons c cs ih => exact ih

theorem read_chars (v : Json) : read (chars v) = some v := (run_chars v []).result

theorem chars_injective {v w : Json} (h : chars v = chars w) : v = w := by
  have hv := read_chars v
  rw [h, read_chars w] at hv
  exact (Option.some.inj hv).symm

theorem text_injective {v w : Json} (h : text v = text w) : v = w :=
  chars_injective (String.ofList_injective h)

/-! ## what a line can hold -/

/-- the machine is inside a container, or has refused, or has read a value -/
def Inside : State → Prop
  | .value k => k ≠ []
  | .word rest _ k => k ≠ [] ∧ '\n' ∉ rest
  | .number _ k => k ≠ []
  | _ => True

theorem inside_startValue {k : List Frame} (hk : k ≠ []) (c : Char) : Inside (startValue k c) := by
  unfold startValue
  repeat' split
  all_goals first | exact trivial | exact hk | exact ⟨hk, by decide⟩

theorem inside_stepAfter (v : Json) (k : List Frame) (c : Char) : Inside (stepAfter v k c) := by
  unfold stepAfter
  split
  · exact trivial
  · repeat' split
    all_goals first | exact trivial | exact List.cons_ne_nil _ _
  · repeat' split
    all_goals exact trivial

theorem inside_stepString (target : Option (List (String × Json))) (acc : List Char)
    (escape : Escape) (k : List Frame) (c : Char) : Inside (stepString target acc escape k c) := by
  unfold stepString closeString
  repeat' split
  all_goals exact trivial

theorem inside_step {s : State} (h : Inside s) (c : Char) : Inside (step s c) := by
  cases s with
  | value k =>
    simp only [step]
    split
    · exact h
    · exact inside_startValue h c
  | firstElem k =>
    simp only [step]
    repeat' split
    all_goals first | exact trivial | exact inside_startValue (List.cons_ne_nil _ _) c
  | firstKey k =>
    simp only [step]
    repeat' split
    all_goals exact trivial
  | key done k =>
    simp only [step]
    repeat' split
    all_goals exact trivial
  | colon done key k =>
    simp only [step]
    repeat' split
    all_goals first | exact trivial | exact List.cons_ne_nil _ _
  | string target acc escape k => exact inside_stepString target acc escape k c
  | word rest v k =>
    obtain ⟨hk, hrest⟩ := h
    rcases rest with _ | ⟨r, _ | ⟨r', rest⟩⟩
    · exact trivial
    · simp only [step]
      split <;> exact trivial
    · simp only [step]
      split
      · exact ⟨hk, fun hm => hrest (List.mem_cons_of_mem _ hm)⟩
      · exact trivial
  | number n k =>
    simp only [step]
    repeat' split
    all_goals first | exact trivial | exact h | exact inside_stepAfter _ k c
  | after v k => exact inside_stepAfter v k c
  | failed => exact trivial

theorem inside_run {s : State} (h : Inside s) (cs : List Char) : Inside (run s cs) := by
  induction cs generalizing s with
  | nil => exact h
  | cons c cs ih => exact ih (inside_step h c)

theorem run_failed (cs : List Char) : run .failed cs = .failed := by
  induction cs with
  | nil => rfl
  | cons c cs ih => exact ih

theorem chars_obj (fields : List (String × Json)) : ∃ cs, chars (.obj fields) = '{' :: cs := by
  cases fields with
  | nil => exact ⟨_, rfl⟩
  | cons p fields =>
    obtain ⟨key, x⟩ := p
    exact ⟨_, rfl⟩

theorem result_of_reads_cons {s : State} {v : Json} {f : Frame} {k : List Frame}
    (h : Reads s v (f :: k)) : result s = none := by
  rcases h with rfl | ⟨n, rfl, -, -⟩ <;> rfl

/-- a state in which a brace is refused after the end of the line -/
theorem result_of_refused {s : State} (fields : List (String × Json))
    (h : step (step s '\n') '{' = .failed) : result (run s ('\n' :: chars (.obj fields))) = none := by
  obtain ⟨cs, hcs⟩ := chars_obj fields
  rw [hcs, run_cons, run_cons, h, run_failed]
  rfl

/-- **An object's text on the next line completes nothing**: what was read before the end of the
line is the result, or there is none. -/
theorem result_next_line {s : State} (h : Inside s) (fields : List (String × Json)) :
    result (run s ('\n' :: chars (.obj fields))) = result s := by
  cases s with
  | value k =>
    cases k with
    | nil => exact absurd rfl h
    | cons f k => exact result_of_reads_cons (run_chars (.obj fields) (f :: k))
  | firstElem k =>
    show result (run (.firstElem k) (chars (.obj fields))) = none
    rw [run_firstElem]
    exact result_of_reads_cons (run_chars (.obj fields) (.elems [] :: k))
  | firstKey k => exact result_of_refused fields rfl
  | key done k => exact result_of_refused fields rfl
  | colon done key k => exact result_of_refused fields rfl
  | string target acc escape k =>
    refine result_of_refused fields ?_
    cases escape with
    | plain => rfl
    | slash => rfl
    | hex digits value => rfl
  | word rest v k =>
    obtain ⟨-, hrest⟩ := h
    refine result_of_refused fields ?_
    rcases rest with _ | ⟨r, _ | ⟨r', rest⟩⟩
    · rfl
    · have hr : '\n' ≠ r := fun hr => hrest (hr ▸ List.mem_cons_self)
      simp [step, hr]
    · have hr : '\n' ≠ r := fun hr => hrest (hr ▸ List.mem_cons_self)
      simp [step, hr]
  | number n k =>
    cases k with
    | nil => exact absurd rfl h
    | cons f k =>
      refine result_of_refused fields ?_
      have hnone : n.step '\n' = none := by
        cases hp : n.phase <;> simp [Num.step, hp]
      cases hv : n.value with
      | none => simp [step, hnone, hv]
      | some v => cases f <;> simp [step, hnone, hv, stepAfter, isBlank]
  | after v k =>
    cases k with
    | nil =>
      rw [run_after_nil]
    | cons f k =>
      cases f with
      | elems done => exact result_of_refused fields rfl
      | member done key => exact result_of_refused fields rfl
  | failed => exact result_of_refused fields rfl

theorem read_within_line (cs : List Char) (fields : List (String × Json)) :
    read ('{' :: cs ++ '\n' :: chars (.obj fields)) = read ('{' :: cs) := by
  unfold read
  rw [run_append]
  exact result_next_line (inside_run (s := .firstKey []) trivial cs) fields

end Json
