import Mathlib.Data.List.Basic
import Mathlib.Data.List.Count

/-!
# Runs that collapse to a mark

`Seq.elide dropped f mark` rewrites a list: what is kept is mapped by `f`, and each maximal run of
elements that are `dropped` becomes one mark.  The first argument of the loop says whether it is in
a run.

* `Elided`           the relation: a list is cut into kept elements and maximal runs;
* `elide_elided`     the loop computes it;
* `Elided.filter`    what is found among the results, marks apart, is what is found among the kept;
* `Elided.length`    each run saves its length, less one mark;
* `length_elide_le`, `elide_filter_sublist`   what drops more leaves less.
-/

namespace Seq

variable {α β : Type}

section
variable (dropped : α → Bool) (f : α → β) (mark : β)

inductive Elided : List α → List β → Prop
  | nil : Elided [] []
  | keep {a : α} {l : List α} {out : List β} :
      dropped a = false → Elided l out → Elided (a :: l) (f a :: out)
  | run {r l : List α} {out : List β} :
      r ≠ [] → (∀ a ∈ r, dropped a = true) → (∀ a, l.head? = some a → dropped a = false) →
      Elided l out → Elided (r ++ l) (mark :: out)

def elide : Bool → List α → List β
  | _, [] => []
  | inRun, a :: l =>
    if dropped a then (if inRun then elide true l else mark :: elide true l)
    else f a :: elide false l

/-- the maximal runs: each is counted at its last element -/
def runs : List α → Nat
  | [] => 0
  | a :: l => if dropped a = true ∧ l.head?.all (fun b => !dropped b) = true then runs l + 1 else runs l

end

section
variable {dropped : α → Bool} {f : α → β} {mark : β}

theorem elide_of_kept {a : α} (ha : dropped a = false) (inRun : Bool) (l : List α) :
    elide dropped f mark inRun (a :: l) = f a :: elide dropped f mark false l := by
  rw [elide, ha]
  exact if_neg Bool.false_ne_true

/-- **The loop collapses the maximal runs**; inside a run, it first skips the rest of the run. -/
theorem elide_elided (l : List α) :
    Elided dropped f mark l (elide dropped f mark false l) ∧
      ∃ r rest, l = r ++ rest ∧ (∀ a ∈ r, dropped a = true) ∧
        (∀ a, rest.head? = some a → dropped a = false) ∧
        Elided dropped f mark rest (elide dropped f mark true l) := by
  induction l with
  | nil =>
    refine ⟨.nil, [], [], rfl, fun a h => (List.not_mem_nil h).elim, fun a h => ?_, .nil⟩
    cases h
  | cons a l ih =>
    obtain ⟨hl, r, rest, hsplit, hr, hrest, helided⟩ := ih
    cases ha : dropped a with
    | false =>
      have hkeep : Elided dropped f mark (a :: l) (f a :: elide dropped f mark false l) :=
        .keep ha hl
      rw [elide_of_kept ha, elide_of_kept ha]
      refine ⟨hkeep, [], a :: l, rfl, fun b h => (List.not_mem_nil h).elim, fun b h => ?_, hkeep⟩
      cases h
      exact ha
    | true =>
      have hrun : ∀ b ∈ a :: r, dropped b = true := by
        intro b hb
        rcases List.mem_cons.mp hb with h | h
        · rw [h, ha]
        · exact hr b h
      have hcons : a :: l = (a :: r) ++ rest := by rw [hsplit, List.cons_append]
      have hfalse : elide dropped f mark false (a :: l) = mark :: elide dropped f mark true l := by
        rw [elide, if_pos ha, if_neg Bool.false_ne_true]
      have htrue : elide dropped f mark true (a :: l) = elide dropped f mark true l := by
        rw [elide, if_pos ha, if_pos rfl]
      rw [hfalse, htrue]
      refine ⟨?_, a :: r, rest, hcons, hrun, hrest, helided⟩
      rw [hcons]
      exact .run (List.cons_ne_nil a r) hrun hrest helided

theorem Elided.mem {l : List α} {out : List β} (h : Elided dropped f mark l out) {b : β}
    (hb : b ∈ out) : b = mark ∨ ∃ a ∈ l, b = f a := by
  induction h with
  | nil => cases hb
  | @keep a l out _ _ ih =>
    rcases List.mem_cons.mp hb with heq | hmem
    · exact .inr ⟨a, List.mem_cons_self, heq⟩
    · rcases ih hmem with heq | ⟨a', ha', heq⟩
      · exact .inl heq
      · exact .inr ⟨a', List.mem_cons_of_mem _ ha', heq⟩
  | @run r l out _ _ _ _ ih =>
    rcases List.mem_cons.mp hb with heq | hmem
    · exact .inl heq
    · rcases ih hmem with heq | ⟨a', ha', heq⟩
      · exact .inl heq
      · exact .inr ⟨a', List.mem_append_right r ha', heq⟩

theorem filter_of_dropped {r : List α} (hr : ∀ a ∈ r, dropped a = true) :
    r.filter (fun a => !dropped a) = [] := by
  rw [List.filter_eq_nil_iff]
  intro a ha
  rw [hr a ha]
  exact Bool.false_ne_true

theorem Elided.filter {l : List α} {out : List β} (h : Elided dropped f mark l out)
    {q : β → Bool} (hmark : q mark = false) :
    out.filter q = ((l.filter fun a => !dropped a).map f).filter q := by
  induction h with
  | nil => rfl
  | keep ha _ ih =>
    rw [List.filter_cons_of_pos (p := fun a => !dropped a) (congrArg not ha), List.map_cons,
      List.filter_cons, List.filter_cons, ih]
  | run _ hr _ _ ih =>
    rw [List.filter_append, filter_of_dropped hr, List.nil_append, ← ih,
      List.filter_cons_of_neg (by rw [hmark]; exact Bool.false_ne_true)]

theorem runs_append {r l : List α} (hne : r ≠ []) (hr : ∀ a ∈ r, dropped a = true)
    (hl : ∀ a, l.head? = some a → dropped a = false) :
    runs dropped (r ++ l) = runs dropped l + 1 := by
  induction r with
  | nil => exact absurd rfl hne
  | cons a r ih =>
    have ha : dropped a = true := hr a List.mem_cons_self
    rw [List.cons_append, runs]
    cases r with
    | nil =>
      rw [List.nil_append, if_pos]
      refine ⟨ha, ?_⟩
      cases hh : l.head? with
      | none => rfl
      | some b =>
        rw [Option.all_some, hl b hh]
        rfl
    | cons b r =>
      have hb : dropped b = true := hr b (List.mem_cons_of_mem _ List.mem_cons_self)
      rw [if_neg]
      · exact ih (List.cons_ne_nil b r) fun c hc => hr c (List.mem_cons_of_mem _ hc)
      · intro h
        have hall := h.2
        rw [List.cons_append, List.head?_cons, Option.all_some, hb] at hall
        cases hall

theorem Elided.length {l : List α} {out : List β} (h : Elided dropped f mark l out) :
    out.length + l.countP dropped = l.length + runs dropped l := by
  induction h with
  | nil => rfl
  | keep ha _ ih =>
    rw [List.length_cons, List.length_cons, List.countP_cons_of_neg (by rw [ha]; exact Bool.false_ne_true),
      runs, if_neg]
    · omega
    · intro hh
      rw [ha] at hh
      exact Bool.false_ne_true hh.1
  | run hne hr hl _ ih =>
    rw [runs_append hne hr hl, List.countP_append, List.countP_eq_length.mpr hr, List.length_append,
      List.length_cons]
    omega

/-! ## what drops more -/

variable {dropped' : α → Bool} (hle : ∀ a, dropped' a = true → dropped a = true)
include hle

/-- What drops more leaves no more.  A mark for a longer run may come earlier. -/
theorem length_elide_le (l : List α) {inRun inRun' : Bool} (hrun : inRun' = true → inRun = true) :
    (elide dropped f mark inRun l).length ≤ (elide dropped' f mark inRun' l).length := by
  induction l generalizing inRun inRun' with
  | nil => exact Nat.le_refl 0
  | cons a l ih =>
    cases ha' : dropped' a with
    | true =>
      have ha : dropped a = true := hle a ha'
      have hlen : (elide dropped f mark true l).length ≤ (elide dropped' f mark true l).length :=
        ih fun _ => rfl
      rw [elide, elide, if_pos ha, if_pos ha']
      cases inRun' with
      | true =>
        rw [hrun rfl, if_pos rfl, if_pos rfl]
        exact hlen
      | false =>
        cases inRun with
        | true =>
          rw [if_pos rfl, if_neg Bool.false_ne_true, List.length_cons]
          omega
        | false =>
          rw [if_neg Bool.false_ne_true, if_neg Bool.false_ne_true, List.length_cons,
            List.length_cons]
          omega
    | false =>
      rw [elide_of_kept ha', List.length_cons]
      cases ha : dropped a with
      | false =>
        rw [elide_of_kept ha, List.length_cons]
        exact Nat.succ_le_succ (ih fun h => h)
      | true =>
        have hlen : (elide dropped f mark true l).length ≤ (elide dropped' f mark false l).length :=
          ih fun _ => rfl
        rw [elide, if_pos ha]
        cases inRun with
        | true =>
          rw [if_pos rfl]
          omega
        | false =>
          rw [if_neg Bool.false_ne_true, List.length_cons]
          omega

/-- what is kept by what drops more, marks apart, is kept in the same order -/
theorem elide_filter_sublist (l : List α) {q : β → Bool} (hmark : q mark = false) :
    ((elide dropped f mark false l).filter q).Sublist ((elide dropped' f mark false l).filter q) := by
  have hkept : (l.filter fun a => !dropped a).Sublist (l.filter fun a => !dropped' a) := by
    apply List.monotone_filter_right
    intro a ha
    cases hd : dropped' a with
    | false => rfl
    | true =>
      rw [hle a hd] at ha
      cases ha
  rw [(elide_elided l).1.filter hmark, (elide_elided l).1.filter hmark]
  exact (hkept.map f).filter q

end

end Seq
