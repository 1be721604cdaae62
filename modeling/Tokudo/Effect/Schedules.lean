import Tokudo.Effect.Pool
import Mathlib.Algebra.Order.BigOperators.Group.Finset
import Mathlib.Data.Fintype.BigOperators

/-!
# All schedules of a pool

What holds in whatever order the threads take their turns.

* `Exec.count_eq`       what the log counts is what the threads count together;
* `Exec.finishes`       **no deadlock**: on an object that answers every operation, any thread may be
                        run to its end from any state that is reached, and so may all of them;
* `exec_iff_of_inert`   **threads on an object that does not change do not notice each other**: an
                        interleaving is possible exactly if the part of every thread is;
* `ends_iff_of_inert`   so together they may end in what each may end in alone.
-/

namespace Effect

variable {S : Sig} {ι α σ : Type}

/-! ## objects -/

/-- every operation is answered -/
def Total (O : Object S σ) : Prop := ∀ s o, ∃ r t, O s ⟨o, r⟩ t

/-- whatever is asked in this state, the state stays -/
def Inert (O : Object S σ) (s : σ) : Prop := ∀ e t, O s e t → t = s

variable {O : Object S σ} {s : σ}

/-- a program may be run to its end -/
theorem Total.runs (hO : Total O) (p : Prog S α) (s : σ) :
    ∃ es a t, p.Steps es (.ret a) ∧ History O s es t := by
  induction p generalizing s with
  | ret a => exact ⟨[], a, s, .refl _, .nil s⟩
  | ask o k ih =>
    obtain ⟨r, u, ho⟩ := hO s o
    obtain ⟨es, a, t, hs, hh⟩ := ih r u
    exact ⟨⟨o, r⟩ :: es, a, t, .ask hs, .cons ho hh⟩

/-- the log of a thread that is alone -/
theorem eventsOf_unit (log : List (Unit × Event S)) : eventsOf () log = log.map Prod.snd := by
  induction log with
  | nil => rfl
  | cons x log ih =>
    rw [List.map_cons, ← ih]
    exact eventsOf_cons_self () x.2 log

theorem Prog.steps_nil {p q : Prog S α} : p.Steps [] q ↔ q = p := by
  constructor
  · rintro ⟨⟩
    rfl
  · rintro rfl
    exact .refl _

/-- the last step of a run -/
theorem Prog.Steps.last {p q : Prog S α} {es : List (Event S)} {e : Event S}
    (h : p.Steps (es ++ [e]) q) :
    ∃ o k r, p.Steps es (.ask o k) ∧ e = ⟨o, r⟩ ∧ q = k r := by
  induction es generalizing p with
  | nil =>
    cases h with
    | @ask o k r _ _ h => exact ⟨o, k, r, .refl _, rfl, steps_nil.mp h⟩
  | cons f es ih =>
    cases h with
    | ask h =>
      obtain ⟨o, k, r, hs, he, hq⟩ := ih h
      exact ⟨o, k, r, .ask hs, he, hq⟩

section
variable [DecidableEq ι] {c d : Pool S ι α σ} {log : List (ι × Event S)}

/-! ## how long a log is -/

/-- **The log counts what its threads count together.** -/
theorem countP_log_eq [Fintype ι] (p : Event S → Bool) (log : List (ι × Event S)) :
    log.countP (fun x => p x.2) = ∑ i, (eventsOf i log).countP p := by
  induction log with
  | nil => exact (Finset.sum_const_zero).symm
  | cons x log ih =>
    obtain ⟨j, e⟩ := x
    have hone (i : ι) : (eventsOf i ((j, e) :: log)).countP p =
        (eventsOf i log).countP p + if j = i then (if p e then 1 else 0) else 0 := by
      by_cases hij : j = i
      · subst hij
        rw [eventsOf_cons_self, List.countP_cons, if_pos rfl]
      · rw [eventsOf_cons_ne hij, if_neg hij, Nat.add_zero]
    rw [List.countP_cons, ih, Finset.sum_congr rfl fun i _ => hone i, Finset.sum_add_distrib,
      Finset.sum_ite_eq, if_pos (Finset.mem_univ j)]

theorem countP_log_le [Fintype ι] {p : Event S → Bool} {n : Nat}
    (h : ∀ i, (eventsOf i log).countP p ≤ n) :
    log.countP (fun x => p x.2) ≤ Fintype.card ι * n := by
  rw [countP_log_eq]
  calc ∑ i, (eventsOf i log).countP p
      ≤ ∑ _ : ι, n := Finset.sum_le_sum fun i _ => h i
    _ = Fintype.card ι * n := Finset.sum_const_nat fun _ _ => rfl

theorem length_log_le [Fintype ι] {n : Nat} (h : ∀ i, (eventsOf i log).length ≤ n) :
    log.length ≤ Fintype.card ι * n := by
  have hall : log.countP (fun _ => true) ≤ Fintype.card ι * n := countP_log_le fun i => by
    rw [List.countP_true]
    exact h i
  rwa [List.countP_true] at hall

/-! ## no deadlock -/

/-- **From whatever state, a thread may be run to its end**, by steps of its own. -/
theorem Total.finish_one (hO : Total O) (c : Pool S ι α σ) (i : ι) :
    ∃ (es : List (Event S)) (a : α) (t : σ),
      Exec O c (es.map fun e => (i, e)) ⟨Function.update c.threads i (.ret a), t⟩ := by
  obtain ⟨es, a, t, hs, hh⟩ := hO.runs (c.threads i) c.shared
  exact ⟨es, a, t, .alone rfl hs hh⟩

/-- **and so may all of them.** -/
theorem Total.finish_all [Fintype ι] (hO : Total O) (c : Pool S ι α σ) :
    ∃ log d, Exec O c log d ∧ ∀ i, ∃ a, d.threads i = .ret a := by
  have hsome (is : Finset ι) : ∃ log d, Exec O c log d ∧ ∀ i ∈ is, ∃ a, d.threads i = .ret a := by
    induction is using Finset.induction_on with
    | empty => exact ⟨[], c, .refl c, fun i hi => absurd hi (Finset.notMem_empty i)⟩
    | insert j is hj ih =>
      obtain ⟨log, d, hexec, hd⟩ := ih
      obtain ⟨es, a, t, hlast⟩ := hO.finish_one d j
      refine ⟨_, _, hexec.trans hlast, ?_⟩
      intro i hi
      by_cases hij : i = j
      · subst hij
        exact ⟨a, Function.update_self ..⟩
      · obtain ⟨b, hb⟩ := hd i (Finset.mem_of_mem_insert_of_ne hi hij)
        refine ⟨b, ?_⟩
        show Function.update d.threads j (.ret a) i = .ret b
        rw [Function.update_of_ne hij, hb]
  obtain ⟨log, d, hexec, hd⟩ := hsome Finset.univ
  exact ⟨log, d, hexec, fun i => hd i (Finset.mem_univ i)⟩

/-! ## an object that does not change -/

/-- **An interleaving is possible exactly if the part of every thread is.** -/
theorem exec_iff_of_inert (hO : Inert O c.shared) :
    Exec O c log d ↔ d.shared = c.shared ∧
      (∀ i, (c.threads i).Steps (eventsOf i log) (d.threads i)) ∧
      ∀ x ∈ log, O c.shared x.2 c.shared := by
  constructor
  · intro h
    refine ⟨?_, h.steps, ?_⟩
    · exact h.history.invariant (· = c.shared) (fun s e t ho hs => hO e t (hs ▸ ho)) rfl
    · induction h with
      | refl => exact fun x hx => absurd hx List.not_mem_nil
      | @step d log i o k r t h hi ho ih =>
        have hd : d.shared = c.shared :=
          h.history.invariant (· = c.shared) (fun s e t ho hs => hO e t (hs ▸ ho)) rfl
        intro x hx
        rcases List.mem_append.mp hx with hx | hx
        · exact ih x hx
        · rw [List.mem_singleton.mp hx]
          rw [hd] at ho
          obtain rfl := hO _ _ ho
          exact ho
  · -- the log is taken apart from its end
    rintro ⟨hd, hsteps, hlog⟩
    induction log using List.reverseRecOn generalizing d with
    | nil =>
      obtain ⟨threads, shared⟩ := d
      obtain rfl : shared = c.shared := hd
      obtain rfl : threads = c.threads := funext fun i => Prog.steps_nil.mp (hsteps i)
      exact .refl c
    | append_singleton log x ih =>
      obtain ⟨i, e⟩ := x
      have hi := hsteps i
      rw [eventsOf_append, eventsOf_cons_self] at hi
      obtain ⟨o, k, r, hpre, rfl, hq⟩ := hi.last
      have hbefore : Exec O c log ⟨Function.update d.threads i (.ask o k), c.shared⟩ := by
        refine ih rfl ?_ fun x hx => hlog x (List.mem_append_left _ hx)
        intro j
        by_cases hij : i = j
        · subst hij
          show (c.threads i).Steps _ (Function.update d.threads i (.ask o k) i)
          rw [Function.update_self]
          exact hpre
        · have hj := hsteps j
          rw [eventsOf_append, eventsOf_cons_ne hij] at hj
          show (c.threads j).Steps _ (Function.update d.threads i (.ask o k) j)
          rw [Function.update_of_ne (Ne.symm hij)]
          exact (List.append_nil (eventsOf j log)) ▸ hj
      have hlast := Exec.step hbefore (Function.update_self ..)
        (hlog (i, ⟨o, r⟩) (List.mem_append_right _ List.mem_cons_self))
      rw [Function.update_idem, ← hq, Function.update_eq_self, ← hd] at hlast
      exact hlast

/-- one thread of a pool, alone -/
def Pool.only (c : Pool S ι α σ) (i : ι) : Pool S Unit α σ := ⟨fun _ => c.threads i, c.shared⟩

/-- **Together the threads may end in what each may end in alone.** -/
theorem ends_iff_of_inert [Fintype ι] (hO : Inert O c.shared) (results : ι → α) :
    (∃ log d, Exec O c log d ∧ ∀ i, d.threads i = .ret (results i)) ↔
      ∀ i, ∃ log d, Exec O (c.only i) log d ∧ d.threads () = .ret (results i) := by
  constructor
  · rintro ⟨log, d, h, hd⟩ i
    obtain ⟨-, hsteps, hlog⟩ := (exec_iff_of_inert hO).mp h
    let alone : List (Unit × Event S) := (eventsOf i log).map fun e => ((), e)
    have halone : Exec O (c.only i) alone ⟨fun _ => .ret (results i), c.shared⟩ := by
      refine (exec_iff_of_inert (c := c.only i) hO).mpr ⟨rfl, ?_, ?_⟩
      · intro u
        show (c.threads i).Steps (eventsOf () alone) (.ret (results i))
        rw [eventsOf_map_self, ← hd i]
        exact hsteps i
      · intro x hx
        obtain ⟨e, he, rfl⟩ := List.mem_map.mp hx
        exact hlog (i, e) (mem_eventsOf.mp he)
    exact ⟨_, _, halone, rfl⟩
  · -- they take their turns one after the other
    intro halone
    have hsome (is : Finset ι) : ∃ log d, Exec O c log d ∧
        (∀ i ∈ is, d.threads i = .ret (results i)) ∧ ∀ i ∉ is, d.threads i = c.threads i := by
      induction is using Finset.induction_on with
      | empty =>
        exact ⟨[], c, .refl c, fun i hi => absurd hi (Finset.notMem_empty i), fun _ _ => rfl⟩
      | insert j is hj ih =>
        obtain ⟨log, d, hexec, hd, hrest⟩ := ih
        obtain ⟨hshared, -, -⟩ := (exec_iff_of_inert hO).mp hexec
        obtain ⟨log', d', hexec', hd'⟩ := halone j
        have hsteps := hexec'.steps ()
        rw [hd', eventsOf_unit] at hsteps
        have hhist : History O d.shared (log'.map Prod.snd) d'.shared := by
          rw [hshared]
          exact hexec'.history
        have hlast := Exec.alone (hrest j hj) hsteps hhist
        refine ⟨_, _, hexec.trans hlast, ?_, ?_⟩
        · intro i hi
          show Function.update d.threads j (.ret (results j)) i = .ret (results i)
          by_cases hij : i = j
          · subst hij
            exact Function.update_self ..
          · rw [Function.update_of_ne hij]
            exact hd i (Finset.mem_of_mem_insert_of_ne hi hij)
        · intro i hi
          have hij : i ≠ j := fun h => hi (h ▸ Finset.mem_insert_self j is)
          show Function.update d.threads j (.ret (results j)) i = c.threads i
          rw [Function.update_of_ne hij]
          exact hrest i fun h => hi (Finset.mem_insert_of_mem h)
    obtain ⟨log, d, hexec, hd, -⟩ := hsome Finset.univ
    exact ⟨log, d, hexec, fun i => hd i (Finset.mem_univ i)⟩

end

end Effect
