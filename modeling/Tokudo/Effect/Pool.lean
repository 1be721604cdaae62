import Tokudo.Effect.Prog
import Mathlib.Logic.Function.Basic

/-!
# Pools: programs that share one object, interleaved

`Pool S ι α σ` holds one program for every thread `i : ι` (any number of threads) and the state
of the shared object.  `Exec O c log c'` is any interleaving: at every step some thread asks its
next operation and the object answers it.  The log records who asked what, and the answer.

* `Exec.steps`     each thread's part of the log is a run of its own program;
* `Exec.history`   the log without the names of the threads is a history of the object;
* `Exec.alone`     one thread may run alone for a while;
* `Exec.sim`       an object that simulates another allows the same interleavings;
* `Exec.agree`     two objects that agree while an invariant holds have the same interleavings;
* `schedule`       the threads take turns, as a list says, under a handler (computed).

So a fact about one program's runs and a fact about the object's histories meet in the log.
-/

namespace Effect

variable {S : Sig} {ι α σ : Type}

structure Pool (S : Sig) (ι α σ : Type) where
  threads : ι → Prog S α
  shared : σ

def eventsOf [DecidableEq ι] (i : ι) (log : List (ι × Event S)) : List (Event S) :=
  log.filterMap fun x => if x.1 = i then some x.2 else none

section
variable [DecidableEq ι]

theorem eventsOf_append (i : ι) (l l' : List (ι × Event S)) :
    eventsOf i (l ++ l') = eventsOf i l ++ eventsOf i l' := List.filterMap_append

theorem eventsOf_cons_self (i : ι) (e : Event S) (l : List (ι × Event S)) :
    eventsOf i ((i, e) :: l) = e :: eventsOf i l := by simp [eventsOf]

theorem eventsOf_cons_ne {i j : ι} (h : j ≠ i) (e : Event S) (l : List (ι × Event S)) :
    eventsOf i ((j, e) :: l) = eventsOf i l := by simp [eventsOf, h]

theorem eventsOf_map_self (i : ι) (es : List (Event S)) :
    eventsOf i (es.map fun e => (i, e)) = es := by
  induction es with
  | nil => rfl
  | cons e es ih => rw [List.map_cons, eventsOf_cons_self, ih]

theorem eventsOf_map_ne {i j : ι} (h : j ≠ i) (es : List (Event S)) :
    eventsOf i (es.map fun e => (j, e)) = [] := by
  induction es with
  | nil => rfl
  | cons e es ih => rw [List.map_cons, eventsOf_cons_ne h, ih]

theorem mem_eventsOf {i : ι} {e : Event S} {l : List (ι × Event S)} :
    e ∈ eventsOf i l ↔ (i, e) ∈ l := by
  constructor
  · intro h
    obtain ⟨⟨j, f⟩, hm, hf⟩ := List.mem_filterMap.mp h
    by_cases hj : j = i
    · simp only [hj, if_true, Option.some.injEq] at hf
      rwa [← hj, ← hf] at *
    · simp [hj] at hf
  · intro h
    exact List.mem_filterMap.mpr ⟨(i, e), h, by simp⟩

/-- an event of thread `i` splits the log and, at the same place, the thread's own events -/
theorem eventsOf_split {i : ι} {e : Event S} (l l' : List (ι × Event S)) :
    eventsOf i (l ++ (i, e) :: l') = eventsOf i l ++ e :: eventsOf i l' := by
  rw [eventsOf_append, eventsOf_cons_self]

theorem exists_split_of_eventsOf {i : ι} {e : Event S} {log : List (ι × Event S)} :
    ∀ {es fs : List (Event S)}, eventsOf i log = es ++ e :: fs →
      ∃ l l', log = l ++ (i, e) :: l' ∧ eventsOf i l = es ∧ eventsOf i l' = fs := by
  induction log with
  | nil => intro es fs h; simp [eventsOf] at h
  | cons x log ih =>
    obtain ⟨j, f⟩ := x
    intro es fs h
    by_cases hj : j = i
    · subst hj
      rw [eventsOf_cons_self] at h
      cases es with
      | nil =>
        obtain ⟨rfl, rfl⟩ := List.cons.inj h
        exact ⟨[], log, rfl, rfl, rfl⟩
      | cons g es =>
        rw [List.cons_append] at h
        obtain ⟨rfl, htail⟩ := List.cons.inj h
        obtain ⟨l, l', rfl, hl, hl'⟩ := ih htail
        exact ⟨(j, f) :: l, l', rfl, by rw [eventsOf_cons_self, hl], hl'⟩
    · rw [eventsOf_cons_ne hj] at h
      obtain ⟨l, l', rfl, hl, hl'⟩ := ih h
      exact ⟨(j, f) :: l, l', rfl, by rw [eventsOf_cons_ne hj, hl], hl'⟩

/-- any interleaving of the threads of `c`; `log` lists the steps in order -/
inductive Exec (O : Object S σ) : Pool S ι α σ → List (ι × Event S) → Pool S ι α σ → Prop where
  | refl (c : Pool S ι α σ) : Exec O c [] c
  | step {c d : Pool S ι α σ} {log : List (ι × Event S)} {i : ι} {o : S.Op}
      {k : S.Ret o → Prog S α} {r : S.Ret o} {t : σ} (h : Exec O c log d)
      (hi : d.threads i = .ask o k) (ho : O d.shared ⟨o, r⟩ t) :
      Exec O c (log ++ [(i, ⟨o, r⟩)]) ⟨Function.update d.threads i (k r), t⟩

/-- **Each thread's part of the log is a run of its own program.** -/
theorem Exec.steps {O : Object S σ} {c d : Pool S ι α σ} {log : List (ι × Event S)}
    (h : Exec O c log d) (i : ι) : (c.threads i).Steps (eventsOf i log) (d.threads i) := by
  induction h with
  | refl => exact .refl _
  | @step d log j o k r t h hj ho ih =>
    rw [eventsOf_append]
    by_cases hij : j = i
    · subst hij
      rw [hj] at ih
      show (c.threads j).Steps (_ ++ eventsOf j [(j, ⟨o, r⟩)]) (Function.update d.threads j (k r) j)
      rw [eventsOf_cons_self, Function.update_self]
      exact ih.snoc r
    · show (c.threads i).Steps (_ ++ eventsOf i [(j, ⟨o, r⟩)]) (Function.update d.threads j (k r) i)
      rw [eventsOf_cons_ne hij, Function.update_of_ne (Ne.symm hij)]
      show (c.threads i).Steps (eventsOf i log ++ []) _
      rw [List.append_nil]
      exact ih

/-- **The log without the names of the threads is a history of the object.** -/
theorem Exec.history {O : Object S σ} {c d : Pool S ι α σ} {log : List (ι × Event S)}
    (h : Exec O c log d) : History O c.shared (log.map Prod.snd) d.shared := by
  induction h with
  | refl => exact .nil _
  | step h hi ho ih =>
    rw [List.map_append]
    exact run_append.mpr ⟨_, ih, .cons ho (.nil _)⟩

theorem Exec.trans {O : Object S σ} {c d e : Pool S ι α σ} {l l' : List (ι × Event S)}
    (h : Exec O c l d) (h' : Exec O d l' e) : Exec O c (l ++ l') e := by
  induction h' with
  | refl => rwa [List.append_nil]
  | step h' hi ho ih =>
    rw [← List.append_assoc]
    exact .step ih hi ho

/-- **An object that simulates another is run with the same log.** -/
theorem Exec.sim {τ : Type} {O : Object S σ} {O' : Object S τ} (R : σ → τ → Prop)
    (hR : ∀ s t e s', R s t → O s e s' → ∃ t', R s' t' ∧ O' t e t') {c d : Pool S ι α σ}
    {log : List (ι × Event S)} (h : Exec O c log d) {t : τ} (hc : R c.shared t) :
    ∃ t', R d.shared t' ∧ Exec O' ⟨c.threads, t⟩ log ⟨d.threads, t'⟩ := by
  induction h with
  | refl => exact ⟨t, hc, .refl _⟩
  | step h hi ho ih =>
    obtain ⟨u, hd, hexec⟩ := ih
    obtain ⟨u', hnext, ho'⟩ := hR _ _ _ _ hd ho
    exact ⟨u', hnext, .step hexec hi ho'⟩

/-- **Objects that agree where a run gets to are run with the same log**: in the states that keep the
invariant, on the events of the run. -/
theorem Exec.agree {O O' : Object S σ} (I : σ → Prop) (P : Event S → Prop)
    (hO : ∀ s e t, I s → P e → O s e t → O' s e t ∧ I t) {c d : Pool S ι α σ}
    {log : List (ι × Event S)} (h : Exec O c log d) (hc : I c.shared) (hlog : ∀ x ∈ log, P x.2) :
    Exec O' c log d ∧ I d.shared := by
  induction h with
  | refl => exact ⟨.refl _, hc⟩
  | @step d log i o k r t h hi ho ih =>
    obtain ⟨hexec, hd⟩ := ih fun x hx => hlog x (List.mem_append_left _ hx)
    have hlast := hlog (i, ⟨o, r⟩) (List.mem_append_right _ List.mem_cons_self)
    obtain ⟨ho', ht⟩ := hO _ _ _ hd hlast ho
    exact ⟨.step hexec hi ho', ht⟩

theorem Exec.single {O : Object S σ} {c : Pool S ι α σ} {i : ι} {o : S.Op}
    {k : S.Ret o → Prog S α} {r : S.Ret o} {t : σ} (hi : c.threads i = .ask o k)
    (ho : O c.shared ⟨o, r⟩ t) :
    Exec O c [(i, ⟨o, r⟩)] ⟨Function.update c.threads i (k r), t⟩ :=
  .step (.refl c) hi ho

theorem Exec.alone {O : Object S σ} {c : Pool S ι α σ} {i : ι} {p q : Prog S α}
    {es : List (Event S)} {t : σ} (hi : c.threads i = p) (hs : p.Steps es q)
    (hh : History O c.shared es t) :
    Exec O c (es.map fun e => (i, e)) ⟨Function.update c.threads i q, t⟩ := by
  induction hs generalizing c with
  | refl p =>
    obtain rfl := run_nil.mp hh
    rw [← hi, Function.update_eq_self]
    exact .refl c
  | @ask o k r es q hs ih =>
    obtain ⟨s, ho, hh⟩ := run_cons.mp hh
    have hrest := ih (c := ⟨Function.update c.threads i (k r), s⟩) (Function.update_self ..) hh
    have hfull := (Exec.single hi ho).trans hrest
    rwa [Function.update_idem] at hfull

/-- the threads take turns, as the list says; an ended thread lets its turn pass -/
def schedule (h : Handler S σ) : List ι → Pool S ι α σ → List (ι × Event S) × Pool S ι α σ
  | [], c => ([], c)
  | i :: is, c =>
    match c.threads i with
    | .ret _ => schedule h is c
    | .ask o k =>
      let rest := schedule h is
        ⟨Function.update c.threads i (k (h o c.shared).1), (h o c.shared).2⟩
      ((i, ⟨o, (h o c.shared).1⟩) :: rest.1, rest.2)

theorem exec_schedule {O : Object S σ} (h : Handler S σ) (hO : ∀ s e t, h.object s e t → O s e t)
    (is : List ι) (c : Pool S ι α σ) : Exec O c (schedule h is c).1 (schedule h is c).2 := by
  induction is generalizing c with
  | nil => exact .refl c
  | cons i is ih =>
    unfold schedule
    cases hi : c.threads i with
    | ret a => exact ih c
    | ask o k =>
      have hop : h.object c.shared ⟨o, (h o c.shared).1⟩ (h o c.shared).2 := rfl
      exact (Exec.single hi (hO _ _ _ hop)).trans (ih _)

end

end Effect
