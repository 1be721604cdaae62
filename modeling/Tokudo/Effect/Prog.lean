import Tokudo.Effect.Run

/-!
# Effect programs: what a program asks, and what it is answered

A signature `Sig` lists operations and the type of each operation's answer.  `Prog S α` is a
program that asks operations of `S` and ends in a value of type `α`.  The answers are not part
of the program, so one program is run in three ways:

* `Runs p es a`      `p` asked the operations of `es`, was answered as `es` says, and ended in `a`
                     (any answers at all);
* `Steps p es q`     the same for an unfinished run: `q` is what is left to do;
* `exec h p s`       the run under a handler `h` with a state, computed (`replay` for a plain list
                     of operations).

`Does` is `Runs` for a program that may fail (`ExceptT` over `Prog`); `does_bind` takes a
composed program apart at its first half.  `History` is the object's side of a run: an object
with a state, answering one operation after the other.

`Runs.of_exec`, `history_of_exec`   a computed run is a run of the program and of the object;
`exec_sim`, `replay_sim`            handlers that simulate each other give the same answers;
`Steps.extend`                      an unfinished run can be brought to an end.
-/

namespace Effect

/-- operations, each with the type of its answer -/
structure Sig where
  Op : Type
  Ret : Op → Type

structure Event (S : Sig) where
  op : S.Op
  ret : S.Ret op

inductive Prog (S : Sig) (α : Type) where
  | ret (a : α)
  | ask (o : S.Op) (k : S.Ret o → Prog S α)

variable {S : Sig} {α β γ ε σ : Type}

namespace Prog

def bind : Prog S α → (α → Prog S β) → Prog S β
  | .ret a, f => f a
  | .ask o k, f => .ask o (fun r => (k r).bind f)

instance : Monad (Prog S) where
  pure := .ret
  bind := .bind

theorem ret_bind (a : α) (f : α → Prog S β) : (Prog.ret a).bind f = f a := rfl

theorem ask_bind (o : S.Op) (k : S.Ret o → Prog S α) (f : α → Prog S β) :
    (Prog.ask o k).bind f = .ask o (fun r => (k r).bind f) := rfl

theorem bind_ret (p : Prog S α) : p.bind .ret = p := by
  induction p with
  | ret a => rfl
  | ask o k ih => exact congrArg (Prog.ask o) (funext ih)

theorem bind_assoc (p : Prog S α) (f : α → Prog S β) (g : β → Prog S γ) :
    (p.bind f).bind g = p.bind fun a => (f a).bind g := by
  induction p with
  | ret a => rfl
  | ask o k ih => exact congrArg (Prog.ask o) (funext ih)

instance : LawfulMonad (Prog S) := LawfulMonad.mk' (Prog S) bind_ret ret_bind bind_assoc

/-! ## finished runs -/

/-- `p` asked and was answered as in `es`, and ended in `a` -/
def Runs : Prog S α → List (Event S) → α → Prop
  | .ret a, es, b => es = [] ∧ b = a
  | .ask o k, es, b => ∃ r es', es = ⟨o, r⟩ :: es' ∧ (k r).Runs es' b

theorem runs_ask (o : S.Op) (k : S.Ret o → Prog S α) (es : List (Event S)) (b : α) :
    (Prog.ask o k).Runs es b ↔ ∃ r es', es = ⟨o, r⟩ :: es' ∧ (k r).Runs es' b := Iff.rfl

theorem runs_bind (p : Prog S α) (f : α → Prog S β) (es : List (Event S)) (b : β) :
    (p.bind f).Runs es b ↔ ∃ es₁ es₂ a, es = es₁ ++ es₂ ∧ p.Runs es₁ a ∧ (f a).Runs es₂ b := by
  induction p generalizing es with
  | ret a =>
    constructor
    · intro h
      exact ⟨[], es, a, rfl, ⟨rfl, rfl⟩, h⟩
    · rintro ⟨es₁, es₂, a', rfl, ⟨rfl, rfl⟩, h⟩
      exact h
  | ask o k ih =>
    rw [ask_bind, runs_ask]
    constructor
    · rintro ⟨r, es', rfl, h⟩
      obtain ⟨es₁, es₂, a, rfl, h₁, h₂⟩ := (ih r es').mp h
      exact ⟨⟨o, r⟩ :: es₁, es₂, a, rfl, ⟨r, es₁, rfl, h₁⟩, h₂⟩
    · rintro ⟨es₁, es₂, a, rfl, ⟨r, es', rfl, h₁⟩, h₂⟩
      exact ⟨r, es' ++ es₂, rfl, (ih r _).mpr ⟨es', es₂, a, rfl, h₁, h₂⟩⟩

/-! ## unfinished runs -/

/-- `p` asked and was answered as in `es`, and `q` is left -/
inductive Steps : Prog S α → List (Event S) → Prog S α → Prop where
  | refl (p : Prog S α) : Steps p [] p
  | ask {o : S.Op} {k : S.Ret o → Prog S α} {r : S.Ret o} {es : List (Event S)} {q : Prog S α}
      (h : Steps (k r) es q) : Steps (.ask o k) (⟨o, r⟩ :: es) q

theorem Steps.trans {p q t : Prog S α} {es fs : List (Event S)} (h₁ : Steps p es q)
    (h₂ : Steps q fs t) : Steps p (es ++ fs) t := by
  induction h₁ with
  | refl p => exact h₂
  | ask _ ih => exact .ask (ih h₂)

theorem Steps.snoc {p : Prog S α} {es : List (Event S)} {o : S.Op} {k : S.Ret o → Prog S α}
    (h : Steps p es (.ask o k)) (r : S.Ret o) : Steps p (es ++ [⟨o, r⟩]) (k r) :=
  h.trans (.ask (.refl _))

theorem Steps.runs {p q : Prog S α} {es fs : List (Event S)} {a : α} (h : Steps p es q)
    (hq : q.Runs fs a) : p.Runs (es ++ fs) a := by
  induction h with
  | refl p => exact hq
  | ask _ ih => exact ⟨_, _, rfl, ih hq⟩

theorem Steps.extend [∀ o, Nonempty (S.Ret o)] {p q : Prog S α} {es : List (Event S)}
    (h : Steps p es q) : ∃ fs a, p.Runs (es ++ fs) a := by
  have hend : ∀ q : Prog S α, ∃ fs a, q.Runs fs a := by
    intro q
    induction q with
    | ret a => exact ⟨[], a, rfl, rfl⟩
    | ask o k ih =>
      obtain ⟨fs, a, hr⟩ := ih (Classical.choice inferInstance)
      exact ⟨⟨o, _⟩ :: fs, a, _, fs, rfl, hr⟩
  obtain ⟨fs, a, hq⟩ := hend q
  exact ⟨fs, a, h.runs hq⟩

theorem Steps.runs_of_ret {p : Prog S α} {es : List (Event S)} {a : α}
    (h : Steps p es (.ret a)) : p.Runs es a := by
  have hr : p.Runs (es ++ []) a := h.runs ⟨rfl, rfl⟩
  rwa [List.append_nil] at hr

end Prog

/-! ## programs that may fail -/

section Does

abbrev Fallible (S : Sig) (ε : Type) : Type → Type := ExceptT ε (Prog S)

def Does (x : Fallible S ε α) (es : List (Event S)) (a : Except ε α) : Prop :=
  (ExceptT.run x).Runs es a

theorem does_liftExcept (x : Except ε α) (es : List (Event S)) (b : Except ε α) :
    Does (liftExcept x : Fallible S ε α) es b ↔ es = [] ∧ b = x := by
  cases x <;> exact Iff.rfl

/-- **A run of `x >>= f`**: a run of `x`, and then, if `x` succeeded, a run of `f`. -/
theorem does_bind (x : Fallible S ε α) (f : α → Fallible S ε β) (es : List (Event S))
    (b : Except ε β) :
    Does (x >>= f) es b ↔
      (∃ e, Does x es (.error e) ∧ b = .error e) ∨
      (∃ es₁ es₂ a, es = es₁ ++ es₂ ∧ Does x es₁ (.ok a) ∧ Does (f a) es₂ b) := by
  show (Prog.bind (ExceptT.run x) (ExceptT.bindCont f)).Runs es b ↔ _
  rw [Prog.runs_bind]
  constructor
  · rintro ⟨es₁, es₂, r, rfl, hx, hf⟩
    cases r with
    | error e =>
      obtain ⟨rfl, rfl⟩ := hf
      left
      refine ⟨e, ?_, rfl⟩
      rwa [List.append_nil]
    | ok a => exact .inr ⟨es₁, es₂, a, rfl, hx, hf⟩
  · rintro (⟨e, hx, rfl⟩ | ⟨es₁, es₂, a, rfl, hx, hf⟩)
    · exact ⟨es, [], .error e, (List.append_nil es).symm, hx, rfl, rfl⟩
    · exact ⟨es₁, es₂, .ok a, rfl, hx, hf⟩

theorem does_liftExcept_bind (x : Except ε α) (f : α → Fallible S ε β) (es : List (Event S))
    (b : Except ε β) :
    Does (liftExcept x >>= f) es b ↔
      (∃ e, x = .error e ∧ es = [] ∧ b = .error e) ∨ (∃ a, x = .ok a ∧ Does (f a) es b) := by
  cases x with
  | error e =>
    constructor
    · rintro ⟨rfl, rfl⟩
      exact .inl ⟨e, rfl, rfl, rfl⟩
    · rintro (⟨e', h, rfl, rfl⟩ | ⟨a, h, -⟩)
      · cases h
        exact ⟨rfl, rfl⟩
      · cases h
  | ok a =>
    constructor
    · intro h
      exact .inr ⟨a, rfl, h⟩
    · rintro (⟨e, h, -⟩ | ⟨a', h, hf⟩)
      · cases h
      · cases h
        exact hf

end Does

/-! ## the object's side of a run -/

/-- an object: which answer an operation may get in a state, and the state after it -/
abbrev Object (S : Sig) (σ : Type) := σ → Event S → σ → Prop

abbrev History (O : Object S σ) : σ → List (Event S) → σ → Prop := Run O

/-! ## computed runs -/

abbrev Handler (S : Sig) (σ : Type) := (o : S.Op) → σ → S.Ret o × σ

def Handler.object (h : Handler S σ) : Object S σ := fun s e t => h e.op s = (e.ret, t)

/-- what a computed run leaves: the value, the events in order, the state after them -/
structure Outcome (S : Sig) (α σ : Type) where
  value : α
  events : List (Event S)
  state : σ

def exec (h : Handler S σ) : Prog S α → σ → Outcome S α σ
  | .ret a, s => ⟨a, [], s⟩
  | .ask o k, s =>
    let out := exec h (k (h o s).1) (h o s).2
    ⟨out.value, ⟨o, (h o s).1⟩ :: out.events, out.state⟩

/-- the answer to the first operation decides what is returned -/
theorem value_exec_ask (h : Handler S σ) {o : S.Op} (k : S.Ret o → Prog S α) {s t : σ} {r : S.Ret o}
    (ho : h o s = (r, t)) : (exec h (.ask o k) s).value = (exec h (k r) t).value := by
  show (exec h (k (h o s).1) (h o s).2).value = _
  rw [ho]

theorem Prog.Runs.of_exec (h : Handler S σ) (p : Prog S α) (s : σ) :
    p.Runs (exec h p s).events (exec h p s).value := by
  induction p generalizing s with
  | ret a => exact ⟨rfl, rfl⟩
  | ask o k ih => exact ⟨(h o s).1, _, rfl, ih _ _⟩

theorem steps_of_exec (h : Handler S σ) (p : Prog S α) (s : σ) :
    p.Steps (exec h p s).events (.ret (exec h p s).value) := by
  induction p generalizing s with
  | ret a => exact .refl _
  | ask o k ih => exact .ask (ih _ _)

theorem history_of_exec (h : Handler S σ) (p : Prog S α) (s : σ) :
    History h.object s (exec h p s).events (exec h p s).state := by
  induction p generalizing s with
  | ret a => exact .nil s
  | ask o k ih => exact .cons (show h o s = ((h o s).1, (h o s).2) from rfl) (ih _ _)

/-- the first `n` operations of a program: the events, what is left, the state after them -/
def advance (h : Handler S σ) : Nat → Prog S α → σ → List (Event S) × Prog S α × σ
  | n + 1, .ask o k, s =>
    let rest := advance h n (k (h o s).1) (h o s).2
    (⟨o, (h o s).1⟩ :: rest.1, rest.2)
  | _, p, s => ([], p, s)

theorem steps_of_advance (h : Handler S σ) (n : Nat) (p : Prog S α) (s : σ) :
    p.Steps (advance h n p s).1 (advance h n p s).2.1 := by
  induction n generalizing p s with
  | zero => exact .refl p
  | succ n ih =>
    cases p with
    | ret a => exact .refl _
    | ask o k => exact .ask (ih _ _)

theorem history_of_advance (h : Handler S σ) (n : Nat) (p : Prog S α) (s : σ) :
    History h.object s (advance h n p s).1 (advance h n p s).2.2 := by
  induction n generalizing p s with
  | zero => exact .nil s
  | succ n ih =>
    cases p with
    | ret a => exact .nil s
    | ask o k => exact .cons (show h o s = ((h o s).1, (h o s).2) from rfl) (ih _ _)

def replay (h : Handler S σ) : List S.Op → σ → List (Event S) × σ
  | [], s => ([], s)
  | o :: os, s =>
    let rest := replay h os (h o s).2
    (⟨o, (h o s).1⟩ :: rest.1, rest.2)

theorem replay_sim {τ : Type} (h : Handler S σ) (h' : Handler S τ) (R : σ → τ → Prop)
    (hR : ∀ o s t, R s t → (h o s).1 = (h' o t).1 ∧ R (h o s).2 (h' o t).2)
    (os : List S.Op) (s : σ) (t : τ) (hst : R s t) :
    (replay h os s).1 = (replay h' os t).1 ∧ R (replay h os s).2 (replay h' os t).2 := by
  induction os generalizing s t with
  | nil => exact ⟨rfl, hst⟩
  | cons o os ih =>
    obtain ⟨he, hst'⟩ := hR o s t hst
    obtain ⟨hes, hfin⟩ := ih _ _ hst'
    refine ⟨?_, hfin⟩
    show ⟨o, (h o s).1⟩ :: (replay h os (h o s).2).1 =
      ⟨o, (h' o t).1⟩ :: (replay h' os (h' o t).2).1
    rw [he, hes]

theorem replay_append (h : Handler S σ) (os os' : List S.Op) (s : σ) :
    replay h (os ++ os') s =
      ((replay h os s).1 ++ (replay h os' (replay h os s).2).1,
        (replay h os' (replay h os s).2).2) := by
  induction os generalizing s with
  | nil => rfl
  | cons o os ih =>
    rw [List.cons_append, replay, ih]
    rfl

theorem replay_length (h : Handler S σ) (os : List S.Op) (s : σ) :
    (replay h os s).1.length = os.length := by
  induction os generalizing s with
  | nil => rfl
  | cons o os ih => exact congrArg Nat.succ (ih (h o s).2)

/-- **Simulation.**  If the operations the run asks are answered alike from related states, and
leave related states, then the two runs return the same value and leave related states. -/
theorem exec_sim {τ : Type} (h : Handler S σ) (h' : Handler S τ) (R : σ → τ → Prop)
    (P : S.Op → Prop)
    (hR : ∀ o, P o → ∀ s t, R s t → (h o s).1 = (h' o t).1 ∧ R (h o s).2 (h' o t).2)
    (p : Prog S α) (s : σ) (t : τ) (hP : ∀ e ∈ (exec h p s).events, P e.op) (hst : R s t) :
    (exec h p s).value = (exec h' p t).value ∧ R (exec h p s).state (exec h' p t).state := by
  induction p generalizing s t with
  | ret a => exact ⟨rfl, hst⟩
  | ask o k ih =>
    have ho : P o := hP ⟨o, (h o s).1⟩ (List.mem_cons_self ..)
    obtain ⟨he, hst'⟩ := hR o ho s t hst
    have hk := ih (h o s).1 (h o s).2 (h' o t).2
      (fun e hm => hP e (List.mem_cons_of_mem _ hm)) hst'
    show (exec h (k (h o s).1) (h o s).2).value = (exec h' (k (h' o t).1) (h' o t).2).value ∧
      R (exec h (k (h o s).1) (h o s).2).state (exec h' (k (h' o t).1) (h' o t).2).state
    rw [← he]
    exact hk

end Effect
