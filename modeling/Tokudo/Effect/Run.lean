import Mathlib.Tactic.Common

/-!
# Runs of a labelled transition system

`Run step s es t`: from `s` the steps labelled `es`, one after the other, lead to `t`.

* `run_append`       a run of `es ++ fs` is a run of `es` and then one of `fs`;
* `Run.invariant`    what every step keeps, a run keeps.
-/

namespace Effect

variable {σ ε : Type}

inductive Run (step : σ → ε → σ → Prop) : σ → List ε → σ → Prop where
  | nil (s : σ) : Run step s [] s
  | cons {s t u : σ} {e : ε} {es : List ε} (h : step s e t) (hs : Run step t es u) :
      Run step s (e :: es) u

variable {step : σ → ε → σ → Prop} {s t u : σ} {e : ε} {es fs : List ε}

theorem run_nil : Run step s [] t ↔ t = s := by
  constructor
  · rintro ⟨⟩
    rfl
  · rintro rfl
    exact .nil _

theorem run_cons : Run step s (e :: es) u ↔ ∃ t, step s e t ∧ Run step t es u := by
  constructor
  · rintro ⟨⟩
    exact ⟨_, ‹_›, ‹_›⟩
  · rintro ⟨t, h, hs⟩
    exact .cons h hs

theorem run_append : Run step s (es ++ fs) u ↔ ∃ t, Run step s es t ∧ Run step t fs u := by
  induction es generalizing s with
  | nil =>
    constructor
    · intro h
      exact ⟨s, .nil s, h⟩
    · rintro ⟨t, ht, h⟩
      rw [run_nil] at ht
      exact ht ▸ h
  | cons e es ih =>
    rw [List.cons_append, run_cons]
    constructor
    · rintro ⟨t, he, h⟩
      obtain ⟨v, h₁, h₂⟩ := ih.mp h
      exact ⟨v, .cons he h₁, h₂⟩
    · rintro ⟨v, h₁, h₂⟩
      obtain ⟨t, he, h₁⟩ := run_cons.mp h₁
      exact ⟨t, he, ih.mpr ⟨v, h₁, h₂⟩⟩

theorem run_single : Run step s [e] t ↔ step s e t := by
  rw [run_cons]
  constructor
  · rintro ⟨u, h, hu⟩
    rw [run_nil] at hu
    exact hu ▸ h
  · intro h
    exact ⟨t, h, .nil t⟩

theorem Run.invariant (I : σ → Prop) (hI : ∀ s e t, step s e t → I s → I t)
    (h : Run step s es t) (hs : I s) : I t := by
  induction h with
  | nil s => exact hs
  | cons he _ ih => exact ih (hI _ _ _ he hs)

theorem Run.forall (P : ε → Prop) (hP : ∀ s e t, step s e t → P e) (h : Run step s es t) :
    ∀ e ∈ es, P e := by
  induction h with
  | nil s => exact fun e he => absurd he List.not_mem_nil
  | cons he _ ih =>
    intro e hm
    rcases List.mem_cons.mp hm with rfl | hm
    · exact hP _ _ _ he
    · exact ih e hm

theorem Run.exists_step (h : Run step s es t) (he : e ∈ es) : ∃ s t, step s e t :=
  h.forall (fun e => ∃ s t, step s e t) (fun s _ t hs => ⟨s, t, hs⟩) e he

theorem Run.restrict (P : ε → Prop) (h : Run step s es t) (hP : ∀ e ∈ es, P e) :
    Run (fun s e t => step s e t ∧ P e) s es t := by
  induction h with
  | nil s => exact .nil s
  | cons he _ ih =>
    exact .cons ⟨he, hP _ List.mem_cons_self⟩ (ih fun e hm => hP e (List.mem_cons_of_mem _ hm))

/-- an element that is not in the first half splits the second -/
theorem append_split {α : Type} {pre post xs ys : List α} {x : α} (hx : x ∉ pre)
    (h : pre ++ post = xs ++ x :: ys) : ∃ zs, xs = pre ++ zs ∧ post = zs ++ x :: ys := by
  rcases List.append_eq_append_iff.mp h with ⟨zs, hxs, hpost⟩ | ⟨zs, hpre, hzs⟩
  · exact ⟨zs, hxs, hpost⟩
  · cases zs with
    | nil =>
      refine ⟨[], ?_, hzs.symm⟩
      rw [List.append_nil] at hpre ⊢
      exact hpre.symm
    | cons z zs =>
      obtain ⟨rfl, -⟩ := List.cons.inj hzs
      exact absurd (hpre ▸ List.mem_append_right xs List.mem_cons_self) hx

end Effect
