import Tokudo.Effect.Run
import Mathlib.Data.List.Induction

/-!
# Keyed stores: what a read can return, from the history of writes

A store's state `σ` is seen through its contents `κ → Option ν`.  Every event of a history
writes one key or none (`w e`).

* `Latest w k v es`   the latest event of `es` that writes `k` wrote `v`;
* `Lossy`             a step that installs its write or not, and may drop anything else: what is
                      there afterwards was just written, or was there and was not overwritten;
* `Exact`             a step that installs its write and changes nothing else.

`current_of_lossy`: **in a store of lossy steps, what is stored under `k` is what the latest write
to `k` wrote.**  `latest_of_exact`: if the steps are exact, the converse holds too.
-/

namespace Store
open Effect

variable {κ ν σ ε : Type}

/-- the latest event of `es` that writes `k` wrote `v` -/
def Latest (w : ε → Option (κ × ν)) (k : κ) (v : ν) (es : List ε) : Prop :=
  ∃ es₁ e es₂, es = es₁ ++ e :: es₂ ∧ w e = some (k, v) ∧ ∀ e' ∈ es₂, ∀ v', w e' ≠ some (k, v')

theorem not_latest_nil (w : ε → Option (κ × ν)) (k : κ) (v : ν) : ¬ Latest w k v [] := by
  rintro ⟨es₁, e, es₂, h, _⟩
  simp at h

theorem Latest.last {w : ε → Option (κ × ν)} {k : κ} {v : ν} {e : ε} (es : List ε)
    (h : w e = some (k, v)) : Latest w k v (es ++ [e]) :=
  ⟨es, e, [], rfl, h, fun _ he => absurd he List.not_mem_nil⟩

theorem Latest.skip {w : ε → Option (κ × ν)} {k : κ} {v : ν} {e : ε} {es : List ε}
    (h : Latest w k v es) (he : ∀ v', w e ≠ some (k, v')) : Latest w k v (es ++ [e]) := by
  obtain ⟨es₁, f, es₂, rfl, hf, hn⟩ := h
  refine ⟨es₁, f, es₂ ++ [e], by simp, hf, fun e' he' => ?_⟩
  rcases List.mem_append.mp he' with h₁ | h₁
  · exact hn e' h₁
  · rw [List.mem_singleton.mp h₁]
    exact he

theorem latest_snoc {w : ε → Option (κ × ν)} {k : κ} {v : ν} {e : ε} {es : List ε} :
    Latest w k v (es ++ [e]) ↔
      w e = some (k, v) ∨ (Latest w k v es ∧ ∀ v', w e ≠ some (k, v')) := by
  constructor
  · rintro ⟨es₁, f, es₂, h, hf, hn⟩
    rcases List.eq_nil_or_concat es₂ with rfl | ⟨es₃, g, rfl⟩
    · obtain ⟨-, hfe⟩ := List.append_inj' h rfl
      rw [List.cons.injEq] at hfe
      exact .inl (hfe.1 ▸ hf)
    · have h' : es ++ [e] = (es₁ ++ f :: es₃) ++ [g] := by simpa using h
      obtain ⟨rfl, hge⟩ := List.append_inj' h' rfl
      rw [List.cons.injEq] at hge
      obtain ⟨rfl, -⟩ := hge
      refine .inr ⟨⟨es₁, f, es₃, rfl, hf, fun e' he' => ?_⟩, ?_⟩
      · exact hn e' (by simp [he'])
      · exact hn e (by simp)
  · rintro (h | ⟨h, he⟩)
    · exact .last es h
    · exact h.skip he

theorem exists_latest {w : ε → Option (κ × ν)} {k : κ} {v : ν} {e : ε} {es : List ε} (he : e ∈ es)
    (hw : w e = some (k, v)) : ∃ u, Latest w k u es := by
  induction es using List.reverseRecOn with
  | nil => cases he
  | append_singleton es f ih =>
    by_cases hf : ∃ u, w f = some (k, u)
    · obtain ⟨u, hu⟩ := hf
      exact ⟨u, .last es hu⟩
    · rcases List.mem_append.mp he with he | he
      · obtain ⟨u, hu⟩ := ih he
        exact ⟨u, hu.skip fun u' h => hf ⟨u', h⟩⟩
      · rw [List.mem_singleton.mp he] at hw
        exact absurd ⟨v, hw⟩ hf

/-- what is there afterwards was just written, or was there and was not overwritten -/
def Lossy (w : Option (κ × ν)) (before after : κ → Option ν) : Prop :=
  ∀ k v, after k = some v → w = some (k, v) ∨ (before k = some v ∧ ∀ v', w ≠ some (k, v'))

/-- the write is installed and nothing else changes -/
def Exact (w : Option (κ × ν)) (before after : κ → Option ν) : Prop :=
  ∀ k v, after k = some v ↔ w = some (k, v) ∨ (before k = some v ∧ ∀ v', w ≠ some (k, v'))

theorem Lossy.unchanged (c : κ → Option ν) : Lossy none c c := fun k v h =>
  .inr ⟨h, fun _ hw => by cases hw⟩

theorem Lossy.map {ν' : Type} (f : ν → ν') {w : Option (κ × ν)} {before after : κ → Option ν}
    (h : Lossy w before after) :
    Lossy (w.map fun p => (p.1, f p.2)) (fun k => (before k).map f) (fun k => (after k).map f) := by
  intro k v' hv
  obtain ⟨v, hk, rfl⟩ := Option.map_eq_some_iff.mp hv
  rcases h k v hk with rfl | ⟨hb, hw⟩
  · exact .inl rfl
  · refine .inr ⟨by simp only [hb, Option.map_some], fun u hu => ?_⟩
    obtain ⟨⟨k', v'⟩, hw', hu⟩ := Option.map_eq_some_iff.mp hu
    obtain ⟨rfl, -⟩ := Prod.mk.inj hu
    exact hw v' hw'

theorem Lossy.after {w : Option (κ × ν)} {before middle after : κ → Option ν}
    (h : Lossy none before middle) (h' : Lossy w middle after) : Lossy w before after := by
  intro k v hk
  rcases h' k v hk with hw | ⟨hm, hw⟩
  · exact .inl hw
  · rcases h k v hm with hn | ⟨hb, -⟩
    · cases hn
    · exact .inr ⟨hb, hw⟩

theorem Exact.unchanged (c : κ → Option ν) : Exact none c c := by
  intro k v
  simp

theorem Exact.update [DecidableEq κ] (c : κ → Option ν) (k : κ) (v : ν) :
    Exact (some (k, v)) c (Function.update c k (some v)) := by
  intro k' v'
  by_cases hk : k' = k
  · subst hk
    rw [Function.update_self]
    simp
  · rw [Function.update_of_ne hk]
    simp [Ne.symm hk]

section
variable {step : σ → ε → σ → Prop} (contents : σ → κ → Option ν) (w : ε → Option (κ × ν))
  (I : σ → Prop)

/-- **What is stored under `k` is what the latest write to `k` wrote.**  `hist` is what happened
before the run. -/
theorem current_of_lossy (hI : ∀ s e t, step s e t → I s → I t)
    (hstep : ∀ s e t, step s e t → I s → Lossy (w e) (contents s) (contents t))
    {s t : σ} {es : List ε} (h : Run step s es t) (hs : I s) :
    ∀ hist : List ε, (∀ k v, contents s k = some v → Latest w k v hist) →
      ∀ k v, contents t k = some v → Latest w k v (hist ++ es) := by
  induction h with
  | nil s =>
    intro hist hc k v hv
    rw [List.append_nil]
    exact hc k v hv
  | @cons s t u e es he _ ih =>
    intro hist hc
    have hct : ∀ k v, contents t k = some v → Latest w k v (hist ++ [e]) := by
      intro k v hv
      rcases hstep s e t he hs k v hv with hw | ⟨hb, hw⟩
      · exact .last hist hw
      · exact (hc k v hb).skip hw
    have hu := ih (hI s e t he hs) (hist ++ [e]) hct
    intro k v hv
    have hl := hu k v hv
    rwa [List.append_assoc, List.singleton_append] at hl

/-- **With exact steps, `k` holds `v` exactly when the latest write to `k` wrote `v`.** -/
theorem latest_of_exact (hI : ∀ s e t, step s e t → I s → I t)
    (hstep : ∀ s e t, step s e t → I s → Exact (w e) (contents s) (contents t))
    {s t : σ} {es : List ε} (h : Run step s es t) (hs : I s) :
    ∀ hist : List ε, (∀ k v, contents s k = some v ↔ Latest w k v hist) →
      ∀ k v, contents t k = some v ↔ Latest w k v (hist ++ es) := by
  induction h with
  | nil s =>
    intro hist hc k v
    rw [List.append_nil]
    exact hc k v
  | @cons s t u e es he _ ih =>
    intro hist hc
    have hct : ∀ k v, contents t k = some v ↔ Latest w k v (hist ++ [e]) := by
      intro k v
      rw [hstep s e t he hs k v, latest_snoc, hc k v]
    have hu := ih (hI s e t he hs) (hist ++ [e]) hct
    intro k v
    rw [hu k v, List.append_assoc, List.singleton_append]

end

end Store
