import Tokudo.Effect.Pool

/-!
# Instrumented programs

A program of `S` is instrumented: some of its operations are no longer asked, but carried out by
small programs that read a clock, draw tickets from a counter that all threads share (`take`, a
fetch-and-add) and publish items.  The other operations are asked as before (`base`).

* `steps_bind`, `steps_instrument`   what an unfinished run of an instrumented program has done;
* `runs_instrument`                  a finished run carries out a run of the program, operation by
                                     operation (`CarriesOut`);
* `Exec.erase`                       **an interleaving of instrumented programs is an interleaving of
                                     the programs themselves**: every thread returns the same.
-/

namespace Effect

variable {S T : Sig} {ι α β σ P : Type}

/-! ## unfinished runs of composed programs -/

namespace Prog

/-- an unfinished run of a composed program is one of its first half, or goes beyond it -/
theorem steps_bind {p : Prog S α} {f : α → Prog S β} {es : List (Event S)} {q : Prog S β}
    (h : (p.bind f).Steps es q) :
    (∃ q', p.Steps es q' ∧ q = q'.bind f) ∨
      ∃ es₁ es₂ a, es = es₁ ++ es₂ ∧ p.Runs es₁ a ∧ (f a).Steps es₂ q := by
  induction p generalizing es with
  | ret a => exact .inr ⟨[], es, a, rfl, ⟨rfl, rfl⟩, h⟩
  | ask o k ih =>
    cases h with
    | refl => exact .inl ⟨_, .refl _, rfl⟩
    | @ask _ _ r es _ h =>
      rcases ih r h with ⟨q', hs, hq⟩ | ⟨es₁, es₂, a, rfl, hr, hs⟩
      · exact .inl ⟨q', .ask hs, hq⟩
      · exact .inr ⟨⟨o, r⟩ :: es₁, es₂, a, rfl, ⟨r, es₁, rfl, hr⟩, hs⟩

theorem Runs.steps {p : Prog S α} {es : List (Event S)} {a : α} (h : p.Runs es a) :
    p.Steps es (.ret a) := by
  induction p generalizing es with
  | ret b =>
    obtain ⟨rfl, rfl⟩ := h
    exact .refl _
  | ask o k ih =>
    obtain ⟨r, es', rfl, h⟩ := h
    exact .ask (ih r h)

end Prog

/-! ## instrumentation -/

inductive TicketOp (S : Sig) (P : Type) where
  | base (o : S.Op)
  | now
  | take
  | publish (item : P)

def TicketOp.Ret : TicketOp S P → Type
  | .base o => S.Ret o
  | .now => Nat
  | .take => Nat
  | .publish _ => Unit

abbrev Ticketed (S : Sig) (P : Type) : Sig := ⟨TicketOp S P, TicketOp.Ret⟩

/-- the operation of `S`, if it is one -/
def baseEvent : Event (Ticketed S P) → Option (Event S)
  | ⟨.base o, r⟩ => some ⟨o, r⟩
  | _ => none

/-- the counter has `size` values and wraps around; the clock may show anything -/
def counting (size : Nat) (O : Object S σ) : Object (Ticketed S P) (σ × Nat) := fun s e t =>
  match e with
  | ⟨.base o, r⟩ => O s.1 ⟨o, r⟩ t.1 ∧ t.2 = s.2
  | ⟨.now, _⟩ => t = s
  | ⟨.take, n⟩ => n = s.2 ∧ t = (s.1, (s.2 + 1) % size)
  | ⟨.publish _, _⟩ => t = s

theorem counting_fst {size : Nat} {O : Object S σ} {s t : σ × Nat} {e : Event (Ticketed S P)}
    (h : counting size O s e t) (he : baseEvent e = none) : t.1 = s.1 := by
  obtain ⟨o, r⟩ := e
  cases o with
  | base o => cases he
  | now => rw [show t = s from h]
  | take => rw [h.2]
  | publish item => rw [show t = s from h]

/-- a computed object, with a counter and a clock that stands still -/
def counted (size millis : Nat) (h : Handler S σ) : Handler (Ticketed S P) (σ × Nat)
  | .base o, s => ((h o s.1).1, ((h o s.1).2, s.2))
  | .now, s => (millis, s)
  | .take, s => (s.2, (s.1, (s.2 + 1) % size))
  | .publish _, s => ((), s)

theorem counting_of_counted {size millis : Nat} {h : Handler S σ} {O : Object S σ}
    (hO : ∀ s e t, h.object s e t → O s e t) (s : σ × Nat) (e : Event (Ticketed S P)) (t : σ × Nat)
    (he : (counted size millis h).object s e t) : counting size O s e t := by
  obtain ⟨o, r⟩ := e
  replace he : counted size millis h o s = (r, t) := he
  cases o with
  | base o =>
    cases he
    exact ⟨hO s.1 ⟨o, _⟩ _ rfl, rfl⟩
  | now =>
    cases he
    rfl
  | take =>
    cases he
    exact ⟨rfl, rfl⟩
  | publish item =>
    cases he
    rfl

/-- the operations that are carried out by a program instead of being asked -/
abbrev Taps (S : Sig) (P : Type) := (o : S.Op) → Option (Prog (Ticketed S P) (S.Ret o))

def instrument (tap : Taps S P) : Prog S α → Prog (Ticketed S P) α
  | .ret a => .ret a
  | .ask o k =>
    match tap o with
    | none => .ask (S := Ticketed S P) (.base o) fun r => instrument tap (k r)
    | some p => p.bind fun r => instrument tap (k r)

/-- no run of the program asks an operation of `S` -/
def OffBase (p : Prog (Ticketed S P) α) : Prop :=
  ∀ es q, p.Steps es q → ∀ e ∈ es, baseEvent e = none

/-- what the programs of the taps do: something, and nothing that the object of `S` sees -/
structure LawfulTaps (tap : Taps S P) : Prop where
  asks : ∀ o p, tap o = some p → ∃ o' k, p = .ask o' k
  offBase : ∀ o p, tap o = some p → OffBase p

section
variable {tap : Taps S P}

theorem instrument_none {o : S.Op} {k : S.Ret o → Prog S α} (h : tap o = none) :
    instrument tap (.ask o k) =
      .ask (S := Ticketed S P) (.base o) fun r => instrument tap (k r) := by
  rw [instrument, h]

theorem instrument_some {o : S.Op} {k : S.Ret o → Prog S α} {p : Prog (Ticketed S P) (S.Ret o)}
    (h : tap o = some p) :
    instrument tap (.ask o k) = p.bind fun r => instrument tap (k r) := by
  rw [instrument, h]

/-- one operation of `S`, and what was done for it -/
inductive CarriesOutOp (tap : Taps S P) : Event S → List (Event (Ticketed S P)) → Prop where
  | base {o : S.Op} {r : S.Ret o} (h : tap o = none) :
      CarriesOutOp tap ⟨o, r⟩ [⟨.base o, r⟩]
  | tapped {o : S.Op} {r : S.Ret o} {p : Prog (Ticketed S P) (S.Ret o)}
      {es : List (Event (Ticketed S P))} (h : tap o = some p) (hr : p.Runs es r) :
      CarriesOutOp tap ⟨o, r⟩ es

/-- operations of `S`, and what was done for them, one after the other -/
inductive CarriesOut (tap : Taps S P) : List (Event S) → List (Event (Ticketed S P)) → Prop where
  | nil : CarriesOut tap [] []
  | cons {e : Event S} {es : List (Event S)} {fs gs : List (Event (Ticketed S P))}
      (h : CarriesOutOp tap e fs) (hs : CarriesOut tap es gs) : CarriesOut tap (e :: es) (fs ++ gs)

/-- **A finished run of an instrumented program carries out a run of the program.** -/
theorem runs_instrument {p : Prog S α} {es : List (Event (Ticketed S P))} {a : α}
    (h : (instrument tap p).Runs es a) : ∃ es₀, p.Runs es₀ a ∧ CarriesOut tap es₀ es := by
  induction p generalizing es with
  | ret b =>
    obtain ⟨rfl, rfl⟩ := h
    exact ⟨[], ⟨rfl, rfl⟩, .nil⟩
  | ask o k ih =>
    cases ho : tap o with
    | none =>
      rw [instrument_none ho] at h
      obtain ⟨r, es, rfl, h⟩ := h
      obtain ⟨es₀, hr, hc⟩ := ih r h
      exact ⟨⟨o, r⟩ :: es₀, ⟨r, es₀, rfl, hr⟩, .cons (.base ho) hc⟩
    | some p =>
      rw [instrument_some ho] at h
      obtain ⟨fs, gs, r, rfl, hp, h⟩ := (Prog.runs_bind _ _ _ _).mp h
      obtain ⟨es₀, hr, hc⟩ := ih r h
      exact ⟨⟨o, r⟩ :: es₀, ⟨r, es₀, rfl, hr⟩, .cons (.tapped ho hp) hc⟩

/-- **What an unfinished run of an instrumented program has done**: operations carried out, and the
begin of one more. -/
theorem steps_instrument {p : Prog S α} {es : List (Event (Ticketed S P))}
    {q : Prog (Ticketed S P) α} (h : (instrument tap p).Steps es q) :
    ∃ es₀ fs gs, es = fs ++ gs ∧ CarriesOut tap es₀ fs ∧
      (gs = [] ∨ ∃ o r rest, tap o = some r ∧ r.Steps gs rest) := by
  induction p generalizing es with
  | ret a =>
    cases h
    exact ⟨[], [], [], rfl, .nil, .inl rfl⟩
  | ask o k ih =>
    cases ho : tap o with
    | none =>
      rw [instrument_none ho] at h
      cases h with
      | refl => exact ⟨[], [], [], rfl, .nil, .inl rfl⟩
      | ask h =>
        obtain ⟨es₀, fs, gs, rfl, hc, hgs⟩ := ih _ h
        exact ⟨_, _, gs, rfl, .cons (.base ho) hc, hgs⟩
    | some p =>
      rw [instrument_some ho] at h
      rcases Prog.steps_bind h with ⟨q', hs, -⟩ | ⟨es₁, es₂, r, rfl, hp, hs⟩
      · exact ⟨[], [], es, rfl, .nil, .inr ⟨o, p, q', ho, hs⟩⟩
      · obtain ⟨es₀, fs, gs, rfl, hc, hgs⟩ := ih r hs
        exact ⟨_, es₁ ++ fs, gs, (List.append_assoc ..).symm, .cons (.tapped ho hp) hc, hgs⟩

theorem CarriesOut.snoc {es : List (Event S)} {e : Event S} {fs gs : List (Event (Ticketed S P))}
    (h : CarriesOut tap es fs) (he : CarriesOutOp tap e gs) :
    CarriesOut tap (es ++ [e]) (fs ++ gs) := by
  induction h with
  | nil =>
    rw [List.nil_append, List.nil_append, ← List.append_nil gs]
    exact .cons he .nil
  | cons h' _ ih =>
    rw [List.append_assoc]
    exact .cons h' ih

/-! ## interleavings -/

/-- the instrumented program has carried out what the program has done, or is in the middle of the
tap that the program asks next -/
inductive Behind (tap : Taps S P) : List (Event S) → List (Event (Ticketed S P)) →
    Prog S α → Prog (Ticketed S P) α → Prop where
  | level {es : List (Event S)} {fs : List (Event (Ticketed S P))} (h : CarriesOut tap es fs)
      (p : Prog S α) : Behind tap es fs p (instrument tap p)
  | middle {es : List (Event S)} {fs gs : List (Event (Ticketed S P))} (h : CarriesOut tap es fs)
      {o : S.Op} (k : S.Ret o → Prog S α) {p : Prog (Ticketed S P) (S.Ret o)} (ho : tap o = some p)
      {o' : TicketOp S P} {k' : TicketOp.Ret o' → Prog (Ticketed S P) (S.Ret o)}
      (hp : p.Steps gs (.ask o' k')) :
      Behind tap es (fs ++ gs) (.ask o k)
        (.ask (S := Ticketed S P) o' fun r => (k' r).bind fun x => instrument tap (k x))

/-- where the one has returned, so has the other -/
theorem Behind.ret (htap : LawfulTaps tap) {es : List (Event S)} {fs : List (Event (Ticketed S P))}
    {p : Prog S α} {a : α} (h : Behind tap es fs p (.ret a)) :
    p = .ret a ∧ CarriesOut tap es fs := by
  generalize hq : Prog.ret a = q at h
  cases h with
  | level h p =>
    refine ⟨?_, h⟩
    cases p with
    | ret b =>
      cases hq
      rfl
    | ask o k =>
      cases ho : tap o with
      | none =>
        rw [instrument_none ho] at hq
        cases hq
      | some p =>
        obtain ⟨o', k', rfl⟩ := htap.asks o p ho
        rw [instrument_some ho] at hq
        cases hq
  | middle h k ho hp => cases hq

/-- an operation that is asked as before -/
def kept (tap : Taps S P) (e : Event S) : Bool := (tap e.op).isNone

/-- **One step of an instrumented program** is at most one step of the program: the operation that
both ask, or the end of a tap. -/
theorem behind_step (htap : LawfulTaps tap) {size : Nat} {O : Object S σ}
    (hO : ∀ s o r, (tap o).isSome = true → O s ⟨o, r⟩ s) {es : List (Event S)}
    {fs : List (Event (Ticketed S P))} {p : Prog S α} {o : TicketOp S P}
    {k : TicketOp.Ret o → Prog (Ticketed S P) α}
    (h : Behind tap es fs p (.ask (S := Ticketed S P) o k)) {r : TicketOp.Ret o} {s t : σ × Nat}
    (hs : counting size O s ⟨o, r⟩ t) :
    ∃ gs q, p.Steps gs q ∧ History O s.1 gs t.1 ∧
      gs.filter (kept tap) = (baseEvent ⟨o, r⟩).toList ∧
      Behind tap (es ++ gs) (fs ++ [⟨o, r⟩]) q (k r) := by
  -- a step inside the tap of `o₁`: it goes on, or has come to its end
  have inside {o₁ : S.Op} (k₁ : S.Ret o₁ → Prog S α) {p₁ : Prog (Ticketed S P) (S.Ret o₁)}
      (ho : tap o₁ = some p₁) {fs₀ gs₀ : List (Event (Ticketed S P))} (hfs : fs = fs₀ ++ gs₀)
      (hc : CarriesOut tap es fs₀) {p' : Prog (Ticketed S P) (S.Ret o₁)}
      (hp : p₁.Steps (gs₀ ++ [⟨o, r⟩]) p') :
      ∃ gs q, (Prog.ask o₁ k₁).Steps gs q ∧ History O s.1 gs t.1 ∧
        gs.filter (kept tap) = (baseEvent ⟨o, r⟩).toList ∧
        Behind tap (es ++ gs) (fs ++ [⟨o, r⟩]) q (p'.bind fun x => instrument tap (k₁ x)) := by
    have hoff : baseEvent ⟨o, r⟩ = none :=
      htap.offBase o₁ p₁ ho _ _ hp _ (List.mem_append_right _ List.mem_cons_self)
    rw [counting_fst hs hoff, hoff, hfs, List.append_assoc]
    cases p' with
    | ret x =>
      refine ⟨[⟨o₁, x⟩], k₁ x, .ask (.refl _), .cons (hO s.1 o₁ x (by rw [ho]; rfl)) (.nil _), ?_,
        .level (hc.snoc (.tapped ho hp.runs_of_ret)) _⟩
      simp [kept, ho]
    | ask o' k' =>
      refine ⟨[], .ask o₁ k₁, .refl _, .nil _, rfl, ?_⟩
      rw [List.append_nil]
      exact .middle hc k₁ ho hp
  generalize hq : Prog.ask (S := Ticketed S P) o k = q at h
  cases h with
  | level hc p =>
    cases p with
    | ret a => cases hq
    | ask o₁ k₁ =>
      cases ho : tap o₁ with
      | none =>
        rw [instrument_none ho] at hq
        cases hq
        refine ⟨[⟨o₁, r⟩], k₁ r, .ask (.refl _), .cons hs.1 (.nil _), ?_,
          .level (hc.snoc (.base ho)) _⟩
        simp [kept, ho, baseEvent]
      | some p =>
        obtain ⟨o', k', rfl⟩ := htap.asks o₁ p ho
        rw [instrument_some ho] at hq
        cases hq
        exact inside k₁ ho (List.append_nil fs).symm hc (.ask (.refl _))
  | middle hc k₁ ho hp =>
    cases hq
    exact inside k₁ ho rfl hc (hp.snoc r)

/-- the operations of `S` in a log -/
def baseLog (log : List (ι × Event (Ticketed S P))) : List (ι × Event S) :=
  log.filterMap fun x => (baseEvent x.2).map fun e => (x.1, e)

/-- **An interleaving of instrumented programs is an interleaving of the programs themselves.**  The
object goes through the same, asked the same operations in the same order, but for those that are
not asked; and every thread has carried out what its program has done. -/
theorem Exec.erase [DecidableEq ι] (htap : LawfulTaps tap) {size : Nat} {O : Object S σ}
    (hO : ∀ s o r, (tap o).isSome = true → O s ⟨o, r⟩ s) {c : Pool S ι α σ} {first : Nat}
    {log : List (ι × Event (Ticketed S P))} {d : Pool (Ticketed S P) ι α (σ × Nat)}
    (h : Exec (counting size O) ⟨fun i => instrument tap (c.threads i), (c.shared, first)⟩ log d) :
    ∃ log₀ d₀, Exec O c log₀ d₀ ∧ d₀.shared = d.shared.1 ∧
      log₀.filter (fun x => kept tap x.2) = baseLog log ∧
      ∀ i, Behind tap (eventsOf i log₀) (eventsOf i log) (d₀.threads i) (d.threads i) := by
  generalize hc : Pool.mk (fun i => instrument tap (c.threads i)) (c.shared, first) = c' at h
  induction h with
  | refl =>
    subst hc
    exact ⟨[], c, .refl c, rfl, rfl, fun i => .level .nil _⟩
  | @step d log i o k r t h hi ho ih =>
    obtain ⟨log₀, d₀, hexec, hshared, hlog, hbehind⟩ := ih
    have hthread := hbehind i
    rw [hi] at hthread
    obtain ⟨gs, q, hsteps, hhist, hkept, hq⟩ := behind_step htap hO hthread ho
    rw [← hshared] at hhist
    refine ⟨_, _, hexec.trans (.alone rfl hsteps hhist), rfl, ?_, ?_⟩
    · have hmap : (gs.map fun e => (i, e)).filter (fun x => kept tap x.2) =
          (gs.filter (kept tap)).map fun e => (i, e) := by
        rw [List.filter_map]
        rfl
      rw [List.filter_append, hlog, hmap, hkept]
      unfold baseLog
      rw [List.filterMap_append]
      congr 1
      cases hb : baseEvent (⟨o, r⟩ : Event (Ticketed S P)) <;> simp [hb]
    · intro j
      dsimp only
      rw [eventsOf_append, eventsOf_append]
      by_cases hj : j = i
      · subst hj
        rw [Function.update_self, Function.update_self, eventsOf_map_self, eventsOf_cons_self]
        exact hq
      · rw [Function.update_of_ne hj, Function.update_of_ne hj,
          eventsOf_map_ne (Ne.symm hj), eventsOf_cons_ne (Ne.symm hj), List.append_nil]
        show Behind tap _ (_ ++ []) _ _
        rw [List.append_nil]
        exact hbehind j

end

end Effect
