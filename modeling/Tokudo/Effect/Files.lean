import Tokudo.Effect.Pool

/-!
# Files: programs that write files

A disk has a text at some of its paths.  A write that fails, or that is interrupted, leaves anything
at its path.  `WritesOut layout es all`: in `es` the files of `layout` are written one after the other;
`all` tells whether all of them were.

* `kept_of_history`, `text_of_history`   what the disk has at a path;
* `writer_bind`                          **composed writers** write one layout after the other;
* `WritesOut.written`, `WritesOut.front` a writer that has come to its end has written every file, and
                                         one that has begun with a file has written those before it;
* `files_of_exec`                        **writers with files of their own do not disturb each other**,
                                         wherever each of them is.
-/

namespace Effect

variable {P ε E ι α β : Type}

inductive FileOp (P : Type) where
  | createDirAll (path : P)
  | write (path : P) (text : String)

abbrev Files (P ε : Type) : Sig := ⟨FileOp P, fun _ => Except ε Unit⟩

def FileOp.target : FileOp P → Option P
  | .createDirAll _ => none
  | .write path _ => some path

/-- after a write that has failed there may be anything at the path -/
def disk : Object (Files P ε) (P → Option String) := fun s e t =>
  match e with
  | ⟨.createDirAll _, _⟩ => t = s
  | ⟨.write path text, r⟩ => (∀ p, p ≠ path → t p = s p) ∧ (r = .ok () → t path = some text)

/-- a disk that refuses nothing -/
def willingDisk [DecidableEq P] : Handler (Files P ε) (P → Option String)
  | .createDirAll _, s => (.ok (), s)
  | .write path text, s => (.ok (), fun p => if p = path then some text else s p)

theorem disk_of_willing [DecidableEq P] (s : P → Option String) (e : Event (Files P ε))
    (t : P → Option String) (h : willingDisk.object s e t) : disk s e t := by
  obtain ⟨o, r⟩ := e
  replace h : willingDisk o s = (r, t) := h
  cases o with
  | createDirAll path =>
    cases h
    rfl
  | write path text =>
    cases h
    exact ⟨fun p hp => if_neg hp, fun _ => if_pos rfl⟩

/-! ## what the disk has -/

section
variable {s t : P → Option String} {es fs : List (Event (Files P ε))} {p : P}

theorem disk_of_ne {e : Event (Files P ε)} (h : disk s e t) (he : e.op.target ≠ some p) :
    t p = s p := by
  obtain ⟨o, r⟩ := e
  cases o with
  | createDirAll path => rw [show t = s from h]
  | write path text => exact h.1 p fun hp => he (congrArg some hp.symm)

theorem kept_of_history (h : History disk s es t) (he : ∀ e ∈ es, e.op.target ≠ some p) :
    t p = s p := by
  induction h with
  | nil s => rfl
  | cons hd _ ih =>
    rw [ih fun e hm => he e (List.mem_cons_of_mem _ hm), disk_of_ne hd (he _ List.mem_cons_self)]

/-- the text was written to the path, and nothing after it -/
def Written (p : P) (text : String) (es : List (Event (Files P ε))) : Prop :=
  ∃ es₁ es₂, es = es₁ ++ ⟨.write p text, .ok ()⟩ :: es₂ ∧ ∀ e ∈ es₂, e.op.target ≠ some p

theorem Written.cons {text : String} (h : Written p text es) (e : Event (Files P ε)) :
    Written p text (e :: es) := by
  obtain ⟨es₁, es₂, rfl, hlast⟩ := h
  exact ⟨e :: es₁, es₂, rfl, hlast⟩

/-- **A text that was written last is there.** -/
theorem text_of_history {text : String} (h : History disk s es t) (hw : Written p text es) :
    t p = some text := by
  obtain ⟨es₁, es₂, rfl, hlast⟩ := hw
  obtain ⟨u, -, h⟩ := run_append.mp h
  obtain ⟨v, hd, h⟩ := run_cons.mp h
  rw [kept_of_history h hlast]
  exact hd.2 rfl

end

/-! ## layouts -/

inductive WritesOut : List (P × String) → List (Event (Files P ε)) → Bool → Prop where
  | done : WritesOut [] [] true
  | stop (layout : List (P × String)) : WritesOut layout [] false
  | dir {layout : List (P × String)} {es : List (Event (Files P ε))} {all : Bool} (path : P)
      (h : WritesOut layout es all) : WritesOut layout (⟨.createDirAll path, .ok ()⟩ :: es) all
  | noDir (layout : List (P × String)) (path : P) (err : ε) :
      WritesOut layout [⟨.createDirAll path, .error err⟩] false
  | write {layout : List (P × String)} {es : List (Event (Files P ε))} {all : Bool} (p : P)
      (text : String) (h : WritesOut layout es all) :
      WritesOut ((p, text) :: layout) (⟨.write p text, .ok ()⟩ :: es) all
  | noWrite (layout : List (P × String)) (p : P) (text : String) (err : ε) :
      WritesOut ((p, text) :: layout) [⟨.write p text, .error err⟩] false

namespace WritesOut
variable {layout layout' : List (P × String)} {es fs : List (Event (Files P ε))} {all : Bool} {p : P}

/-- what is done of it so far -/
theorem take (h : WritesOut layout (es ++ fs) all) : WritesOut layout es false := by
  generalize hes : es ++ fs = gs at h
  induction h generalizing es with
  | done =>
    rw [(List.append_eq_nil_iff.mp hes).1]
    exact .stop _
  | stop layout =>
    rw [(List.append_eq_nil_iff.mp hes).1]
    exact .stop _
  | dir path h ih =>
    cases es with
    | nil => exact .stop _
    | cons e es =>
      obtain ⟨rfl, htail⟩ := List.cons.inj hes
      exact .dir path (ih htail)
  | noDir layout path err =>
    cases es with
    | nil => exact .stop _
    | cons e es =>
      obtain ⟨rfl, htail⟩ := List.cons.inj hes
      rw [(List.append_eq_nil_iff.mp htail).1]
      exact .noDir _ path err
  | write p text h ih =>
    cases es with
    | nil => exact .stop _
    | cons e es =>
      obtain ⟨rfl, htail⟩ := List.cons.inj hes
      exact .write p text (ih htail)
  | noWrite layout p text err =>
    cases es with
    | nil => exact .stop _
    | cons e es =>
      obtain ⟨rfl, htail⟩ := List.cons.inj hes
      rw [(List.append_eq_nil_iff.mp htail).1]
      exact .noWrite _ p text err

theorem append (h : WritesOut layout es true) (h' : WritesOut layout' fs all) :
    WritesOut (layout ++ layout') (es ++ fs) all := by
  generalize htrue : true = ended at h
  induction h with
  | done => exact h'
  | stop => cases htrue
  | dir path _ ih => exact .dir path (ih htrue)
  | noDir => cases htrue
  | write p text _ ih => exact .write p text (ih htrue)
  | noWrite => cases htrue

theorem append_left (h : WritesOut layout es false) (layout' : List (P × String)) :
    WritesOut (layout ++ layout') es false := by
  generalize hfalse : false = ended at h
  induction h with
  | done => cases hfalse
  | stop layout => exact .stop _
  | dir path _ ih => exact .dir path (ih hfalse)
  | noDir layout path err => exact .noDir _ path err
  | write p text _ ih => exact .write p text (ih hfalse)
  | noWrite layout p text err => exact .noWrite _ p text err

/-- a writer writes the files of its layout only -/
theorem mem_of_target (h : WritesOut layout es all) {e : Event (Files P ε)} (he : e ∈ es)
    (hp : e.op.target = some p) : p ∈ layout.map Prod.fst := by
  induction h with
  | done => cases he
  | stop => cases he
  | dir path _ ih =>
    rcases List.mem_cons.mp he with rfl | he
    · cases hp
    · exact ih he
  | noDir layout path err =>
    rw [List.mem_singleton.mp he] at hp
    cases hp
  | write q text _ ih =>
    rcases List.mem_cons.mp he with rfl | he
    · cases hp
      exact List.mem_cons_self
    · exact List.mem_cons_of_mem _ (ih he)
  | noWrite layout q text err =>
    rw [List.mem_singleton.mp he] at hp
    cases hp
    exact List.mem_cons_self

theorem written_head {text : String} (h : WritesOut layout es all)
    (hp : p ∉ layout.map Prod.fst) : Written p text (⟨.write p text, .ok ()⟩ :: es) :=
  ⟨[], es, rfl, fun _ he ht => hp (h.mem_of_target he ht)⟩

/-- **A writer that has come to its end has written every file.** -/
theorem written (h : WritesOut layout es true) (hnodup : (layout.map Prod.fst).Nodup) :
    ∀ f ∈ layout, Written f.1 f.2 es := by
  generalize htrue : true = ended at h
  induction h with
  | done => exact fun f hf => absurd hf List.not_mem_nil
  | stop => cases htrue
  | dir path _ ih => exact fun f hf => (ih hnodup htrue f hf).cons _
  | noDir => cases htrue
  | write p text h ih =>
    obtain ⟨hp, hnodup⟩ := List.nodup_cons.mp hnodup
    intro f hf
    rcases List.mem_cons.mp hf with rfl | hf
    · exact h.written_head hp
    · exact (ih hnodup htrue f hf).cons _
  | noWrite => cases htrue

/-- **A writer that has begun with a file has written those before it.** -/
theorem front {front back : List (P × String)} {m : P × String}
    (h : WritesOut (front ++ m :: back) es all)
    (hnodup : ((front ++ m :: back).map Prod.fst).Nodup) {e : Event (Files P ε)} (he : e ∈ es)
    (hm : e.op.target = some m.1) : ∀ f ∈ front, Written f.1 f.2 es := by
  generalize hl : front ++ m :: back = l at h hnodup
  induction h generalizing front with
  | done => cases he
  | stop => cases he
  | dir path _ ih =>
    rcases List.mem_cons.mp he with rfl | he
    · cases hm
    · exact fun f hf => (ih he hl hnodup f hf).cons _
  | noDir layout path err =>
    rw [List.mem_singleton.mp he] at hm
    cases hm
  | write p text h ih =>
    obtain ⟨hp, hnodup⟩ := List.nodup_cons.mp hnodup
    cases front with
    | nil => exact fun f hf => absurd hf List.not_mem_nil
    | cons x front =>
      obtain ⟨rfl, rfl⟩ := List.cons.inj hl
      rcases List.mem_cons.mp he with rfl | he
      · cases hm
        simp at hp
      · intro f hf
        rcases List.mem_cons.mp hf with rfl | hf
        · exact h.written_head hp
        · exact (ih he rfl hnodup f hf).cons _
  | noWrite layout p text err =>
    obtain ⟨hp, -⟩ := List.nodup_cons.mp hnodup
    rw [List.mem_singleton.mp he] at hm
    cases hm
    cases front with
    | nil => exact fun f hf => absurd hf List.not_mem_nil
    | cons x front =>
      obtain ⟨rfl, rfl⟩ := List.cons.inj hl
      simp at hp

end WritesOut

/-! ## writers -/

def createDirAll (toError : ε → E) (path : P) : Fallible (Files P ε) E Unit :=
  ExceptT.mk (.ask (S := Files P ε) (.createDirAll path) fun r => .ret (r.mapError toError))

def writeFile (toError : ε → E) (path : P) (text : String) : Fallible (Files P ε) E Unit :=
  ExceptT.mk (.ask (S := Files P ε) (.write path text) fun r => .ret (r.mapError toError))

/-- every run of `x` writes out the layout, and all of it if it succeeds -/
def Writer (layout : List (P × String)) (x : Fallible (Files P ε) E α) : Prop :=
  ∀ es b, Does x es b → WritesOut layout es b.toBool

section
variable {layout layout' : List (P × String)}

theorem writer_pure (a : α) : Writer (P := P) (ε := ε) (E := E) [] (pure a) := by
  rintro es b ⟨rfl, rfl⟩
  exact .done

theorem writer_createDirAll (toError : ε → E) (path : P) :
    Writer [] (createDirAll toError path) := by
  rintro es b ⟨r, _, rfl, rfl, rfl⟩
  cases r with
  | error err => exact .noDir _ path err
  | ok u => exact .dir path .done

theorem writer_writeFile (toError : ε → E) (path : P) (text : String) :
    Writer [(path, text)] (writeFile toError path text) := by
  rintro es b ⟨r, _, rfl, rfl, rfl⟩
  cases r with
  | error err => exact .noWrite _ path text err
  | ok u => exact .write path text .done

/-- **Composed writers write one layout after the other.** -/
theorem writer_bind {x : Fallible (Files P ε) E α} {f : α → Fallible (Files P ε) E β}
    (hx : Writer layout x) (hf : ∀ a, Writer layout' (f a)) :
    Writer (layout ++ layout') (x >>= f) := by
  intro es b h
  rcases (does_bind x f es b).mp h with ⟨e, he, rfl⟩ | ⟨es₁, es₂, a, rfl, h₁, h₂⟩
  · exact (hx es _ he).append_left layout'
  · exact (hx es₁ _ h₁).append (hf a es₂ b h₂)

theorem writer_createDirAll_bind {toError : ε → E} {path : P} {f : Unit → Fallible (Files P ε) E α}
    (hf : ∀ u, Writer layout (f u)) : Writer layout (createDirAll toError path >>= f) :=
  writer_bind (writer_createDirAll toError path) hf

theorem writer_writeFile_bind {toError : ε → E} {path : P} {text : String}
    {f : Unit → Fallible (Files P ε) E α} (hf : ∀ u, Writer layout (f u)) :
    Writer ((path, text) :: layout) (writeFile toError path text >>= f) :=
  writer_bind (writer_writeFile toError path text) hf

theorem writer_liftExcept {x : Except E α} {f : α → Fallible (Files P ε) E β}
    (hf : ∀ a, x = .ok a → Writer layout (f a)) : Writer layout (liftExcept x >>= f) := by
  intro es b h
  rcases (does_liftExcept_bind x f es b).mp h with ⟨e, -, rfl, rfl⟩ | ⟨a, hx, h⟩
  · exact .stop _
  · exact hf a hx es b h

end

/-! ## many writers -/

section
variable [DecidableEq ι] {s t : P → Option String} {log : List (ι × Event (Files P ε))}

theorem text_of_log {i : ι} {p : P} {text : String} (h : History disk s (log.map Prod.snd) t)
    (hown : ∀ j e, (j, e) ∈ log → e.op.target = some p → j = i)
    (hw : Written p text (eventsOf i log)) : t p = some text := by
  obtain ⟨es₁, es₂, hes, hlast⟩ := hw
  obtain ⟨l, l', rfl, -, rfl⟩ := exists_split_of_eventsOf hes
  refine text_of_history h ⟨l.map Prod.snd, l'.map Prod.snd, by rw [List.map_append]; rfl, ?_⟩
  intro e he ht
  obtain ⟨⟨j, e⟩, hm, rfl⟩ := List.mem_map.mp he
  obtain rfl := hown j e (List.mem_append_right _ (List.mem_cons_of_mem _ hm)) ht
  exact hlast e (mem_eventsOf.mpr hm) ht

/-- **Writers with files of their own do not disturb each other.**  A writer that has succeeded has all
of its files on the disk; where its last file has appeared, all the others are; and what is no file
of any writer is as before. -/
theorem files_of_exec {programs : ι → Fallible (Files P ε) E α} {layouts : ι → List (P × String)}
    (hwriter : ∀ i, Writer (layouts i) (programs i))
    (hnodup : ∀ i, ((layouts i).map Prod.fst).Nodup)
    (hown : ∀ i j p, p ∈ (layouts i).map Prod.fst → p ∈ (layouts j).map Prod.fst → i = j)
    {d : Pool (Files P ε) ι (Except E α) (P → Option String)}
    (h : Exec disk ⟨fun i => ExceptT.run (programs i), s⟩ log d) :
    (∀ i a, d.threads i = .ret (.ok a) → ∀ f ∈ layouts i, d.shared f.1 = some f.2) ∧
    (∀ i front m, layouts i = front ++ [m] → s m.1 = none → d.shared m.1 ≠ none →
      ∀ f ∈ front, d.shared f.1 = some f.2) ∧
    ∀ p, (∀ i, p ∉ (layouts i).map Prod.fst) → d.shared p = s p := by
  have hso (i : ι) : WritesOut (layouts i) (eventsOf i log) false := by
    have : ∀ o, Nonempty ((Files P ε).Ret o) := fun _ => ⟨.ok ()⟩
    obtain ⟨fs, b, hr⟩ := (h.steps i).extend
    exact (hwriter i _ b hr).take
  have htarget {i : ι} {e : Event (Files P ε)} {p : P} (he : (i, e) ∈ log)
      (hp : e.op.target = some p) : p ∈ (layouts i).map Prod.fst :=
    (hso i).mem_of_target (mem_eventsOf.mpr he) hp
  have hthere {i : ι} {f : P × String} (hf : f ∈ layouts i)
      (hw : Written f.1 f.2 (eventsOf i log)) : d.shared f.1 = some f.2 :=
    text_of_log h.history (fun j e he hp => hown j i f.1 (htarget he hp) (List.mem_map_of_mem hf)) hw
  refine ⟨fun i a hi f hf => ?_, fun i front m hl hnone hsome f hf => ?_, fun p hp => ?_⟩
  · have hsteps := h.steps i
    rw [hi] at hsteps
    have hall : WritesOut (layouts i) (eventsOf i log) true := hwriter i _ _ hsteps.runs_of_ret
    exact hthere hf (hall.written (hnodup i) f hf)
  · have hbegun : ∃ e ∈ eventsOf i log, e.op.target = some m.1 := by
      by_contra hno
      refine hsome ((kept_of_history h.history ?_).trans hnone)
      intro e he ht
      obtain ⟨⟨j, e⟩, hm, rfl⟩ := List.mem_map.mp he
      have hmine : m.1 ∈ (layouts i).map Prod.fst := by
        rw [hl, List.map_append]
        exact List.mem_append_right _ List.mem_cons_self
      obtain rfl := hown j i m.1 (htarget hm ht) hmine
      exact hno ⟨e, mem_eventsOf.mpr hm, ht⟩
    obtain ⟨e, he, ht⟩ := hbegun
    have hfront : Written f.1 f.2 (eventsOf i log) := by
      have hso' := hso i
      have hnodup' := hnodup i
      rw [hl] at hso' hnodup'
      exact hso'.front hnodup' he ht f hf
    refine hthere ?_ hfront
    rw [hl]
    exact List.mem_append_left _ hf
  · apply kept_of_history h.history
    intro e he ht
    obtain ⟨⟨j, e⟩, hm, rfl⟩ := List.mem_map.mp he
    exact hp j (htarget hm ht)

end

end Effect
