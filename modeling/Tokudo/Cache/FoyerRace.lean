import Tokudo.Cache.Foyer
import Tokudo.Effect.Pool

/-!
# `FoyerCache` under concurrent calls

`cache/foyer.rs`, operation by operation.  A `get` looks the key up, reads the clock, and removes
the key if the entry it found is expired; a `put` inserts.  Each operation is atomic, and other
calls may run between any two of them.  Nothing is evicted.

* `exec_get`               a `get` that runs alone is `FoyerCache.get`;
* `getRun_of_steps`        what a `get` can have done so far;
* `kept`                   after an insert, the entry stays until a `get` removes it that had looked
                           the key up before;
* `put_survives_iff`       **a `get` after a `put` returns its entry exactly if no such remove falls
                           in between.**
-/

namespace Tokudo
open Effect

namespace FoyerCache

/-! ## operations -/

/-- the operations of the wrapped cache, and the clock -/
inductive FoyerOp where
  | lookup (key : String)
  | now
  | remove (key : String)
  | insert (key : String) (entry : CachedEntry)

def FoyerOp.Ret : FoyerOp → Type
  | .lookup _ => Option CachedEntry
  | .now => Nat
  | .remove _ => Unit
  | .insert _ _ => Unit

abbrev FoyerSig : Sig := ⟨FoyerOp, FoyerOp.Ret⟩

abbrev evLookup (key : String) (found : Option CachedEntry) : Event FoyerSig := ⟨.lookup key, found⟩
abbrev evNow (now : Nat) : Event FoyerSig := ⟨.now, now⟩
abbrev evRemove (key : String) : Event FoyerSig := ⟨.remove key, ()⟩
abbrev evInsert (key : String) (entry : CachedEntry) : Event FoyerSig := ⟨.insert key entry, ()⟩

def foyer (now : Nat) : Handler FoyerSig Contents
  | .lookup key, m => (m key, m)
  | .now, m => (now, m)
  | .remove key, m => ((), Function.update m key none)
  | .insert key entry, m => ((), Function.update m key (some entry))

/-- shared, at any clock readings -/
def shared : Object FoyerSig Contents := fun m e m' => ∃ now, (foyer now).object m e m'

/-! ## calls -/

inductive FoyerCall where
  | get (key : String)
  | put (key : String) (entry : CachedEntry)

inductive FoyerAnswer where
  | got (found : Option CachedEntry)
  | done

def getProgram (key : String) : Prog FoyerSig FoyerAnswer :=
  .ask (S := FoyerSig) (.lookup key) fun found => match found with
    | none => .ret (.got none)
    | some value => .ask (S := FoyerSig) .now fun now =>
      if isExpired value now then .ask (S := FoyerSig) (.remove key) fun _ => .ret (.got none)
      else .ret (.got (some value))

def putProgram (config : FoyerCacheConfig) (key : String) (entry : CachedEntry) :
    Prog FoyerSig FoyerAnswer :=
  if config.capacity = 0 then .ret .done
  else .ask (S := FoyerSig) (.insert key entry) fun _ => .ret .done

def program (config : FoyerCacheConfig) : FoyerCall → Prog FoyerSig FoyerAnswer
  | .get key => getProgram key
  | .put key entry => putProgram config key entry

/-- a `get` that runs alone -/
theorem exec_get (now : Nat) (key : String) (m : Contents) :
    (exec (foyer now) (getProgram key) m).value = .got (get now key m).1 ∧
      (exec (foyer now) (getProgram key) m).state = (get now key m).2 := by
  unfold get
  cases hk : m key with
  | none => simp [getProgram, exec, foyer, hk]
  | some value =>
    cases he : isExpired value now <;> simp [getProgram, exec, foyer, hk, he]

/-- a `put` that runs alone -/
theorem exec_put (config : FoyerCacheConfig) (now : Nat) (key : String) (entry : CachedEntry)
    (m : Contents) :
    (exec (foyer now) (putProgram config key entry) m).state = put config key entry m := by
  unfold put putProgram
  split <;> rfl

/-! ## what a call can have done -/

/-- a `get` under way, or ended -/
inductive GetRun (key : String) : List (Event FoyerSig) → Prog FoyerSig FoyerAnswer → Prop where
  | idle : GetRun key [] (getProgram key)
  | absent : GetRun key [evLookup key none] (.ret (.got none))
  | found (value : CachedEntry) {p : Prog FoyerSig FoyerAnswer} (hp : ∀ a, p ≠ .ret a) :
      GetRun key [evLookup key (some value)] p
  | fresh {value : CachedEntry} {now : Nat} (h : isExpired value now = false) :
      GetRun key [evLookup key (some value), evNow now] (.ret (.got (some value)))
  | expired {value : CachedEntry} {now : Nat} {p : Prog FoyerSig FoyerAnswer}
      (h : isExpired value now = true) (hp : ∀ a, p ≠ .ret a) :
      GetRun key [evLookup key (some value), evNow now] p
  | removed {value : CachedEntry} {now : Nat} (h : isExpired value now = true) :
      GetRun key [evLookup key (some value), evNow now, evRemove key] (.ret (.got none))

theorem getRun_of_steps {key : String} {es : List (Event FoyerSig)}
    {p : Prog FoyerSig FoyerAnswer} (h : (getProgram key).Steps es p) : GetRun key es p := by
  cases h with
  | refl => exact .idle
  | @ask _ _ found es _ h =>
    cases found with
    | none =>
      cases h
      exact .absent
    | some value =>
      cases h with
      | refl => exact .found value fun a ha => by cases ha
      | @ask _ _ now es _ h =>
        dsimp only at h
        cases he : isExpired value now with
        | false =>
          rw [he, if_neg Bool.false_ne_true] at h
          cases h
          exact .fresh he
        | true =>
          rw [he, if_pos rfl] at h
          cases h with
          | refl => exact .expired he fun a ha => by cases ha
          | ask h =>
            cases h
            exact .removed he

theorem putProgram_steps {config : FoyerCacheConfig} {key : String} {entry : CachedEntry}
    {es : List (Event FoyerSig)} {p : Prog FoyerSig FoyerAnswer}
    (h : (putProgram config key entry).Steps es p) : ∀ e ∈ es, e = evInsert key entry := by
  unfold putProgram at h
  split at h
  · cases h
    exact fun e he => absurd he List.not_mem_nil
  · cases h with
    | refl => exact fun e he => absurd he List.not_mem_nil
    | ask h =>
      cases h
      exact fun e he => List.mem_singleton.mp he

/-! ## interleavings -/

variable {ι : Type}

/-- one call for every thread, none of them begun -/
def start (config : FoyerCacheConfig) (calls : ι → FoyerCall) (m : Contents) :
    Pool FoyerSig ι FoyerAnswer Contents :=
  ⟨fun i => program config (calls i), m⟩

section
variable [DecidableEq ι] {config : FoyerCacheConfig} {calls : ι → FoyerCall} {m : Contents}
  {log : List (ι × Event FoyerSig)} {c : Pool FoyerSig ι FoyerAnswer Contents}

/-- what looks up, or removes, is a `get` -/
theorem getRun_of_exec (h : Exec shared (start config calls m) log c) {i : ι} {ev : Event FoyerSig}
    (hm : ev ∈ eventsOf i log) (hev : ∀ k e, ev ≠ evInsert k e) :
    ∃ k, GetRun k (eventsOf i log) (c.threads i) := by
  have hs : (program config (calls i)).Steps (eventsOf i log) (c.threads i) := h.steps i
  cases hc : calls i with
  | get k =>
    rw [hc] at hs
    exact ⟨k, getRun_of_steps hs⟩
  | put k e =>
    rw [hc] at hs
    exact absurd (putProgram_steps hs ev hm) (hev k e)

/-- **A `get` removes the key because of the entry it has looked up.** -/
theorem before_remove (h : Exec shared (start config calls m) log c)
    {u w : List (ι × Event FoyerSig)} {i : ι} {k : String} (hlog : log = u ++ (i, evRemove k) :: w) :
    ∃ value now, eventsOf i u = [evLookup k (some value), evNow now] ∧
      isExpired value now = true := by
  have hi : eventsOf i log = eventsOf i u ++ evRemove k :: eventsOf i w := by
    rw [hlog, eventsOf_split]
  have hm : evRemove k ∈ eventsOf i log := by
    rw [hi]
    exact List.mem_append_right _ List.mem_cons_self
  obtain ⟨k', hrun⟩ := getRun_of_exec h hm (fun _ _ he => by cases he)
  generalize c.threads i = p at hrun
  generalize eventsOf i log = es at hrun hi hm
  cases hrun with
  | @removed value now he =>
    have hsplit : [evLookup k' (some value), evNow now] ++ [evRemove k'] =
        eventsOf i u ++ evRemove k :: eventsOf i w := hi
    have hpre : evRemove k ∉ [evLookup k' (some value), evNow now] := by
      intro hpre
      rcases List.mem_pair.mp hpre with hev | hev <;> cases hev
    obtain ⟨zs, hzs, hrest⟩ := append_split hpre hsplit
    cases zs with
    | nil =>
      obtain ⟨hev, -⟩ := List.cons.inj hrest
      cases hev
      exact ⟨value, now, by rw [hzs, List.append_nil], he⟩
    | cons z zs => simp at hrest
  | idle => cases hm
  | absent => cases List.mem_singleton.mp hm
  | found value hp => cases List.mem_singleton.mp hm
  | fresh he => rcases List.mem_pair.mp hm with hev | hev <;> cases hev
  | expired he hp => rcases List.mem_pair.mp hm with hev | hev <;> cases hev

/-- **What a `get` that has returned saw and did** after its lookup. -/
theorem after_lookup (h : Exec shared (start config calls m) log c)
    {u w : List (ι × Event FoyerSig)} {i : ι} {k : String} {r : Option CachedEntry}
    (hlog : log = u ++ (i, evLookup k r) :: w) {a : FoyerAnswer} (ha : c.threads i = .ret a) :
    (r = none ∧ a = .got none) ∨ ∃ value now, r = some value ∧ evNow now ∈ eventsOf i w ∧
      a = .got (if isExpired value now then none else some value) := by
  have hi : eventsOf i log = eventsOf i u ++ evLookup k r :: eventsOf i w := by
    rw [hlog, eventsOf_split]
  have hm : evLookup k r ∈ eventsOf i log := by
    rw [hi]
    exact List.mem_append_right _ List.mem_cons_self
  obtain ⟨k', hrun⟩ := getRun_of_exec h hm (fun _ _ he => by cases he)
  rw [ha] at hrun
  generalize eventsOf i log = es at hrun hi hm
  -- the lookup comes first, whatever follows
  have hfirst : ∀ {found : Option CachedEntry} {rest : List (Event FoyerSig)},
      evLookup k r ∉ rest → evLookup k' found :: rest = eventsOf i u ++ evLookup k r :: eventsOf i w →
        found = r ∧ rest = eventsOf i w := by
    intro found rest hrest heq
    cases hu : eventsOf i u with
    | nil =>
      rw [hu] at heq
      obtain ⟨hev, htail⟩ := List.cons.inj heq
      cases hev
      exact ⟨rfl, htail⟩
    | cons x xs =>
      rw [hu, List.cons_append] at heq
      obtain ⟨-, htail⟩ := List.cons.inj heq
      exact absurd (htail ▸ List.mem_append_right xs List.mem_cons_self) hrest
  cases hrun with
  | absent =>
    obtain ⟨rfl, -⟩ := hfirst List.not_mem_nil hi
    exact .inl ⟨rfl, rfl⟩
  | found value hp => exact absurd rfl (hp a)
  | @fresh value now he =>
    obtain ⟨rfl, hw⟩ := hfirst (fun hm => by cases List.mem_singleton.mp hm) hi
    refine .inr ⟨value, now, rfl, ?_, ?_⟩
    · rw [← hw]
      exact List.mem_singleton.mpr rfl
    · rw [he, if_neg Bool.false_ne_true]
  | expired he hp => exact absurd rfl (hp a)
  | @removed value now he =>
    obtain ⟨rfl, hw⟩ := hfirst (fun hm => by
      rcases List.mem_pair.mp hm with hev | hev <;> cases hev) hi
    refine .inr ⟨value, now, rfl, ?_, ?_⟩
    · rw [← hw]
      exact List.mem_cons_self
    · rw [he, if_pos rfl]

/-! ## what is stored -/

/-- a key that is absent stays so until it is inserted -/
theorem stays_absent {es : List (Event FoyerSig)} {m m' : Contents} {k : String}
    (h : History shared m es m') (hnone : m k = none) (hnew : ∀ e, evInsert k e ∉ es) :
    m' k = none := by
  refine (h.restrict (fun ev => ∀ e, ev ≠ evInsert k e) ?_).invariant (fun m => m k = none) ?_ hnone
  · intro ev hm e he
    exact hnew e (he ▸ hm)
  · intro n ev n' hstep hn
    obtain ⟨⟨now, hop⟩, hev⟩ := hstep
    obtain ⟨o, r⟩ := ev
    have hn' : (foyer now o n).2 = n' := congrArg Prod.snd hop
    rw [← hn']
    cases o with
    | lookup key => exact hn
    | now => exact hn
    | remove key =>
      by_cases hk : k = key
      · rw [hk]
        exact Function.update_self ..
      · exact (Function.update_of_ne hk ..).trans hn
    | insert key entry =>
      by_cases hk : k = key
      · rw [hk] at hev
        exact absurd rfl (hev entry)
      · exact (Function.update_of_ne hk ..).trans hn

/-- a `get` that has looked the key up after the insert found the entry, and leaves it -/
theorem not_removed (h : Exec shared (start config calls m) log c) {p i : ι} {k : String}
    {e : CachedEntry} {x y w : List (ι × Event FoyerSig)}
    (hlog : log = (x ++ (p, evInsert k e) :: y) ++ (i, evRemove k) :: w)
    (hcross : ∀ found, (i, evLookup k found) ∉ x)
    (hseen : ∀ i found, (i, evLookup k found) ∈ y → found = some e)
    (hfresh : ∀ i now, (i, evNow now) ∈ y → isExpired e now = false) : False := by
  obtain ⟨value, now, hu, hexp⟩ := before_remove h hlog
  rw [eventsOf_append] at hu
  cases hx : eventsOf i x with
  | cons ev evs =>
    rw [hx] at hu
    obtain ⟨rfl, -⟩ := List.cons.inj hu
    exact hcross _ (mem_eventsOf.mp (hx ▸ List.mem_cons_self))
  | nil =>
    rw [hx, List.nil_append] at hu
    have hafter : ∀ ev ∈ [evLookup k (some value), evNow now], (i, ev) ∈ y := by
      intro ev hm
      rw [← hu] at hm
      rcases List.mem_cons.mp (mem_eventsOf.mp hm) with heq | hm'
      · obtain ⟨-, rfl⟩ := Prod.mk.inj heq
        rw [hu] at hm
        rcases List.mem_pair.mp hm with hev | hev <;> cases hev
      · exact hm'
    have hvalue := hseen i (some value) (hafter _ List.mem_cons_self)
    cases hvalue
    have hfr := hfresh i now (hafter _ (List.mem_cons_of_mem _ List.mem_cons_self))
    rw [hexp] at hfr
    cases hfr

/-- **An entry stays until it is removed.**  After an insert, as long as nobody inserts under the
key and the entry is not expired at the clock readings made: what is stored under the key, and so
what is looked up, is the entry; unless a `get` removes it that had looked the key up before. -/
theorem kept (h : Exec shared (start config calls m) log c) {p : ι} {k : String} {e : CachedEntry}
    {x y w : List (ι × Event FoyerSig)} (hlog : log = (x ++ (p, evInsert k e) :: y) ++ w)
    (hnew : ∀ i e', (i, evInsert k e') ∉ y) (hfresh : ∀ i now, (i, evNow now) ∈ y → isExpired e now = false)
    (hcross : ∀ i found, (i, evLookup k found) ∈ x → (i, evRemove k) ∉ y) {n : Contents}
    (hn : History shared m ((x ++ (p, evInsert k e) :: y).map Prod.snd) n) :
    n k = some e ∧ ∀ i found, (i, evLookup k found) ∈ y → found = some e := by
  induction y using List.reverseRecOn generalizing w n with
  | nil =>
    rw [List.map_append, List.map_cons] at hn
    obtain ⟨n₀, -, hins⟩ := run_append.mp hn
    obtain ⟨now, hop⟩ := run_single.mp hins
    have hn' : Function.update n₀ k (some e) = n := congrArg Prod.snd hop
    rw [← hn']
    exact ⟨Function.update_self .., fun i found hm => absurd hm List.not_mem_nil⟩
  | append_singleton y ev ih =>
    rw [← List.cons_append, ← List.append_assoc, List.map_append] at hn
    obtain ⟨n₀, hn₀, hlast⟩ := run_append.mp hn
    obtain ⟨hk, hseen⟩ := ih (w := ev :: w)
      (by rw [hlog]; simp only [List.append_assoc, List.cons_append, List.nil_append])
      (fun i e' hm => hnew i e' (List.mem_append_left _ hm))
      (fun i now hm => hfresh i now (List.mem_append_left _ hm))
      (fun i found hm hr => hcross i found hm (List.mem_append_left _ hr)) hn₀
    obtain ⟨now, hop⟩ := run_single.mp hlast
    obtain ⟨i, o, r⟩ := ev
    have hret : (foyer now o n₀).1 = r := congrArg Prod.fst hop
    have hn' : (foyer now o n₀).2 = n := congrArg Prod.snd hop
    constructor
    · rw [← hn']
      cases o with
      | lookup key => exact hk
      | now => exact hk
      | remove key =>
        by_cases hkk : k = key
        · subst hkk
          have hsplit : log = (x ++ (p, evInsert k e) :: y) ++ (i, evRemove k) :: w := by
            rw [hlog]
            simp only [List.append_assoc, List.cons_append, List.nil_append]
            rfl
          have hbefore : ∀ found, (i, evLookup k found) ∉ x := fun found hm =>
            hcross i found hm (List.mem_append_right _ List.mem_cons_self)
          exact (not_removed h hsplit hbefore hseen fun j now hm =>
            hfresh j now (List.mem_append_left _ hm)).elim
        · exact (Function.update_of_ne hkk ..).trans hk
      | insert key entry =>
        by_cases hkk : k = key
        · subst hkk
          exact absurd (List.mem_append_right _ List.mem_cons_self) (hnew i entry)
        · exact (Function.update_of_ne hkk ..).trans hk
    · intro j found hm
      rcases List.mem_append.mp hm with hm | hm
      · exact hseen j found hm
      · cases List.mem_singleton.mp hm
        exact hret.symm.trans hk

/-- **When a `get` returns what was put.**  In any interleaving: `p` has inserted `e` under `k`;
after that `q` looks `k` up and returns `a`; in between nobody inserts under `k`; and `e` is not
expired at any clock reading from the insert to this lookup, nor at that of `q`.  Then `a` is `e`
exactly if no `get` that had looked `k` up before the insert removes it in between. -/
theorem put_survives_iff (h : Exec shared (start config calls m) log c) {p q : ι} {k : String}
    {e : CachedEntry} {r : Option CachedEntry} {x y z : List (ι × Event FoyerSig)}
    (hlog : log = (x ++ (p, evInsert k e) :: y) ++ (q, evLookup k r) :: z)
    (hnew : ∀ i e', (i, evInsert k e') ∉ y)
    (hfresh : ∀ i now, (i, evNow now) ∈ y → isExpired e now = false)
    (hread : ∀ now, (q, evNow now) ∈ z → isExpired e now = false) {a : FoyerAnswer}
    (ha : c.threads q = .ret a) :
    a = .got (some e) ↔ ∀ i found, (i, evLookup k found) ∈ x → (i, evRemove k) ∉ y := by
  have hhist := h.history
  rw [hlog, List.map_append] at hhist
  obtain ⟨n, hn, hrest⟩ := run_append.mp hhist
  obtain ⟨n', ⟨now, hop⟩, -⟩ := run_cons.mp hrest
  have hr : n k = r := congrArg Prod.fst hop
  constructor
  · intro hae i found hlook hrem
    obtain ⟨y₁, y₂, rfl⟩ := List.append_of_mem hrem
    -- from the remove on, the key is absent
    have hsplit : (x ++ (p, evInsert k e) :: (y₁ ++ (i, evRemove k) :: y₂)).map Prod.snd =
        (x ++ (p, evInsert k e) :: y₁).map Prod.snd ++ (evRemove k :: y₂.map Prod.snd) := by simp
    rw [hsplit] at hn
    obtain ⟨n₁, -, hafter⟩ := run_append.mp hn
    obtain ⟨n₂, ⟨now', hop'⟩, hy₂⟩ := run_cons.mp hafter
    have hn₂ : Function.update n₁ k none = n₂ := congrArg Prod.snd hop'
    have hnone : n k = none := by
      refine stays_absent hy₂ ?_ fun e' hm => ?_
      · rw [← hn₂]
        exact Function.update_self ..
      · obtain ⟨⟨j, ev⟩, hm', rfl⟩ := List.mem_map.mp hm
        exact hnew j e' (List.mem_append_right _ (List.mem_cons_of_mem _ hm'))
    rcases after_lookup h hlog ha with ⟨-, rfl⟩ | ⟨value, t, hv, -, -⟩
    · cases hae
    · rw [← hr, hnone] at hv
      cases hv
  · intro hcross
    obtain ⟨hk, -⟩ := kept h hlog hnew hfresh hcross hn
    rcases after_lookup h hlog ha with ⟨hnone, -⟩ | ⟨value, t, hv, ht, rfl⟩
    · rw [← hr, hk] at hnone
      cases hnone
    · rw [← hr, hk] at hv
      cases hv
      rw [hread t (mem_eventsOf.mp ht), if_neg Bool.false_ne_true]

end

/-! ## a put and three gets -/

def staleEntry : CachedEntry := ⟨.str "old", some 5, none, "k"⟩

def freshEntry : CachedEntry := ⟨.str "new", some 20, none, "k"⟩

/-- thread `0` has put an entry that is now expired, thread `2` puts a fresh one, the others read -/
def raceCalls (i : Fin 4) : FoyerCall :=
  if i = 0 then .put "k" staleEntry else if i = 2 then .put "k" freshEntry else .get "k"

/-- the turns of the threads, with all clock readings at `10` -/
def race (turns : List (Fin 4)) :
    List (Fin 4 × Event FoyerSig) × Pool FoyerSig (Fin 4) FoyerAnswer Contents :=
  schedule (foyer 10) turns (start ⟨1⟩ raceCalls init)

theorem exec_race (turns : List (Fin 4)) :
    Exec shared (start ⟨1⟩ raceCalls init) (race turns).1 (race turns).2 :=
  exec_schedule (foyer 10) (fun _ _ _ h => ⟨10, h⟩) turns _

/-- one after the other: the last `get` returns the fresh entry -/
theorem ordered_put_survives : ∃ a, (race [0, 1, 1, 1, 2, 3, 3]).2.threads 3 = .ret a ∧
    a = .got (some freshEntry) := by
  refine ⟨_, rfl, ?_⟩
  refine (put_survives_iff (exec_race [0, 1, 1, 1, 2, 3, 3]) (p := 2) (q := 3) (k := "k")
    (x := (race [0, 1, 1, 1]).1) (y := []) (z := [(3, evNow 10)]) rfl ?_ ?_ ?_ rfl).mpr ?_
  · exact fun _ _ hm => absurd hm List.not_mem_nil
  · exact fun _ _ hm => absurd hm List.not_mem_nil
  · intro now hm
    cases List.mem_singleton.mp hm
    rfl
  · exact fun _ _ _ hm => absurd hm List.not_mem_nil

/-- **A fresh entry is lost.**  Thread `1` finds the expired entry; before it removes the key,
thread `2` puts the fresh one; then the remove takes the fresh entry away, and thread `3` finds
nothing, though no clock reading is past the deadline. -/
theorem fresh_put_lost :
    ∃ c, Exec shared (start ⟨1⟩ raceCalls init)
      [(0, evInsert "k" staleEntry), (1, evLookup "k" (some staleEntry)), (1, evNow 10),
        (2, evInsert "k" freshEntry), (1, evRemove "k"), (3, evLookup "k" none)] c ∧
      c.threads 2 = .ret .done ∧ c.threads 3 = .ret (.got none) ∧
      isExpired freshEntry 10 = false :=
  ⟨_, exec_race [0, 1, 1, 2, 1, 3], rfl, rfl, rfl⟩

end FoyerCache

end Tokudo
