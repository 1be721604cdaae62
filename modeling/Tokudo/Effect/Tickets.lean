import Tokudo.Effect.Instrument
import Mathlib.Data.List.Sort
import Mathlib.Data.List.Perm.Subperm

/-!
# Tickets: what threads publish with numbers from one counter

`number item` is the ticket that an item carries.  A run is `Orderly` if every item carries the ticket
that was drawn last and that no other item carries.

* `taken_of_history`      the tickets drawn are consecutive;
* `numbers_nodup`         no two items have one number, whoever published them;
* `numbers_increase`      the items of one thread have increasing numbers;
* `number_lt_of_before`   an item that was published before a ticket was drawn has a smaller number;
* `numbers_gapless`       if every ticket drawn was used, the numbers are consecutive;
* `sorted_restores`       **who sorts the items by number gets those of each thread in the order in
                          which it published them.**
-/

namespace Effect

variable {S : Sig} {ι α σ P : Type}

/-! ## tickets and items of a run -/

def ticket? : Event (Ticketed S P) → Option Nat
  | ⟨.take, n⟩ => some n
  | _ => none

def item? : Event (Ticketed S P) → Option P
  | ⟨.publish item, _⟩ => some item
  | _ => none

/-- the tickets drawn, in order -/
def taken (es : List (Event (Ticketed S P))) : List Nat := es.filterMap ticket?

/-- the items published, in order -/
def published (es : List (Event (Ticketed S P))) : List P := es.filterMap item?

theorem taken_append (es fs : List (Event (Ticketed S P))) : taken (es ++ fs) = taken es ++ taken fs :=
  List.filterMap_append

theorem published_append (es fs : List (Event (Ticketed S P))) :
    published (es ++ fs) = published es ++ published fs := List.filterMap_append

/-- **The tickets drawn are consecutive**, unless the counter wraps around. -/
theorem taken_of_history {size : Nat} {O : Object S σ} {s t : σ × Nat}
    {es : List (Event (Ticketed S P))} (h : History (counting size O) s es t)
    (hsize : s.2 + (taken es).length ≤ size) : taken es = List.range' s.2 (taken es).length := by
  induction h with
  | nil s => rfl
  | @cons s t u e es he _ ih =>
    obtain ⟨o, r⟩ := e
    cases o with
    | base o =>
      have hcounter : t.2 = s.2 := he.2
      rw [hcounter] at ih
      exact ih hsize
    | now =>
      obtain rfl : t = s := he
      exact ih hsize
    | publish item =>
      obtain rfl : t = s := he
      exact ih hsize
    | take =>
      obtain ⟨rfl, rfl⟩ := he
      have hlen : (taken (⟨.take, s.2⟩ :: es : List (Event (Ticketed S P)))).length =
          (taken es).length + 1 := rfl
      rw [hlen] at hsize ⊢
      rw [List.range'_succ]
      show s.2 :: taken es = _
      congr 1
      by_cases hwrap : s.2 + 1 < size
      · rw [Nat.mod_eq_of_lt hwrap] at ih
        exact ih (by omega)
      · have hnone : (taken es).length = 0 := by omega
        rw [hnone, List.length_eq_zero_iff.mp hnone]
        rfl

/-! ## orderly runs -/

/-- `hand` is the ticket in hand: every item carries it, and no other item does -/
def Orderly (number : P → Nat) (hand : Option Nat) : List (Event (Ticketed S P)) → Prop
  | [] => True
  | ⟨.base _, _⟩ :: es => Orderly number hand es
  | ⟨.now, _⟩ :: es => Orderly number hand es
  | ⟨.take, n⟩ :: es => Orderly number (some n) es
  | ⟨.publish item, _⟩ :: es => hand = some (number item) ∧ Orderly number none es

section
variable {number : P → Nat} {es fs : List (Event (Ticketed S P))}

theorem Orderly.of_none (h : Orderly number none es) (hand : Option Nat) :
    Orderly number hand es := by
  induction es generalizing hand with
  | nil => exact True.intro
  | cons e es ih =>
    obtain ⟨o, r⟩ := e
    cases o with
    | base o => exact ih h hand
    | now => exact ih h hand
    | take => exact h
    | publish item => cases h.1

theorem Orderly.append {hand : Option Nat} (h : Orderly number hand es)
    (h' : Orderly number none fs) : Orderly number hand (es ++ fs) := by
  induction es generalizing hand with
  | nil => exact h'.of_none hand
  | cons e es ih =>
    obtain ⟨o, r⟩ := e
    cases o with
    | base o => exact ih h
    | now => exact ih h
    | take => exact ih h
    | publish item => exact ⟨h.1, ih h.2⟩

/-- **Items carry tickets that were drawn**, each at most one. -/
theorem Orderly.sublist {hand : Option Nat} (h : Orderly number hand es) :
    ((published es).map number).Sublist (hand.toList ++ taken es) := by
  induction es generalizing hand with
  | nil => exact List.nil_sublist _
  | cons e es ih =>
    obtain ⟨o, r⟩ := e
    cases o with
    | base o => exact ih h
    | now => exact ih h
    | take => exact (ih h).trans (List.sublist_append_right _ _)
    | publish item =>
      obtain ⟨rfl, h⟩ := h
      exact (ih h).cons_cons (number item)

/-- an item carries a ticket that was drawn before -/
theorem Orderly.drawn {hand : Option Nat} {item : P} {r : Unit}
    (h : Orderly number hand (es ++ ⟨.publish item, r⟩ :: fs)) :
    number item ∈ hand.toList ++ taken es := by
  induction es generalizing hand with
  | nil =>
    obtain ⟨rfl, -⟩ := h
    exact List.mem_cons_self
  | cons e es ih =>
    obtain ⟨o, r'⟩ := e
    cases o with
    | base o => exact ih h
    | now => exact ih h
    | take => exact List.mem_append_right _ (ih h)
    | publish item' => exact List.mem_append_right _ (ih h.2)

end

/-- the programs of the taps number what they publish -/
def NumberedTaps (number : P → Nat) (tap : Taps S P) : Prop :=
  ∀ o p, tap o = some p → ∀ es q, p.Steps es q → Orderly number none es

section
variable {tap : Taps S P} {number : P → Nat}

theorem orderly_of_carriesOut (htap : NumberedTaps number tap) {es₀ : List (Event S)}
    {es : List (Event (Ticketed S P))} (h : CarriesOut tap es₀ es) : Orderly number none es := by
  induction h with
  | nil => exact True.intro
  | cons he _ ih =>
    cases he with
    | base ho => exact ih
    | tapped ho hr => exact (htap _ _ ho _ _ hr.steps).append ih

/-- **Instrumented programs are orderly**, if their taps are. -/
theorem orderly_of_steps (htap : NumberedTaps number tap) {p : Prog S α}
    {es : List (Event (Ticketed S P))} {q : Prog (Ticketed S P) α}
    (h : (instrument tap p).Steps es q) : Orderly number none es := by
  obtain ⟨es₀, fs, gs, rfl, hc, hgs⟩ := steps_instrument h
  refine (orderly_of_carriesOut htap hc).append ?_
  rcases hgs with rfl | ⟨o, p, rest, ho, hs⟩
  · exact True.intro
  · exact htap o p ho gs rest hs

end

/-! ## logs -/

section
variable [DecidableEq ι]

/-- what the threads did, each with its name -/
def named {β : Type} (f : Event S → Option β) (log : List (ι × Event S)) : List (ι × β) :=
  log.filterMap fun x => (f x.2).map fun b => (x.1, b)

omit [DecidableEq ι] in
theorem map_snd_named {β : Type} (f : Event S → Option β) (log : List (ι × Event S)) :
    (named f log).map Prod.snd = (log.map Prod.snd).filterMap f := by
  unfold named
  rw [List.map_filterMap, List.filterMap_map]
  congr 1
  funext x
  cases hx : f x.2 <;> simp [hx]

theorem filter_named {β : Type} (f : Event S → Option β) (log : List (ι × Event S)) (i : ι) :
    ((named f log).filter fun x => x.1 = i).map Prod.snd = (eventsOf i log).filterMap f := by
  induction log with
  | nil => rfl
  | cons x log ih =>
    obtain ⟨j, e⟩ := x
    by_cases hj : j = i
    · subst hj
      rw [eventsOf_cons_self]
      cases he : f e with
      | none =>
        have hskip : named f ((j, e) :: log) = named f log := by simp [named, he]
        rw [hskip, List.filterMap_cons_none he, ih]
      | some b =>
        have hcons : named f ((j, e) :: log) = (j, b) :: named f log := by simp [named, he]
        rw [hcons, List.filterMap_cons_some he, List.filter_cons_of_pos (by simp), List.map_cons, ih]
    · rw [eventsOf_cons_ne hj, ← ih]
      cases he : f e with
      | none =>
        have hskip : named f ((j, e) :: log) = named f log := by simp [named, he]
        rw [hskip]
      | some b =>
        have hcons : named f ((j, e) :: log) = (j, b) :: named f log := by simp [named, he]
        rw [hcons, List.filter_cons_of_neg (by simpa using hj)]

/-- the count of a name's value is the count in what the thread of that name did -/
theorem count_of_filter {β : Type} [DecidableEq β] (l : List (ι × β)) (i : ι) (b : β) :
    l.count (i, b) = ((l.filter fun x => x.1 = i).map Prod.snd).count b := by
  induction l with
  | nil => rfl
  | cons x l ih =>
    obtain ⟨j, c⟩ := x
    by_cases hj : j = i
    · subst hj
      rw [List.filter_cons_of_pos (by simp), List.map_cons, List.count_cons, List.count_cons, ih]
      simp
    · rw [List.filter_cons_of_neg (by simpa using hj), ← ih, List.count_cons_of_ne]
      intro h
      exact hj (congrArg Prod.fst h)

/-- the items published, with the names of the threads -/
def receipts (log : List (ι × Event (Ticketed S P))) : List (ι × P) := named item? log

variable {log : List (ι × Event (Ticketed S P))} {number : P → Nat} {first count : Nat}

theorem items_receipts (i : ι) :
    ((receipts log).filter fun x => x.1 = i).map Prod.snd = published (eventsOf i log) :=
  filter_named item? log i

/-- the numbers of one thread, found among those of all -/
theorem numbers_of_thread (number : P → Nat) (log : List (ι × Event (Ticketed S P))) (i : ι) :
    (((receipts log).map fun x => (x.1, number x.2)).filter fun x => x.1 = i).map Prod.snd =
      (published (eventsOf i log)).map number := by
  rw [List.filter_map, List.map_map, ← items_receipts, List.map_map]
  rfl

/-- of every thread and number there are no more items than tickets -/
theorem numbers_subperm (horder : ∀ i, Orderly number none (eventsOf i log)) :
    ((receipts log).map fun x => (x.1, number x.2)).Subperm (named ticket? log) := by
  rw [List.subperm_ext_iff]
  rintro ⟨i, n⟩ -
  rw [count_of_filter, count_of_filter, numbers_of_thread, filter_named]
  exact ((horder i).sublist).count_le n

/-- **No two items have one number.** -/
theorem numbers_nodup (horder : ∀ i, Orderly number none (eventsOf i log))
    (hticks : taken (log.map Prod.snd) = List.range' first count) :
    ((receipts log).map fun x => number x.2).Nodup := by
  obtain ⟨l, hperm, hsub⟩ := numbers_subperm horder
  have hnodup : ((named ticket? log).map Prod.snd).Nodup := by
    rw [map_snd_named]
    show (taken (log.map Prod.snd)).Nodup
    rw [hticks]
    exact List.nodup_range'
  have hmap : ((receipts log).map fun x => number x.2) =
      ((receipts log).map fun x => (x.1, number x.2)).map Prod.snd := by
    rw [List.map_map]
    rfl
  rw [hmap]
  exact ((hperm.map Prod.snd).nodup_iff).mp (hnodup.sublist (hsub.map Prod.snd))

theorem eventsOf_sublist (i : ι) (log : List (ι × Event S)) :
    (eventsOf i log).Sublist (log.map Prod.snd) := by
  induction log with
  | nil => exact List.nil_sublist _
  | cons x log ih =>
    obtain ⟨j, e⟩ := x
    by_cases hj : j = i
    · subst hj
      rw [eventsOf_cons_self]
      exact ih.cons_cons e
    · rw [eventsOf_cons_ne hj]
      exact ih.cons e

/-- **The items of one thread have increasing numbers.** -/
theorem numbers_increase {i : ι} (horder : Orderly number none (eventsOf i log))
    (hticks : taken (log.map Prod.snd) = List.range' first count) :
    (published (eventsOf i log)).Pairwise fun a b => number a < number b := by
  have hincrease : (taken (eventsOf i log)).Pairwise (· < ·) := by
    refine List.Pairwise.sublist ((eventsOf_sublist i log).filterMap ticket?) ?_
    show (taken (log.map Prod.snd)).Pairwise (· < ·)
    rw [hticks]
    exact List.pairwise_lt_range'
  exact List.pairwise_map.mp (hincrease.sublist horder.sublist)

/-- **Who is first has the smaller number**: an item that was published before a ticket was drawn,
by whatever threads. -/
theorem number_lt_of_before (horder : ∀ i, Orderly number none (eventsOf i log))
    (hticks : taken (log.map Prod.snd) = List.range' first count)
    {x y : List (ι × Event (Ticketed S P))} {i : ι} {item : P} {r : Unit}
    (hlog : log = x ++ (i, ⟨.publish item, r⟩) :: y) {n : Nat} (hn : n ∈ taken (y.map Prod.snd)) :
    number item < n := by
  have hdrawn : number item ∈ taken (x.map Prod.snd) := by
    have hi := horder i
    rw [hlog, eventsOf_split] at hi
    have hmem : number item ∈ taken (eventsOf i x) := hi.drawn
    exact ((eventsOf_sublist i x).filterMap ticket?).subset hmem
  have hpair : (taken (x.map Prod.snd) ++ taken (y.map Prod.snd)).Pairwise (· < ·) := by
    have hsplit : taken (log.map Prod.snd) = taken (x.map Prod.snd) ++ taken (y.map Prod.snd) := by
      rw [hlog, List.map_append, taken_append]
      rfl
    rw [← hsplit, hticks]
    exact List.pairwise_lt_range'
  exact (List.pairwise_append.mp hpair).2.2 _ hdrawn _ hn

/-- **If every ticket drawn was used, the numbers are consecutive.** -/
theorem numbers_gapless
    (hused : ∀ i, (published (eventsOf i log)).map number = taken (eventsOf i log))
    (hticks : taken (log.map Prod.snd) = List.range' first count) :
    ((receipts log).map fun x => number x.2).Perm (List.range' first count) := by
  have hperm : ((receipts log).map fun x => (x.1, number x.2)).Perm (named ticket? log) := by
    rw [List.perm_iff_count]
    rintro ⟨i, n⟩
    rw [count_of_filter, count_of_filter, numbers_of_thread, filter_named, hused i]
    rfl
  have hmap := hperm.map Prod.snd
  rw [List.map_map, map_snd_named] at hmap
  rw [← hticks]
  exact hmap

/-- **Sorting restores every thread's order.**  The items arrive in any order; who sorts them by
number has those of each thread in the order in which it published them. -/
theorem sorted_restores (horder : ∀ i, Orderly number none (eventsOf i log))
    (hticks : taken (log.map Prod.snd) = List.range' first count) {arrived : List (ι × P)}
    (hall : arrived.Perm (receipts log))
    (hsorted : arrived.Pairwise fun a b => number a.2 ≤ number b.2) (i : ι) :
    (arrived.filter fun x => x.1 = i).map Prod.snd = published (eventsOf i log) := by
  have hperm : ((arrived.filter fun x => x.1 = i).map Prod.snd).Perm (published (eventsOf i log)) := by
    rw [← items_receipts]
    exact (hall.filter _).map _
  refine @List.Perm.eq_of_pairwise _ (fun a b => number a ≤ number b) _ _ ?_ ?_ ?_ hperm
  · intro a b ha hb hab hba
    have hinj := List.inj_on_of_nodup_map (numbers_nodup horder hticks)
    rw [← items_receipts] at hb
    obtain ⟨x, hx, rfl⟩ := List.mem_map.mp ha
    obtain ⟨y, hy, rfl⟩ := List.mem_map.mp hb
    exact congrArg Prod.snd (hinj (hall.subset (List.mem_of_mem_filter hx))
      (List.mem_of_mem_filter hy) (Nat.le_antisymm hab hba))
  · exact List.pairwise_map.mpr (hsorted.filter _)
  · exact (numbers_increase (horder i) hticks).imp fun h => Nat.le_of_lt h

end

end Effect
