import Tokudo.Cache.Backend
import Tokudo.Store.Fifo
import Mathlib.Data.Finmap

/-!
# `InMemoryCache`: a map and a queue

`cache/memory.rs`.  `Inner` is what the lock guards.  The clock is read once by every operation, so
it is an argument; the lock is never poisoned, so nothing fails.

`InStep` connects `Inner` with the reference, a `Store.Fifo`: the queue is the list of the keys, and
the map looks up what the list looks up.  The two operations keep it (`get_inStep`, `put_inStep`).

`inMemoryCache_refines_fifo`: **from the empty cache, map and queue stay in step with the list, and
every `get` is answered as the list answers it.**
-/

namespace Tokudo
open Effect Store

/-! ## the cache -/

structure InMemoryCacheConfig where
  maxEntries : Option Nat
  defaultTtlSecs : Option Nat

instance : Inhabited InMemoryCacheConfig := ⟨{ maxEntries := some 1024, defaultTtlSecs := none }⟩

structure Inner where
  map : Finmap (fun _ : String => CachedEntry)
  order : List String

namespace InMemoryCache

/-- `with_config` -/
def init : Inner := ⟨∅, []⟩

/-- the default TTL, when the caller gives no deadline -/
def stamp (config : InMemoryCacheConfig) (now : Nat) (entry : CachedEntry) : CachedEntry :=
  match entry.expiresAtSecs, config.defaultTtlSecs with
  | none, some defaultTtl => { entry with expiresAtSecs := some (saturatingAdd now defaultTtl) }
  | _, _ => entry

theorem stamp_of_none {config : InMemoryCacheConfig} (h : config.defaultTtlSecs = none) (now : Nat)
    (entry : CachedEntry) : stamp config now entry = entry := by
  unfold stamp
  rw [h]
  split
  · cases ‹_ = some _›
  · rfl

def get (now : Nat) (key : String) (inner : Inner) : Option CachedEntry × Inner :=
  match inner.map.lookup key with
  | none => (none, inner)
  | some entry =>
    if isExpired entry now then
      (none, ⟨inner.map.erase key, inner.order.filter fun k => decide (k ≠ key)⟩)
    else (some entry, inner)

/-- the eviction loop: pops a key and removes it while the map is longer than the bound -/
def evict (max : Nat) (map : Finmap (fun _ : String => CachedEntry)) : List String → Inner
  | [] => ⟨map, []⟩
  | oldest :: order =>
    if max < map.keys.card then evict max (map.erase oldest) order else ⟨map, oldest :: order⟩

def evictOldest (maxEntries : Option Nat) (map : Finmap (fun _ : String => CachedEntry))
    (order : List String) : Inner :=
  match maxEntries with
  | none => ⟨map, order⟩
  | some max => evict max map order

def put (config : InMemoryCacheConfig) (now : Nat) (key : String) (entry : CachedEntry)
    (inner : Inner) : Inner :=
  let entry := stamp config now entry
  if config.maxEntries = some 0 then inner
  else
    let isNew := decide (key ∉ inner.map)
    let map := inner.map.insert key entry
    let order := if isNew then inner.order ++ [key] else inner.order
    evictOldest config.maxEntries map order

def handler (config : InMemoryCacheConfig) : Handler CacheSig Inner
  | .get now key, inner => get now key inner
  | .put now key entry, inner => ((), put config now key entry inner)

/-! ## the reference -/

/-- the reference list under the same operations; the deadline is stamped before `put` -/
def reference (config : InMemoryCacheConfig) :
    Handler CacheSig (Fifo String CachedEntry config.maxEntries)
  | .get now key, l => l.get (fun entry => isExpired entry now) key
  | .put now key entry, l => ((), l.put key (stamp config now entry))

/-- map and queue agree with the list -/
structure InStep {bound : Option Nat} (inner : Inner) (l : Fifo String CachedEntry bound) : Prop where
  order : inner.order = l.keys
  lookup : ∀ k, inner.map.lookup k = l.lookup k

variable {bound : Option Nat}

theorem init_inStep : InStep init (Fifo.empty bound) := by
  constructor
  · rfl
  · intro k
    exact Finmap.lookup_empty k

theorem InStep.mem {inner : Inner} {l : Fifo String CachedEntry bound} (h : InStep inner l)
    (k : String) : k ∈ inner.map ↔ k ∈ l.keys := by
  rw [← not_iff_not, ← Finmap.lookup_eq_none, h.lookup k, Fifo.lookup_eq_none]

theorem InStep.nodup {inner : Inner} {l : Fifo String CachedEntry bound} (h : InStep inner l) :
    inner.order.Nodup := by
  rw [h.order]
  exact l.nodup

theorem InStep.mem_order {inner : Inner} {l : Fifo String CachedEntry bound} (h : InStep inner l)
    (k : String) : k ∈ inner.order ↔ k ∈ inner.map := by
  rw [h.order, h.mem k]

theorem card_of_keys {map : Finmap (fun _ : String => CachedEntry)} {ks : List String}
    (hn : ks.Nodup) (h : ∀ k, k ∈ map ↔ k ∈ ks) : map.keys.card = ks.length := by
  have hk : map.keys = ks.toFinset := by
    ext k
    rw [Finmap.mem_keys, List.mem_toFinset, h k]
  rw [hk, List.toFinset_card_of_nodup hn]

theorem InStep.card_le {inner : Inner} {l : Fifo String CachedEntry bound} (h : InStep inner l)
    {m : Nat} (hm : bound = some m) : inner.map.keys.card ≤ m := by
  rw [card_of_keys l.nodup h.mem]
  show (l.entries.map Prod.fst).length ≤ m
  rw [List.length_map]
  exact l.short m hm

/-! ## the operations keep the step -/

theorem get_inStep {inner : Inner} {l : Fifo String CachedEntry bound} (h : InStep inner l)
    (now : Nat) (key : String) :
    (get now key inner).1 = (l.get (fun entry => isExpired entry now) key).1 ∧
      InStep (get now key inner).2 (l.get (fun entry => isExpired entry now) key).2 := by
  unfold get
  cases hk : l.lookup key with
  | none =>
    rw [h.lookup key, hk, Fifo.get_of_none hk]
    exact ⟨rfl, h⟩
  | some entry =>
    rw [h.lookup key, hk, Fifo.get_of_some hk]
    cases he : isExpired entry now with
    | false =>
      simp only [he, Bool.false_eq_true, if_false]
      exact ⟨trivial, h⟩
    | true =>
      simp only [he, if_true]
      refine ⟨trivial, ?_, fun k => ?_⟩
      · show inner.order.filter (fun k => decide (k ≠ key)) = (l.remove key).keys
        rw [h.order]
        exact List.filter_map
      · rw [Fifo.lookup_remove]
        by_cases hkk : k = key
        · rw [if_pos hkk, hkk, Finmap.lookup_erase]
        · rw [if_neg hkk, Finmap.lookup_erase_ne hkk, h.lookup k]

/-- **The eviction loop is `Store.trim`**: it pops the heads of the list down to the bound. -/
theorem evict_inStep (max : Nat) (entries : List (String × CachedEntry))
    (hn : (entries.map Prod.fst).Nodup) (map : Finmap (fun _ : String => CachedEntry))
    (hm : ∀ k, map.lookup k = entries.lookup k) :
    (evict max map (entries.map Prod.fst)).order = (Store.trim max entries).map Prod.fst ∧
      ∀ k, (evict max map (entries.map Prod.fst)).map.lookup k = (Store.trim max entries).lookup k := by
  induction entries generalizing map with
  | nil => exact ⟨rfl, hm⟩
  | cons p entries ih =>
    obtain ⟨oldest, entry⟩ := p
    have hmem : ∀ k, k ∈ map ↔ k ∈ ((oldest, entry) :: entries).map Prod.fst := by
      intro k
      rw [← not_iff_not, ← Finmap.lookup_eq_none, hm k, lookup_none_iff]
    have hcard := card_of_keys hn hmem
    rw [List.map_cons, evict, Store.trim, hcard, List.length_map]
    by_cases hmax : max < ((oldest, entry) :: entries).length
    · rw [if_pos hmax, if_pos hmax]
      rw [List.map_cons, List.nodup_cons] at hn
      refine ih hn.2 (map.erase oldest) fun k => ?_
      by_cases hk : k = oldest
      · rw [hk, Finmap.lookup_erase, eq_comm, lookup_none_iff]
        exact hn.1
      · rw [Finmap.lookup_erase_ne hk, hm k, List.lookup_cons, beq_eq_false_iff_ne.mpr hk]
    · rw [if_neg hmax, if_neg hmax]
      exact ⟨rfl, hm⟩

theorem evictOldest_of_inStep {map : Finmap (fun _ : String => CachedEntry)} {order : List String}
    {l : Fifo String CachedEntry bound} (h : InStep ⟨map, order⟩ l) :
    evictOldest bound map order = ⟨map, order⟩ := by
  cases bound with
  | none => rfl
  | some max =>
    have hcard : ¬ max < map.keys.card := Nat.not_lt.mpr (h.card_le rfl)
    cases order with
    | nil => rfl
    | cons oldest order =>
      show (if max < map.keys.card then _ else _) = _
      rw [if_neg hcard]

theorem append_inStep {inner : Inner} {l : Fifo String CachedEntry bound} (h : InStep inner l)
    {key : String} (entry : CachedEntry) (hk : key ∉ l.keys) :
    InStep (evictOldest bound (inner.map.insert key entry) (inner.order ++ [key]))
      (l.append key entry hk) := by
  have hnew : ∀ k, (inner.map.insert key entry).lookup k =
      (l.entries ++ [(key, entry)]).lookup k := by
    intro k
    rw [List.lookup_append]
    by_cases hkk : k = key
    · subst hkk
      have hn : l.entries.lookup k = none := lookup_none_iff.mpr hk
      rw [Finmap.lookup_insert, hn, List.lookup_cons_self]
      rfl
    · rw [Finmap.lookup_insert_of_ne _ hkk, h.lookup k, List.lookup_cons,
        beq_eq_false_iff_ne.mpr hkk]
      exact Option.or_none.symm
  have horder : inner.order ++ [key] = (l.entries ++ [(key, entry)]).map Prod.fst := by
    rw [List.map_append, h.order]
    rfl
  rw [horder]
  cases bound with
  | none => exact ⟨rfl, hnew⟩
  | some max =>
    obtain ⟨ho, hl⟩ := evict_inStep max _ (Fifo.nodup_snoc l.nodup hk) _ hnew
    exact ⟨ho, hl⟩

theorem overwrite_inStep {inner : Inner} {l : Fifo String CachedEntry bound} (h : InStep inner l)
    {key : String} (entry : CachedEntry) (hk : key ∈ l.keys) :
    InStep ⟨inner.map.insert key entry, inner.order⟩ (l.overwrite key entry) := by
  constructor
  · exact h.order.trans (replaceAt_keys key entry l.entries).symm
  · intro k
    rw [Fifo.lookup_overwrite hk]
    by_cases hkk : k = key
    · rw [if_pos hkk, hkk, Finmap.lookup_insert]
    · rw [if_neg hkk, Finmap.lookup_insert_of_ne _ hkk, h.lookup k]

theorem put_inStep {config : InMemoryCacheConfig} {inner : Inner}
    {l : Fifo String CachedEntry config.maxEntries} (h : InStep inner l) (now : Nat) (key : String)
    (entry : CachedEntry) :
    InStep (put config now key entry inner) (l.put key (stamp config now entry)) := by
  unfold put Fifo.put
  by_cases h0 : config.maxEntries = some 0
  · rw [if_pos h0, if_pos h0]
    exact h
  rw [if_neg h0, if_neg h0]
  by_cases hk : key ∈ l.keys
  · have hover := overwrite_inStep h (stamp config now entry) hk
    have hmem : decide (key ∉ inner.map) = false :=
      decide_eq_false (not_not_intro ((h.mem key).mpr hk))
    simp only [hmem, Bool.false_eq_true, if_false]
    rw [dif_pos hk, evictOldest_of_inStep hover]
    exact hover
  · have hmem : decide (key ∉ inner.map) = true := decide_eq_true fun hm => hk ((h.mem key).mp hm)
    simp only [hmem, if_true]
    rw [dif_neg hk]
    exact append_inStep h (stamp config now entry) hk

theorem handler_inStep (config : InMemoryCacheConfig) (o : CacheOp) (inner : Inner)
    (l : Fifo String CachedEntry config.maxEntries) (h : InStep inner l) :
    (handler config o inner).1 = (reference config o l).1 ∧
      InStep (handler config o inner).2 (reference config o l).2 := by
  cases o with
  | get now key => exact get_inStep h now key
  | put now key entry => exact ⟨rfl, put_inStep h now key entry⟩

/-- what is stored, whether expired or not -/
def contents (inner : Inner) (k : String) : Option CachedEntry := inner.map.lookup k

def Good (bound : Option Nat) (inner : Inner) : Prop :=
  ∃ l : Fifo String CachedEntry bound, InStep inner l

theorem init_good : Good bound init := ⟨_, init_inStep⟩

theorem contents_init (k : String) : contents init k = none := Finmap.lookup_empty k

theorem InStep.contents {inner : Inner} {l : Fifo String CachedEntry bound} (h : InStep inner l) :
    contents inner = l.lookup := funext h.lookup

/-- an expired entry counts as nothing -/
def fresh (now : Nat) : Option CachedEntry → Option CachedEntry
  | none => none
  | some entry => if isExpired entry now then none else some entry

theorem get_fresh (now : Nat) (key : String) (inner : Inner) :
    (get now key inner).1 = fresh now (contents inner key) := by
  unfold get fresh contents
  cases inner.map.lookup key with
  | none => rfl
  | some entry => cases he : isExpired entry now <;> simp only [he] <;> rfl

theorem contents_get (now : Nat) (key : String) (inner : Inner) :
    contents (get now key inner).2 =
      Function.update (contents inner) key (fresh now (contents inner key)) := by
  funext k
  by_cases hk : k = key
  · subst hk
    rw [Function.update_self]
    unfold get fresh contents
    cases hl : inner.map.lookup k with
    | none => exact hl
    | some entry =>
      cases he : isExpired entry now with
      | false =>
        simp only [he]
        exact hl
      | true =>
        simp only [he]
        exact Finmap.lookup_erase k _
  · rw [Function.update_of_ne hk]
    unfold get contents
    cases inner.map.lookup key with
    | none => rfl
    | some entry =>
      cases he : isExpired entry now with
      | false =>
        simp only [he]
        rfl
      | true =>
        simp only [he]
        exact Finmap.lookup_erase_ne hk

theorem contents_put {config : InMemoryCacheConfig} (h : config.maxEntries = none) (now : Nat)
    (key : String) (entry : CachedEntry) (inner : Inner) :
    contents (put config now key entry inner) =
      Function.update (contents inner) key (some (stamp config now entry)) := by
  unfold put
  simp only [h, reduceCtorEq, if_false, evictOldest]
  funext k
  by_cases hk : k = key
  · subst hk
    rw [Function.update_self]
    exact Finmap.lookup_insert _
  · rw [Function.update_of_ne hk]
    exact Finmap.lookup_insert_of_ne _ hk

theorem get_good {inner : Inner} (h : Good bound inner) (now : Nat) (key : String) :
    Good bound (get now key inner).2 := by
  obtain ⟨l, hl⟩ := h
  exact ⟨_, (get_inStep hl now key).2⟩

theorem put_good {config : InMemoryCacheConfig} {inner : Inner} (h : Good config.maxEntries inner)
    (now : Nat) (key : String) (entry : CachedEntry) :
    Good config.maxEntries (put config now key entry inner) := by
  obtain ⟨l, hl⟩ := h
  exact ⟨_, put_inStep hl now key entry⟩

theorem get_eq_some {inner : Inner} {now : Nat} {key : String} {entry : CachedEntry}
    (h : (get now key inner).1 = some entry) :
    contents inner key = some entry ∧ isExpired entry now = false := by
  unfold get at h
  exact found_of_answer h

theorem get_lossy {inner : Inner} (h : Good bound inner) (now : Nat) (key : String) :
    Lossy none (contents inner) (contents (get now key inner).2) := by
  obtain ⟨l, hl⟩ := h
  rw [hl.contents, (get_inStep hl now key).2.contents]
  exact Fifo.get_lossy _ key l

theorem put_lossy {config : InMemoryCacheConfig} {inner : Inner} (h : Good config.maxEntries inner)
    (now : Nat) (key : String) (entry : CachedEntry) :
    Lossy (some (key, stamp config now entry)) (contents inner)
      (contents (put config now key entry inner)) := by
  obtain ⟨l, hl⟩ := h
  rw [hl.contents, (put_inStep hl now key entry).contents]
  exact Fifo.put_lossy key _ l

/-- no deadlines are stored -/
def Undying (inner : Inner) : Prop :=
  ∀ k e, contents inner k = some e → e.expiresAtSecs = none

theorem init_undying : Undying init := fun k e h => by
  rw [contents_init] at h
  cases h

theorem get_of_undying {inner : Inner} (h : Undying inner) (now : Nat) (key : String) :
    get now key inner = (contents inner key, inner) := by
  unfold get contents
  cases hl : inner.map.lookup key with
  | none => rfl
  | some entry =>
    have he : isExpired entry now = false := by
      rw [isExpired, h key entry hl]
    simp only [he]
    rfl

def unbounded : InMemoryCacheConfig := ⟨none, none⟩

theorem put_undying {inner : Inner} (h : Undying inner) (now : Nat) (key : String)
    {entry : CachedEntry} (he : entry.expiresAtSecs = none) :
    Undying (put unbounded now key entry inner) := by
  intro k e hk
  rw [contents_put rfl, stamp_of_none rfl] at hk
  by_cases hkk : k = key
  · subst hkk
    rw [Function.update_self] at hk
    cases hk
    exact he
  · rw [Function.update_of_ne hkk] at hk
    exact h k e hk

end InMemoryCache

/-- the readings of the clock that a call makes: for its read, and for its write -/
structure Clock where
  get : Nat
  put : Nat

def InMemoryCache (config : InMemoryCacheConfig) (clock : Clock) : Cache Inner where
  get key inner :=
    let (found, inner) := InMemoryCache.get clock.get key inner
    (.ok found, inner)
  put key entry inner := (.ok (), InMemoryCache.put config clock.put key entry inner)

end Tokudo
