import Tokudo.Cache.Memory

/-!
# Eviction and deadlines

`cache/memory.rs`.  The loop of `put` pops the oldest key, whatever its deadline, and it does not
look for expired entries first.

* `contents_put_of_room`      while there is room, `put` writes and removes nothing;
* `contents_put_of_full`      a new key in a full cache costs the oldest one;
* `put_spares_live_iff`       **when a `put` removes no live entry although the live ones would fit.**
-/

namespace Tokudo
open Effect Store

namespace InMemoryCache

/-! ## a `put` -/

/-- the map after the insertion, before the eviction loop -/
def inserted (config : InMemoryCacheConfig) (now : Nat) (key : String) (entry : CachedEntry)
    (inner : Inner) : Finmap (fun _ : String => CachedEntry) :=
  inner.map.insert key (stamp config now entry)

section
variable {config : InMemoryCacheConfig} {m : Nat} {inner : Inner} {key : String}

theorem lookup_inserted (now : Nat) (entry : CachedEntry) (k : String) :
    (inserted config now key entry inner).lookup k =
      if k = key then some (stamp config now entry) else contents inner k := by
  unfold inserted contents
  by_cases h : k = key
  · rw [if_pos h, h, Finmap.lookup_insert]
  · rw [if_neg h, Finmap.lookup_insert_of_ne _ h]

theorem Good.card_keys (h : Good (some m) inner) : inner.map.keys.card = inner.order.length := by
  obtain ⟨l, hl⟩ := h
  exact card_of_keys hl.nodup fun k => (hl.mem_order k).symm

theorem Good.card_le (h : Good (some m) inner) : inner.map.keys.card ≤ m := by
  obtain ⟨l, hl⟩ := h
  exact hl.card_le rfl

theorem contents_put_of_room (hm : config.maxEntries = some m) (hg : Good (some m) inner)
    (hroom : key ∈ inner.map ∧ 0 < m ∨ inner.map.keys.card < m) (now : Nat) (entry : CachedEntry)
    (k : String) :
    contents (put config now key entry inner) k = (inserted config now key entry inner).lookup k := by
  obtain ⟨maxEntries, ttl⟩ := config
  obtain rfl : maxEntries = some m := hm
  rw [hg.card_keys] at hroom
  obtain ⟨l, hl⟩ := hg
  rw [hl.mem key, hl.order] at hroom
  rw [(put_inStep hl now key entry).contents, Fifo.lookup_put_of_room hroom, lookup_inserted,
    hl.contents]

theorem contents_put_of_full (hm : config.maxEntries = some m) (hg : Good (some m) inner)
    (hnew : key ∉ inner.map) (hfull : inner.map.keys.card = m) {oldest : String} {rest : List String}
    (horder : inner.order = oldest :: rest) (now : Nat) (entry : CachedEntry) (k : String) :
    contents (put config now key entry inner) k =
      if k = oldest then none else (inserted config now key entry inner).lookup k := by
  obtain ⟨maxEntries, ttl⟩ := config
  obtain rfl : maxEntries = some m := hm
  rw [hg.card_keys] at hfull
  obtain ⟨l, hl⟩ := hg
  rw [hl.mem key] at hnew
  rw [hl.order] at hfull horder
  rw [(put_inStep hl now key entry).contents, Fifo.lookup_put_of_full hnew horder hfull,
    lookup_inserted, hl.contents]

end

/-! ## live entries -/

/-- the keys of the entries that are not expired -/
def live (now : Nat) (map : Finmap (fun _ : String => CachedEntry)) : Finset String :=
  map.keys.filter fun k => (map.lookup k).any fun entry => !isExpired entry now

theorem mem_live {now : Nat} {map : Finmap (fun _ : String => CachedEntry)} {k : String} :
    k ∈ live now map ↔ ∃ entry, map.lookup k = some entry ∧ isExpired entry now = false := by
  unfold live
  rw [Finset.mem_filter, Finmap.mem_keys, Option.any_eq_true]
  constructor
  · intro h
    obtain ⟨-, entry, hentry, hlive⟩ := h
    exact ⟨entry, hentry, by simpa using hlive⟩
  · intro h
    obtain ⟨entry, hentry, hlive⟩ := h
    exact ⟨Finmap.mem_of_lookup_eq_some hentry, entry, hentry, by rw [hlive]; rfl⟩

/-- if some entry is expired, there are fewer live ones than entries -/
theorem card_live_lt {now : Nat} {map : Finmap (fun _ : String => CachedEntry)} {k : String}
    {entry : CachedEntry} (hk : map.lookup k = some entry) (he : isExpired entry now = true) :
    (live now map).card < map.keys.card := by
  apply Finset.card_lt_card
  refine (Finset.filter_subset _ _).ssubset_of_mem_notMem
    (Finmap.mem_keys.mpr (Finmap.mem_of_lookup_eq_some hk)) fun hlive => ?_
  obtain ⟨entry', hentry', hfresh⟩ := mem_live.mp hlive
  rw [hk] at hentry'
  cases hentry'
  rw [he] at hfresh
  cases hfresh

theorem live_of_all {now : Nat} {map : Finmap (fun _ : String => CachedEntry)}
    (h : ∀ k entry, map.lookup k = some entry → isExpired entry now = false) :
    live now map = map.keys := by
  apply Finset.filter_true_of_mem
  intro k hk
  obtain ⟨entry, hentry⟩ := Finmap.mem_iff.mp (Finmap.mem_keys.mp hk)
  rw [hentry, Option.any_some, h k entry hentry]
  rfl

/-! ## what a `put` spares -/

/-- `put` removes no entry that is live after the insertion -/
def SparesLive (config : InMemoryCacheConfig) (now : Nat) (key : String) (entry : CachedEntry)
    (inner : Inner) : Prop :=
  ∀ k ∈ live now (inserted config now key entry inner),
    contents (put config now key entry inner) k = (inserted config now key entry inner).lookup k

/-- the loop of the `put` pops nothing, or an expired entry, or there is no expired entry to pop -/
def CanSpare (config : InMemoryCacheConfig) (m : Nat) (now : Nat) (key : String)
    (entry : CachedEntry) (inner : Inner) : Prop :=
  key ∈ inner.map ∨ inner.map.keys.card < m ∨
    (∃ oldest e, inner.order.head? = some oldest ∧ contents inner oldest = some e ∧
      isExpired e now = true) ∨
    ∀ k e, (inserted config now key entry inner).lookup k = some e → isExpired e now = false

section
variable {config : InMemoryCacheConfig} {m : Nat} {inner : Inner} {key : String}

theorem card_inserted (hg : Good (some m) inner) (hnew : key ∉ inner.map) (now : Nat)
    (entry : CachedEntry) :
    (inserted config now key entry inner).keys.card = inner.map.keys.card + 1 := by
  obtain ⟨l, hl⟩ := hg
  have hkey : key ∉ inner.order := fun h => hnew ((hl.mem_order key).mp h)
  have hmem : ∀ k, k ∈ inserted config now key entry inner ↔ k ∈ key :: inner.order := by
    intro k
    unfold inserted
    rw [Finmap.mem_insert, List.mem_cons, hl.mem_order k]
  rw [card_of_keys (List.nodup_cons.mpr ⟨hkey, hl.nodup⟩) hmem, List.length_cons,
    card_of_keys hl.nodup fun k => (hl.mem_order k).symm]

theorem sparesLive_of_canSpare (hm : config.maxEntries = some m) (hpos : 1 ≤ m)
    (hg : Good (some m) inner) {now : Nat} {entry : CachedEntry}
    (hcan : CanSpare config m now key entry inner)
    (hfits : (live now (inserted config now key entry inner)).card ≤ m) :
    SparesLive config now key entry inner := by
  intro k hk
  by_cases hroom : key ∈ inner.map ∧ 0 < m ∨ inner.map.keys.card < m
  · exact contents_put_of_room hm hg hroom now entry k
  have hnew : key ∉ inner.map := fun h => hroom (.inl ⟨h, hpos⟩)
  have hfull : inner.map.keys.card = m :=
    Nat.le_antisymm hg.card_le (Nat.le_of_not_lt fun h => hroom (.inr h))
  rcases hcan with hkey | hless | ⟨oldest, e, hhead, hoccurs, hexpired⟩ | hlive
  · exact absurd hkey hnew
  · omega
  · obtain ⟨rest, horder⟩ := List.head?_eq_some_iff.mp hhead
    have hne : k ≠ oldest := by
      intro hkk
      obtain ⟨e', he', hfresh⟩ := mem_live.mp hk
      have hkey : oldest ≠ key := by
        intro h
        exact hnew (h ▸ Finmap.mem_of_lookup_eq_some hoccurs)
      rw [hkk, lookup_inserted, if_neg hkey, hoccurs] at he'
      cases he'
      rw [hexpired] at hfresh
      cases hfresh
    rw [contents_put_of_full hm hg hnew hfull horder, if_neg hne]
  · -- more live entries than the bound
    rw [live_of_all hlive, card_inserted hg hnew] at hfits
    omega

theorem canSpare_of_sparesLive (hm : config.maxEntries = some m) (hpos : 1 ≤ m)
    (hg : Good (some m) inner) {now : Nat} {entry : CachedEntry}
    (hspares : (live now (inserted config now key entry inner)).card ≤ m →
      SparesLive config now key entry inner) :
    CanSpare config m now key entry inner := by
  by_cases hkey : key ∈ inner.map
  · exact .inl hkey
  by_cases hless : inner.map.keys.card < m
  · exact .inr (.inl hless)
  have hfull : inner.map.keys.card = m := Nat.le_antisymm hg.card_le (Nat.le_of_not_lt hless)
  by_cases hlive : ∀ k e, (inserted config now key entry inner).lookup k = some e →
      isExpired e now = false
  · exact .inr (.inr (.inr hlive))
  -- some entry is expired, so the live ones fit; if the oldest is not, `put` pops a live entry
  obtain ⟨k, hk⟩ := not_forall.mp hlive
  obtain ⟨e, he⟩ := not_forall.mp hk
  obtain ⟨hlookup, hexp⟩ := Classical.not_imp.mp he
  have hfits : (live now (inserted config now key entry inner)).card ≤ m := by
    have hlt := card_live_lt hlookup (Bool.eq_true_of_not_eq_false hexp)
    rw [card_inserted hg hkey] at hlt
    omega
  have horder := hg.card_keys
  cases hqueue : inner.order with
  | nil =>
    rw [hqueue, List.length_nil] at horder
    omega
  | cons oldest rest =>
    obtain ⟨l, hl⟩ := id hg
    have hmem : oldest ∈ inner.map := (hl.mem_order oldest).mp (by rw [hqueue]; exact List.mem_cons_self)
    obtain ⟨first, hfirst⟩ := Finmap.mem_iff.mp hmem
    have hne : oldest ≠ key := fun h => hkey (h ▸ hmem)
    refine .inr (.inr (.inl ⟨oldest, first, by rw [hqueue]; rfl, hfirst, ?_⟩))
    by_contra hfresh
    have hin : (inserted config now key entry inner).lookup oldest = some first := by
      rw [lookup_inserted, if_neg hne]
      exact hfirst
    have hgone := hspares hfits oldest
      (mem_live.mpr ⟨first, hin, Bool.eq_false_of_not_eq_true hfresh⟩)
    rw [contents_put_of_full hm hg hkey hfull hqueue, if_pos rfl, hin] at hgone
    cases hgone

end

theorem replay_good (config : InMemoryCacheConfig) (ops : List CacheOp) :
    Good config.maxEntries (replay (handler config) ops init).2 := by
  obtain ⟨-, hstep⟩ := replay_sim (handler config) (reference config) InStep
    (handler_inStep config) ops init (Fifo.empty config.maxEntries) init_inStep
  exact ⟨_, hstep⟩

/-- **When a `put` spares the live entries.**  After any operations from the empty cache: if the
live entries would fit, a `put` removes none of them, exactly if its key is stored already, the
cache is not full, its oldest entry is expired, or no entry is. -/
theorem put_spares_live_iff (config : InMemoryCacheConfig) (m : Nat)
    (hm : config.maxEntries = some m) (hpos : 1 ≤ m) (ops : List CacheOp) (now : Nat) (key : String)
    (entry : CachedEntry) :
    let inner := (replay (handler config) ops init).2
    ((live now (inserted config now key entry inner)).card ≤ m →
      SparesLive config now key entry inner) ↔ CanSpare config m now key entry inner := by
  intro inner
  have hg : Good (some m) inner := hm ▸ replay_good config ops
  constructor
  · exact canSpare_of_sparesLive hm hpos hg
  · exact sparesLive_of_canSpare hm hpos hg

/-! ### two entries -/

def twoEntries : InMemoryCacheConfig := ⟨some 2, none⟩

def lastingEntry : CachedEntry := ⟨.str "lasting", none, none, "a"⟩

def briefEntry : CachedEntry := ⟨.str "brief", some 5, none, "b"⟩

theorem second_put_spares :
    let inner := (replay (handler twoEntries) [.put 0 "a" lastingEntry] init).2
    (live 0 (inserted twoEntries 0 "b" briefEntry inner)).card ≤ 2 ∧
      SparesLive twoEntries 0 "b" briefEntry inner := by
  intro inner
  have hfits : (live 0 (inserted twoEntries 0 "b" briefEntry inner)).card ≤ 2 := by decide
  have hroom : inner.map.keys.card < 2 := by decide
  refine ⟨hfits, ?_⟩
  exact (put_spares_live_iff twoEntries 2 rfl (by decide) [.put 0 "a" lastingEntry] 0 "b"
    briefEntry).mpr (.inr (.inl hroom)) hfits

/-- **A live entry is evicted while an expired one stays**: at the time `10` two of the three entries
are live, and the third `put` removes the first. -/
theorem live_entry_evicted :
    let inner := (replay (handler twoEntries)
      [.put 0 "a" lastingEntry, .put 0 "b" briefEntry] init).2
    (live 10 (inserted twoEntries 10 "c" lastingEntry inner)).card ≤ 2 ∧
      ¬ SparesLive twoEntries 10 "c" lastingEntry inner := by
  intro inner
  have hfits : (live 10 (inserted twoEntries 10 "c" lastingEntry inner)).card ≤ 2 := by decide
  have hlive : "a" ∈ live 10 (inserted twoEntries 10 "c" lastingEntry inner) := by decide
  have hgone : contents (put twoEntries 10 "c" lastingEntry inner) "a" = none := by rfl
  refine ⟨hfits, fun hspares => ?_⟩
  have hkept := hspares "a" hlive
  obtain ⟨e, he, -⟩ := mem_live.mp hlive
  rw [hgone, he] at hkept
  cases hkept

end InMemoryCache

end Tokudo
