import Tokudo.Cache.Eviction

/-!
# Reads and what the cache keeps

`cache/memory.rs`.  A read that finds a live entry, or none, changes nothing.  A read that finds an
expired entry takes it out of the map and out of the queue (`reap`), so a later `put` of that key
goes to the end of the queue, and the map is one entry shorter until then.

`get_removable`: **deleting a read from a history changes no other answer, unless the read finds an
expired entry and, without the read, a later `put` evicts another entry while that one is stored.**
The two runs are compared step by step: as long as the expired entry is there, the run with the
read is the other one after `reap` (`Reaped`); once the key is written again, they differ in its
place in the queue only (`Requeued`); and when the key is gone from both, they are the same.
-/

namespace Tokudo
open Effect Store

def CacheOp.now : CacheOp → Nat
  | .get now _ => now
  | .put now _ _ => now

namespace InMemoryCache

/-! ## the operations, by what they find -/

/-- what the branch of an expired entry leaves -/
def reap (key : String) (inner : Inner) : Inner :=
  ⟨inner.map.erase key, inner.order.filter fun k => decide (k ≠ key)⟩

/-- a read at `now` finds an expired entry -/
def Reaps (now : Nat) (key : String) (inner : Inner) : Prop :=
  ∃ entry, contents inner key = some entry ∧ isExpired entry now = true

/-- what a `put` leaves before the eviction loop -/
def written (config : InMemoryCacheConfig) (now : Nat) (key : String) (entry : CachedEntry)
    (inner : Inner) : Inner :=
  ⟨inserted config now key entry inner,
    if key ∈ inner.map then inner.order else inner.order ++ [key]⟩

/-- a `put` of `key` pops the head of the queue -/
def Evicts (config : InMemoryCacheConfig) (key : String) (inner : Inner) : Prop :=
  key ∉ inner.map ∧ ∃ m, config.maxEntries = some m ∧ 0 < m ∧ m ≤ inner.map.keys.card

theorem get_of_reaps {now : Nat} {key : String} {inner : Inner} (h : Reaps now key inner) :
    get now key inner = (none, reap key inner) := by
  obtain ⟨entry, hentry, hexpired⟩ := h
  unfold get
  rw [show inner.map.lookup key = some entry from hentry]
  simp only [hexpired, if_true]
  rfl

theorem get_of_not_reaps {now : Nat} {key : String} {inner : Inner} (h : ¬ Reaps now key inner) :
    get now key inner = (contents inner key, inner) := by
  unfold get contents
  cases hl : inner.map.lookup key with
  | none => rfl
  | some entry =>
    have hfresh : isExpired entry now = false :=
      Bool.eq_false_of_not_eq_true fun he => h ⟨entry, hl, he⟩
    simp only [hfresh, Bool.false_eq_true, if_false]

theorem Reaps.mem {now : Nat} {key : String} {inner : Inner} (h : Reaps now key inner) :
    key ∈ inner.map := by
  obtain ⟨entry, hentry, -⟩ := h
  exact Finmap.mem_of_lookup_eq_some hentry

theorem reaps_congr {now : Nat} {key : String} {inner inner' : Inner}
    (h : contents inner key = contents inner' key) : Reaps now key inner ↔ Reaps now key inner' := by
  unfold Reaps
  rw [h]

/-- an expired entry stays expired -/
theorem Reaps.later {now later : Nat} {key : String} {inner : Inner} (h : Reaps now key inner)
    (hle : now ≤ later) : Reaps later key inner := by
  obtain ⟨entry, hentry, hexpired⟩ := h
  refine ⟨entry, hentry, ?_⟩
  unfold isExpired at hexpired ⊢
  cases hd : entry.expiresAtSecs with
  | none =>
    rw [hd] at hexpired
    cases hexpired
  | some deadline =>
    rw [hd] at hexpired
    exact decide_eq_true (le_trans (of_decide_eq_true hexpired) hle)

section
variable {config : InMemoryCacheConfig} {now : Nat} {key : String} {entry : CachedEntry}
  {inner : Inner}

theorem put_eq_evictOldest (h0 : config.maxEntries ≠ some 0) :
    put config now key entry inner =
      evictOldest config.maxEntries (written config now key entry inner).map
        (written config now key entry inner).order := by
  unfold put written inserted
  rw [if_neg h0]
  by_cases hk : key ∈ inner.map
  · simp only [hk, not_true, decide_false, Bool.false_eq_true, if_false, if_true]
  · simp only [hk, not_false_iff, decide_true, if_true, if_false]

theorem evict_of_le {max : Nat} {map : Finmap (fun _ : String => CachedEntry)} {order : List String}
    (h : map.keys.card ≤ max) : evict max map order = ⟨map, order⟩ := by
  cases order with
  | nil => rfl
  | cons oldest order => exact if_neg (Nat.not_lt.mpr h)

theorem card_inserted_of_mem (hk : key ∈ inner.map) :
    (inserted config now key entry inner).keys.card = inner.map.keys.card := by
  congr 1
  ext k
  rw [Finmap.mem_keys, Finmap.mem_keys, inserted, Finmap.mem_insert]
  constructor
  · rintro (rfl | hm)
    · exact hk
    · exact hm
  · exact Or.inr

/-- a `put` that evicts nothing only writes -/
theorem put_of_not_evicts (hg : Good config.maxEntries inner) (h0 : config.maxEntries ≠ some 0)
    (hev : ¬ Evicts config key inner) :
    put config now key entry inner = written config now key entry inner := by
  rw [put_eq_evictOldest h0]
  cases hm : config.maxEntries with
  | none => rfl
  | some m =>
    rw [hm] at hg h0
    have hpos : 0 < m := Nat.pos_of_ne_zero fun h => h0 (congrArg some h)
    apply evict_of_le
    show (inserted config now key entry inner).keys.card ≤ m
    by_cases hk : key ∈ inner.map
    · rw [card_inserted_of_mem hk]
      exact hg.card_le
    · rw [card_inserted hg hk]
      exact Nat.lt_of_not_le fun h => hev ⟨hk, m, hm, hpos, h⟩

/-- a `put` that evicts pops the head of the queue and no more -/
theorem put_of_evicts (hg : Good config.maxEntries inner) (hev : Evicts config key inner)
    {oldest : String} {rest : List String} (horder : inner.order = oldest :: rest) :
    put config now key entry inner =
      ⟨(inserted config now key entry inner).erase oldest, rest ++ [key]⟩ := by
  obtain ⟨hk, m, hm, hpos, hfull⟩ := hev
  have h0 : config.maxEntries ≠ some 0 := by
    intro h
    rw [hm] at h
    exact Nat.ne_of_gt hpos (Option.some.inj h)
  rw [hm] at hg
  have hcard : (inserted config now key entry inner).keys.card = m + 1 := by
    rw [card_inserted hg hk, Nat.le_antisymm hg.card_le hfull]
  have hmem : oldest ∈ inserted config now key entry inner := by
    obtain ⟨l, hl⟩ := hg
    unfold inserted
    rw [Finmap.mem_insert]
    exact .inr ((hl.mem_order oldest).mp (by rw [horder]; exact List.mem_cons_self))
  have herase : ((inserted config now key entry inner).erase oldest).keys.card ≤ m := by
    rw [Finmap.keys_erase, Finset.card_erase_of_mem (Finmap.mem_keys.mpr hmem), hcard]
    exact Nat.le_refl m
  rw [put_eq_evictOldest h0, hm]
  show evict m (inserted config now key entry inner)
    (if key ∈ inner.map then inner.order else inner.order ++ [key]) = _
  rw [if_neg hk, horder, List.cons_append, evict, if_pos (by rw [hcard]; exact Nat.lt_succ_self m)]
  exact evict_of_le herase

end

/-! ## one run is the other after `reap` -/

section
variable {config : InMemoryCacheConfig} {now : Nat} {key k : String} {entry : CachedEntry}
  {inner : Inner}

theorem contents_reap_ne (hne : k ≠ key) : contents (reap key inner) k = contents inner k :=
  Finmap.lookup_erase_ne hne

theorem contents_reap_self : contents (reap key inner) key = none := Finmap.lookup_erase key _

theorem mem_reap (hne : k ≠ key) : k ∈ (reap key inner).map ↔ k ∈ inner.map := by
  show k ∈ inner.map.erase key ↔ _
  rw [Finmap.mem_erase, and_iff_right hne]

theorem reap_comm : reap k (reap key inner) = reap key (reap k inner) := by
  show Inner.mk _ _ = Inner.mk _ _
  rw [show (reap key inner).map = inner.map.erase key from rfl,
    show (reap k inner).map = inner.map.erase k from rfl, Finmap.erase_erase]
  congr 1
  exact List.filter_comm _ _ _

theorem reap_good {bound : Option Nat} (hg : Good bound inner) (hr : Reaps now key inner) :
    Good bound (reap key inner) := by
  have h := get_good hg now key
  rw [get_of_reaps hr] at h
  exact h

theorem card_reap (hk : key ∈ inner.map) :
    (reap key inner).map.keys.card + 1 = inner.map.keys.card := by
  show (inner.map.erase key).keys.card + 1 = _
  rw [Finmap.keys_erase]
  exact Finset.card_erase_add_one (Finmap.mem_keys.mpr hk)

/-- there is room where an entry was taken out -/
theorem not_evicts_reap (hg : Good config.maxEntries inner) (hk : key ∈ inner.map) :
    ¬ Evicts config k (reap key inner) := by
  rintro ⟨-, m, hm, -, hfull⟩
  rw [hm] at hg
  have hle := hg.card_le
  have hcard := card_reap hk
  omega

theorem written_reap (hne : k ≠ key) :
    written config now k entry (reap key inner) = reap key (written config now k entry inner) := by
  unfold written
  show Inner.mk _ _ = Inner.mk _ _
  congr 1
  · apply Finmap.ext_lookup
    intro j
    rw [lookup_inserted]
    show _ = (Finmap.erase key (inserted config now k entry inner)).lookup j
    by_cases hj : j = key
    · rw [hj, Finmap.lookup_erase, if_neg (Ne.symm hne)]
      exact contents_reap_self
    · rw [Finmap.lookup_erase_ne hj, lookup_inserted, contents_reap_ne hj]
  · show (if k ∈ (reap key inner).map then _ else _) = List.filter _ (if k ∈ inner.map then _ else _)
    simp only [mem_reap hne]
    split
    · rfl
    · rw [List.filter_append]
      congr 1
      simp [hne]

theorem not_zero_of_mem (hg : Good config.maxEntries inner) (hk : key ∈ inner.map) :
    config.maxEntries ≠ some 0 := by
  intro h0
  rw [h0] at hg
  have hle := hg.card_le
  have hpos := Finset.card_pos.mpr ⟨key, Finmap.mem_keys.mpr hk⟩
  omega

theorem contents_written (hne : k ≠ key) :
    contents (written config now k entry inner) key = contents inner key := by
  show (inserted config now k entry inner).lookup key = _
  rw [lookup_inserted, if_neg (Ne.symm hne)]

/-- `s` is `s'` after `reap`: the run of `s` has read `key`, which is expired -/
structure Reaped (bound : Option Nat) (now : Nat) (key : String) (s s' : Inner) : Prop where
  eq : s = reap key s'
  reaps : Reaps now key s'
  good : Good bound s'

/-- `s` and `s'` differ in the place of `key` in the queue -/
structure Requeued (bound : Option Nat) (key : String) (s s' : Inner) : Prop where
  map : s.map = s'.map
  order : (s.order.filter fun k => decide (k ≠ key)) = s'.order.filter fun k => decide (k ≠ key)
  mem : key ∈ s'.map
  good : Good bound s
  good' : Good bound s'

variable {s s' : Inner} {bound : Option Nat} {later : Nat}

theorem Reaped.get (h : Reaped bound now key s s') (hle : now ≤ later) (k : String) :
    (get later k s).1 = (get later k s').1 ∧
      ((get later k s).2 = (get later k s').2 ∨
        Reaped bound now key (get later k s).2 (get later k s').2) := by
  obtain ⟨rfl, hreaps, hg⟩ := h
  by_cases hk : k = key
  · subst hk
    have hgone : ¬ Reaps later k (reap k s') := by
      rintro ⟨e, he, -⟩
      rw [contents_reap_self] at he
      cases he
    rw [get_of_reaps (hreaps.later hle), get_of_not_reaps hgone]
    exact ⟨contents_reap_self, .inl rfl⟩
  · have hsame : Reaps later k (reap key s') ↔ Reaps later k s' :=
      reaps_congr (contents_reap_ne hk)
    by_cases hr : Reaps later k s'
    · rw [get_of_reaps hr, get_of_reaps (hsame.mpr hr)]
      refine ⟨rfl, .inr ⟨reap_comm, ?_, reap_good hg hr⟩⟩
      exact (reaps_congr (contents_reap_ne (Ne.symm hk))).mpr hreaps
    · rw [get_of_not_reaps hr, get_of_not_reaps fun h => hr (hsame.mp h)]
      exact ⟨contents_reap_ne hk, .inr ⟨rfl, hreaps, hg⟩⟩

/-- a `put` of another key, which may evict the expired entry -/
theorem Reaped.put_other (h : Reaped config.maxEntries now key s s') (hne : k ≠ key)
    (hpops : Evicts config k s' → s'.order.head? = some key) (later : Nat) (entry : CachedEntry) :
    put config later k entry s = put config later k entry s' ∨
      Reaped config.maxEntries now key (put config later k entry s) (put config later k entry s') := by
  obtain ⟨rfl, hreaps, hg⟩ := h
  have h0 := not_zero_of_mem hg hreaps.mem
  rw [put_of_not_evicts (reap_good hg hreaps) h0 (not_evicts_reap hg hreaps.mem), written_reap hne]
  by_cases hev : Evicts config k s'
  · left
    obtain ⟨rest, horder⟩ := List.head?_eq_some_iff.mp (hpops hev)
    have hrest : key ∉ rest := by
      obtain ⟨l, hl⟩ := id hg
      have hn := hl.nodup
      rw [horder] at hn
      exact (List.nodup_cons.mp hn).1
    rw [put_of_evicts hg hev horder]
    show Inner.mk _ (List.filter _ (if k ∈ s'.map then _ else _)) = _
    rw [if_neg hev.1, horder]
    congr 1
    have hkeep : (rest ++ [k]).filter (fun j => decide (j ≠ key)) = rest ++ [k] := by
      apply List.filter_eq_self.mpr
      intro j hj
      rcases List.mem_append.mp hj with hj | hj
      · exact decide_eq_true fun h => hrest (h ▸ hj)
      · exact decide_eq_true (List.mem_singleton.mp hj ▸ hne)
    rw [List.cons_append, List.filter_cons_of_neg (by simp), hkeep]
  · right
    have hput : put config later k entry s' = written config later k entry s' :=
      put_of_not_evicts hg h0 hev
    have hgood := put_good hg later k entry
    rw [hput] at hgood ⊢
    exact ⟨rfl, (reaps_congr (contents_written hne)).mpr hreaps, hgood⟩

/-- a `put` of the key itself: where the entry was reaped, the key goes to the end of the queue -/
theorem Reaped.put_key (h : Reaped config.maxEntries now key s s') (later : Nat)
    (entry : CachedEntry) :
    Requeued config.maxEntries key (put config later key entry s)
      (put config later key entry s') := by
  obtain ⟨rfl, hreaps, hg⟩ := h
  have h0 := not_zero_of_mem hg hreaps.mem
  have hgood := put_good (reap_good hg hreaps) later key entry
  have hgood' := put_good hg later key entry
  have hgone : key ∉ (reap key s').map := fun h => (Finmap.mem_erase.mp h).1 rfl
  rw [put_of_not_evicts (reap_good hg hreaps) h0 (not_evicts_reap hg hreaps.mem)] at hgood ⊢
  rw [put_of_not_evicts hg h0 fun hev => hev.1 hreaps.mem] at hgood' ⊢
  refine ⟨?_, ?_, Finmap.mem_insert.mpr (.inl rfl), hgood, hgood'⟩
  · apply Finmap.ext_lookup
    intro j
    show (inserted config later key entry (reap key s')).lookup j =
      (inserted config later key entry s').lookup j
    rw [lookup_inserted, lookup_inserted]
    by_cases hj : j = key
    · rw [if_pos hj, if_pos hj]
    · rw [if_neg hj, if_neg hj, contents_reap_ne hj]
  · show List.filter _ (if key ∈ (reap key s').map then _ else _) =
      List.filter _ (if key ∈ s'.map then _ else _)
    rw [if_neg hgone, if_pos hreaps.mem, List.filter_append]
    show List.filter _ (List.filter _ s'.order) ++ _ = _
    rw [List.filter_filter]
    simp

theorem Requeued.get (h : Requeued bound key s s') (later : Nat) (k : String) :
    (get later k s).1 = (get later k s').1 ∧
      ((get later k s).2 = (get later k s').2 ∨
        Requeued bound key (get later k s).2 (get later k s').2) := by
  obtain ⟨hmap, horder, hmem, hg, hg'⟩ := h
  have hcontents : ∀ j, contents s j = contents s' j := fun j => congrArg (Finmap.lookup j) hmap
  by_cases hr : Reaps later k s'
  · have hr' := (reaps_congr (hcontents k)).mpr hr
    rw [get_of_reaps hr, get_of_reaps hr']
    refine ⟨rfl, ?_⟩
    have herase : (reap k s).map = (reap k s').map := congrArg (Finmap.erase k) hmap
    by_cases hk : k = key
    · left
      subst hk
      show Inner.mk _ _ = Inner.mk _ _
      rw [hmap, horder]
    · right
      refine ⟨herase, ?_, (mem_reap (Ne.symm hk)).mpr hmem, reap_good hg hr', reap_good hg' hr⟩
      show List.filter _ (List.filter _ s.order) = List.filter _ (List.filter _ s'.order)
      rw [List.filter_comm, horder, List.filter_comm]
  · rw [get_of_not_reaps hr, get_of_not_reaps fun h => hr ((reaps_congr (hcontents k)).mp h)]
    exact ⟨hcontents k, .inr ⟨hmap, horder, hmem, hg, hg'⟩⟩

theorem Requeued.put (h : Requeued config.maxEntries key s s') (hev : ¬ Evicts config k s')
    (later : Nat) (entry : CachedEntry) :
    Requeued config.maxEntries key (put config later k entry s) (put config later k entry s') := by
  obtain ⟨hmap, horder, hmem, hg, hg'⟩ := h
  have h0 := not_zero_of_mem hg' hmem
  have hev' : ¬ Evicts config k s := by
    unfold Evicts
    rw [hmap]
    exact hev
  have hgood := put_good hg later k entry
  have hgood' := put_good hg' later k entry
  rw [put_of_not_evicts hg h0 hev'] at hgood ⊢
  rw [put_of_not_evicts hg' h0 hev] at hgood' ⊢
  refine ⟨?_, ?_, Finmap.mem_insert.mpr (.inr hmem), hgood, hgood'⟩
  · exact congrArg (Finmap.insert k (stamp config later entry)) hmap
  · show List.filter _ (if k ∈ s.map then _ else _) = List.filter _ (if k ∈ s'.map then _ else _)
    rw [hmap]
    split
    · exact horder
    · rw [List.filter_append, List.filter_append, horder]

end

/-! ## the rest of the two runs -/

/-- the state after a history -/
def after (config : InMemoryCacheConfig) (ops : List CacheOp) (inner : Inner) : Inner :=
  (replay (handler config) ops inner).2

/-- the answers to a history from the empty cache, each with its operation -/
def answers (config : InMemoryCacheConfig) (ops : List CacheOp) : List (Event CacheSig) :=
  (replay (handler config) ops init).1

/-- an entry is stored under `key` all along `ops` -/
def StillThere (config : InMemoryCacheConfig) (key : String) (inner : Inner)
    (ops : List CacheOp) : Prop :=
  ∀ ops', ops' <+: ops → key ∈ (after config ops' inner).map

/-- as long as an entry is stored under `key`, no `put` evicts -/
def KeepsAll (config : InMemoryCacheConfig) (key : String) (inner : Inner)
    (ops : List CacheOp) : Prop :=
  ∀ pre later k entry post, ops = pre ++ .put later k entry :: post →
    StillThere config key inner pre → ¬ Evicts config k (after config pre inner)

/-- as long as an entry is stored under `key`, a `put` that evicts pops `key` itself, which has not
been written again -/
def PopsOnly (config : InMemoryCacheConfig) (key : String) (inner : Inner)
    (ops : List CacheOp) : Prop :=
  ∀ pre later k entry post, ops = pre ++ .put later k entry :: post →
    StillThere config key inner pre → Evicts config k (after config pre inner) →
      (after config pre inner).order.head? = some key ∧ ∀ w e, CacheOp.put w key e ∉ pre

section
variable {config : InMemoryCacheConfig} {now : Nat} {key : String} {o : CacheOp}
  {ops : List CacheOp} {s s' : Inner}

theorem stillThere_nil (hk : key ∈ s.map) : StillThere config key s [] := by
  intro ops' hprefix
  rw [List.prefix_nil.mp hprefix]
  exact hk

theorem StillThere.cons (h : StillThere config key (handler config o s).2 ops) (hk : key ∈ s.map) :
    StillThere config key s (o :: ops) := by
  intro ops' hprefix
  cases ops' with
  | nil => exact hk
  | cons o' ops' =>
    obtain ⟨rfl, htail⟩ := List.cons_prefix_cons.mp hprefix
    exact h ops' htail

theorem KeepsAll.head {later : Nat} {k : String} {entry : CachedEntry}
    (h : KeepsAll config key s (.put later k entry :: ops)) (hk : key ∈ s.map) :
    ¬ Evicts config k s :=
  h [] later k entry ops rfl (stillThere_nil hk)

theorem KeepsAll.tail (h : KeepsAll config key s (o :: ops)) (hk : key ∈ s.map) :
    KeepsAll config key (handler config o s).2 ops := by
  intro pre later k entry post hops hthere
  exact h (o :: pre) later k entry post (by rw [hops, List.cons_append]) (hthere.cons hk)

theorem PopsOnly.head {later : Nat} {k : String} {entry : CachedEntry}
    (h : PopsOnly config key s (.put later k entry :: ops)) (hk : key ∈ s.map)
    (hev : Evicts config k s) : s.order.head? = some key :=
  (h [] later k entry ops rfl (stillThere_nil hk) hev).1

theorem PopsOnly.tail (h : PopsOnly config key s (o :: ops)) (hk : key ∈ s.map) :
    PopsOnly config key (handler config o s).2 ops := by
  intro pre later k entry post hops hthere hev
  obtain ⟨hhead, hunwritten⟩ := h (o :: pre) later k entry post (by rw [hops, List.cons_append])
    (hthere.cons hk) hev
  exact ⟨hhead, fun w e hm => hunwritten w e (List.mem_cons_of_mem o hm)⟩

/-- once the key is written again, no `put` may evict -/
theorem PopsOnly.tail_put {later : Nat} {entry : CachedEntry}
    (h : PopsOnly config key s (.put later key entry :: ops)) (hk : key ∈ s.map) :
    KeepsAll config key (handler config (.put later key entry) s).2 ops := by
  intro pre w k e post hops hthere hev
  obtain ⟨-, hunwritten⟩ := h (.put later key entry :: pre) w k e post
    (by rw [hops, List.cons_append]) (hthere.cons hk) hev
  exact hunwritten later entry List.mem_cons_self

theorem replay_cons_congr (ha : (handler config o s).1 = (handler config o s').1)
    (hrest : (replay (handler config) ops (handler config o s).2).1 =
      (replay (handler config) ops (handler config o s').2).1) :
    (replay (handler config) (o :: ops) s).1 = (replay (handler config) (o :: ops) s').1 := by
  show (⟨o, (handler config o s).1⟩ : Event CacheSig) :: _ = ⟨o, (handler config o s').1⟩ :: _
  rw [ha, hrest]

theorem replay_cons_of_eq (ha : (handler config o s).1 = (handler config o s').1)
    (heq : (handler config o s).2 = (handler config o s').2) :
    (replay (handler config) (o :: ops) s).1 = (replay (handler config) (o :: ops) s').1 := by
  apply replay_cons_congr ha
  rw [heq]

theorem Requeued.answers (h : Requeued config.maxEntries key s s')
    (hkeeps : KeepsAll config key s' ops) :
    (replay (handler config) ops s).1 = (replay (handler config) ops s').1 := by
  induction ops generalizing s s' with
  | nil => rfl
  | cons o ops ih =>
    have hrest := hkeeps.tail h.mem
    cases o with
    | get later k =>
      obtain ⟨ha, heq | hstep⟩ := h.get later k
      · exact replay_cons_of_eq ha heq
      · exact replay_cons_congr ha (ih hstep hrest)
    | put later k entry =>
      exact replay_cons_congr rfl (ih (h.put (hkeeps.head h.mem) later entry) hrest)

theorem Reaped.answers (h : Reaped config.maxEntries now key s s')
    (hclock : ∀ o ∈ ops, now ≤ o.now) (hpops : PopsOnly config key s' ops) :
    (replay (handler config) ops s).1 = (replay (handler config) ops s').1 := by
  induction ops generalizing s s' with
  | nil => rfl
  | cons o ops ih =>
    have hlater : ∀ o ∈ ops, now ≤ o.now := fun o' hm => hclock o' (List.mem_cons_of_mem o hm)
    have hrest := hpops.tail h.reaps.mem
    cases o with
    | get later k =>
      obtain ⟨ha, heq | hstep⟩ := h.get (hclock _ List.mem_cons_self) k
      · exact replay_cons_of_eq ha heq
      · exact replay_cons_congr ha (ih hstep hlater hrest)
    | put later k entry =>
      by_cases hk : k = key
      · subst hk
        exact replay_cons_congr rfl
          ((h.put_key later entry).answers (hpops.tail_put h.reaps.mem))
      · obtain heq | hstep := h.put_other hk (hpops.head h.reaps.mem) later entry
        · exact replay_cons_of_eq rfl heq
        · exact replay_cons_congr rfl (ih hstep hlater hrest)

end

/-- without the read of `key` between `ops₁` and `ops₂`, the other operations are answered as with
it -/
def Removable (config : InMemoryCacheConfig) (ops₁ : List CacheOp) (now : Nat) (key : String)
    (ops₂ : List CacheOp) : Prop :=
  answers config (ops₁ ++ ops₂) =
    (answers config (ops₁ ++ .get now key :: ops₂)).eraseIdx ops₁.length

theorem removable_of_rest {config : InMemoryCacheConfig} {ops₁ ops₂ : List CacheOp} {now : Nat}
    {key : String}
    (h : (replay (handler config) ops₂ (get now key (after config ops₁ init)).2).1 =
      (replay (handler config) ops₂ (after config ops₁ init)).1) :
    Removable config ops₁ now key ops₂ := by
  have hlength := replay_length (handler config) ops₁ init
  unfold Removable answers
  rw [replay_append, replay_append, List.eraseIdx_append_of_length_le (Nat.le_of_eq hlength),
    hlength, Nat.sub_self]
  exact congrArg _ h.symm

/-- **When a read leaves no trace.**  Deleting a `get` from a history with nondecreasing clock
readings changes no other answer, if the `get` does not find an expired entry; and if it does, as
long as in the history without it, while an entry is stored under its key, a `put` evicts nothing
but that expired entry. -/
theorem get_removable (config : InMemoryCacheConfig) (ops₁ : List CacheOp) (now : Nat)
    (key : String) (ops₂ : List CacheOp)
    (hclock : ((ops₁ ++ .get now key :: ops₂).map CacheOp.now).Pairwise (· ≤ ·))
    (hpops : Reaps now key (after config ops₁ init) →
      PopsOnly config key (after config ops₁ init) ops₂) :
    Removable config ops₁ now key ops₂ := by
  apply removable_of_rest
  by_cases hr : Reaps now key (after config ops₁ init)
  · have hreaped : Reaped config.maxEntries now key (reap key (after config ops₁ init))
        (after config ops₁ init) := ⟨rfl, hr, replay_good config ops₁⟩
    rw [get_of_reaps hr]
    refine hreaped.answers (fun o ho => ?_) (hpops hr)
    rw [List.map_append, List.map_cons] at hclock
    exact List.rel_of_pairwise_cons (List.pairwise_append.mp hclock).2.1 (List.mem_map_of_mem ho)
  · rw [get_of_not_reaps hr]

/-! ### a read of an expired entry -/

/-- the brief entry is expired at `10`: taken out by the read, or evicted by the `put` after it -/
theorem expired_get_removable :
    ([0, 0, 10, 10, 10] : List Nat).Pairwise (· ≤ ·) ∧
      Removable twoEntries [.put 0 "b" briefEntry, .put 0 "a" lastingEntry] 10 "b"
        [.put 10 "c" lastingEntry, .get 10 "a"] := by
  refine ⟨by decide, get_removable twoEntries _ 10 "b" _ (by decide) fun _ => ?_⟩
  intro pre later k entry post hops _ _
  cases pre with
  | nil => exact ⟨rfl, fun w e => List.not_mem_nil⟩
  | cons o pre =>
    -- the only `put` is the first operation
    have htail := (List.cons.inj hops).2
    cases pre with
    | nil => cases htail
    | cons o pre =>
      have hempty := (List.cons.inj htail).2
      cases pre <;> cases hempty

/-- **A read decides what is evicted**: the brief entry is written again at `10`, and it keeps its
place at the head of the queue unless a read has taken it out before. -/
theorem get_not_removable :
    ¬ ∀ (config : InMemoryCacheConfig) (ops₁ : List CacheOp) (now : Nat) (key : String)
        (ops₂ : List CacheOp),
      ((ops₁ ++ .get now key :: ops₂).map CacheOp.now).Pairwise (· ≤ ·) →
        Removable config ops₁ now key ops₂ := by
  intro h
  have hsame := h twoEntries [.put 0 "b" briefEntry, .put 0 "a" lastingEntry] 10 "b"
    [.put 10 "b" lastingEntry, .put 10 "c" lastingEntry, .get 10 "a"] (by decide)
  have hlast := congrArg List.getLast? hsame
  have hwithout : (answers twoEntries [.put 0 "b" briefEntry, .put 0 "a" lastingEntry,
      .put 10 "b" lastingEntry, .put 10 "c" lastingEntry, .get 10 "a"]).getLast? =
      some (got 10 "a" (some lastingEntry)) := by rfl
  have hwith : ((answers twoEntries [.put 0 "b" briefEntry, .put 0 "a" lastingEntry, .get 10 "b",
      .put 10 "b" lastingEntry, .put 10 "c" lastingEntry, .get 10 "a"]).eraseIdx 2).getLast? =
      some (got 10 "a" none) := by rfl
  have hboth := hwithout.symm.trans (hlast.trans hwith)
  cases hboth

end InMemoryCache

end Tokudo
