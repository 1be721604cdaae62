import Tokudo.Cache.Memory

/-!
# `FoyerCache`, and what both exact-match backends return

`cache/foyer.rs`.  The wrapped cache is a map from keys to entries that may drop any entries at any
time (`Drops`): before an operation, and after it.

`exact_reads_current_and_fresh`: **what a `get` of either backend returns is the entry of the latest
`put` to its key, and it is not expired.**
-/

namespace Tokudo
open Effect Store

/-- the fields that `get` and `put` use -/
structure FoyerCacheConfig where
  capacity : Nat

namespace FoyerCache

abbrev Contents := String → Option CachedEntry

def init : Contents := fun _ => none

def Drops (m m' : Contents) : Prop := ∀ k e, m' k = some e → m k = some e

def get (now : Nat) (key : String) (m : Contents) : Option CachedEntry × Contents :=
  match m key with
  | none => (none, m)
  | some value =>
    if isExpired value now then (none, Function.update m key none) else (some value, m)

def put (config : FoyerCacheConfig) (key : String) (entry : CachedEntry) (m : Contents) : Contents :=
  if config.capacity = 0 then m else Function.update m key (some entry)

def handler (config : FoyerCacheConfig) : Handler CacheSig Contents
  | .get now key, m => get now key m
  | .put _ key entry, m => ((), put config key entry m)

/-- an operation, between any drops -/
def object (config : FoyerCacheConfig) : Object CacheSig Contents := fun m e m' =>
  ∃ n n', Drops m n ∧ handler config e.op n = (e.ret, n') ∧ Drops n' m'

theorem Drops.refl (m : Contents) : Drops m m := fun _ _ h => h

theorem object_of_handler {config : FoyerCacheConfig} {m m' : Contents} {e : Event CacheSig}
    (h : (handler config).object m e m') : object config m e m' := ⟨m, m', .refl m, h, .refl m'⟩

theorem get_eq_some {m : Contents} {now : Nat} {key : String} {entry : CachedEntry}
    (h : (get now key m).1 = some entry) : m key = some entry ∧ isExpired entry now = false := by
  unfold get at h
  exact found_of_answer h

theorem get_drops (now : Nat) (key : String) (m : Contents) : Drops m (get now key m).2 := by
  unfold get
  cases hk : m key with
  | none => exact .refl m
  | some e =>
    cases he : isExpired e now with
    | false =>
      simp only [he, Bool.false_eq_true, if_false]
      exact .refl m
    | true =>
      simp only [he, if_true]
      intro k v hv
      by_cases hkk : k = key
      · rw [hkk, Function.update_self] at hv
        cases hv
      · rwa [Function.update_of_ne hkk] at hv

theorem put_lossy (config : FoyerCacheConfig) (key : String) (entry : CachedEntry) (m : Contents) :
    ∀ k v, put config key entry m k = some v →
      (k = key ∧ v = entry) ∨ (m k = some v ∧ (k = key → config.capacity = 0)) := by
  intro k v hv
  unfold put at hv
  by_cases hc : config.capacity = 0
  · rw [if_pos hc] at hv
    exact .inr ⟨hv, fun _ => hc⟩
  · rw [if_neg hc] at hv
    by_cases hk : k = key
    · rw [hk, Function.update_self] at hv
      exact .inl ⟨hk, (Option.some.inj hv).symm⟩
    · rw [Function.update_of_ne hk] at hv
      exact .inr ⟨hv, fun h => absurd h hk⟩

/-- with capacity `0` nothing is stored -/
def Good (config : FoyerCacheConfig) (m : Contents) : Prop := config.capacity = 0 → ∀ k, m k = none

theorem object_good {config : FoyerCacheConfig} {m m' : Contents} {e : Event CacheSig}
    (h : object config m e m') (hm : Good config m) : Good config m' := by
  obtain ⟨n, n', hd, hop, hd'⟩ := h
  intro hc k
  have hn : ∀ v, n' k = some v → m k = some v := by
    intro v hv
    obtain ⟨o, r⟩ := e
    cases o with
    | get now key =>
      have hn' : (get now key n).2 = n' := congrArg Prod.snd hop
      rw [← hn'] at hv
      exact hd k v (get_drops now key n k v hv)
    | put now key entry =>
      have hn' : put config key entry n = n' := congrArg Prod.snd hop
      rw [← hn', put, if_pos hc] at hv
      exact hd k v hv
  cases hv : m' k with
  | none => rfl
  | some v =>
    have hk := hn v (hd' k v hv)
    rw [hm hc k] at hk
    cases hk

theorem object_lossy {config : FoyerCacheConfig} {m m' : Contents} {e : Event CacheSig}
    (h : object config m e m') (hm : Good config m) :
    Lossy (putOf (fun _ entry => entry) e) m m' := by
  obtain ⟨n, n', hd, hop, hd'⟩ := h
  intro k v hv
  have hv' := hd' k v hv
  obtain ⟨o, r⟩ := e
  cases o with
  | get now key =>
    have hn' : (get now key n).2 = n' := congrArg Prod.snd hop
    rw [← hn'] at hv'
    exact .inr ⟨hd k v (get_drops now key n k v hv'), fun _ hw => by cases hw⟩
  | put now key entry =>
    have hn' : put config key entry n = n' := congrArg Prod.snd hop
    rw [← hn'] at hv'
    rcases put_lossy config key entry n k v hv' with ⟨rfl, rfl⟩ | ⟨hk, hc⟩
    · exact .inl rfl
    · refine .inr ⟨hd k v hk, fun v' hw => ?_⟩
      obtain ⟨hkk, -⟩ := Prod.mk.inj (Option.some.inj hw)
      have hnone := hm (hc hkk.symm) k
      rw [hd k v hk] at hnone
      cases hnone

end FoyerCache

/-! ## what is read -/

theorem InMemoryCache.object_good {config : InMemoryCacheConfig} {inner inner' : Inner}
    {e : Event CacheSig} (h : (handler config).object inner e inner')
    (hg : Good config.maxEntries inner) : Good config.maxEntries inner' := by
  obtain ⟨o, r⟩ := e
  have hi : (handler config o inner).2 = inner' := congrArg Prod.snd h
  rw [← hi]
  cases o with
  | get now key => exact get_good hg now key
  | put now key entry => exact put_good hg now key entry

theorem InMemoryCache.object_lossy {config : InMemoryCacheConfig} {inner inner' : Inner}
    {e : Event CacheSig} (h : (handler config).object inner e inner')
    (hg : Good config.maxEntries inner) :
    Lossy (putOf (stamp config) e) (contents inner) (contents inner') := by
  obtain ⟨o, r⟩ := e
  have hi : (handler config o inner).2 = inner' := congrArg Prod.snd h
  rw [← hi]
  cases o with
  | get now key => exact get_lossy hg now key
  | put now key entry => exact put_lossy hg now key entry

theorem InMemoryCache.lt_of_stamp {config : InMemoryCacheConfig} {now w d : Nat}
    {entry : CachedEntry} (hd : config.defaultTtlSecs = some d) (he : entry.expiresAtSecs = none)
    (h : ∀ t, (stamp config w entry).expiresAtSecs = some t → now < t) : now < w + d := by
  have hs : (stamp config w entry).expiresAtSecs = some (saturatingAdd w d) := by
    unfold stamp
    rw [he, hd]
  exact Nat.lt_of_lt_of_le (h _ hs) (saturatingAdd_le w d)

/-- **Reads are current and fresh.**  What a `get` returns is the entry of the latest `put` to its
key, with the default deadline stamped by `InMemoryCache`; and its deadline lies ahead. -/
theorem exact_reads_current_and_fresh :
    (∀ (config : InMemoryCacheConfig) (es : List (Event CacheSig)) (inner : Inner) (now : Nat)
        (k : String) (entry : CachedEntry),
      History (InMemoryCache.handler config).object InMemoryCache.init
        (es ++ [got now k (some entry)]) inner →
      ∃ w e, LatestPut k w e es ∧ entry = InMemoryCache.stamp config w e ∧
        (∀ t, entry.expiresAtSecs = some t → now < t) ∧
        ∀ d, config.defaultTtlSecs = some d → e.expiresAtSecs = none → now < w + d) ∧
    (∀ (config : FoyerCacheConfig) (es : List (Event CacheSig)) (m : FoyerCache.Contents)
        (now : Nat) (k : String) (entry : CachedEntry),
      History (FoyerCache.object config) FoyerCache.init (es ++ [got now k (some entry)]) m →
      ∃ w, LatestPut k w entry es ∧ ∀ t, entry.expiresAtSecs = some t → now < t) := by
  constructor
  · intro config es inner now k entry h
    obtain ⟨s, hes, hget⟩ := run_append.mp h
    rw [run_single] at hget
    obtain ⟨hstored, hfresh⟩ := InMemoryCache.get_eq_some (congrArg Prod.fst hget)
    have hlatest := current_of_lossy InMemoryCache.contents (putOf (InMemoryCache.stamp config))
      (InMemoryCache.Good config.maxEntries)
      (fun _ _ _ he hg => InMemoryCache.object_good he hg)
      (fun _ _ _ he hg => InMemoryCache.object_lossy he hg) hes InMemoryCache.init_good
      [] (fun k v hv => by rw [InMemoryCache.contents_init] at hv; cases hv) k entry hstored
    obtain ⟨w, e, hw, rfl⟩ := latestPut_of_latest hlatest
    have hlt := isExpired_eq_false.mp hfresh
    exact ⟨w, e, hw, rfl, hlt, fun d hd he => InMemoryCache.lt_of_stamp hd he hlt⟩
  · intro config es m now k entry h
    obtain ⟨s, hes, hget⟩ := run_append.mp h
    rw [run_single] at hget
    obtain ⟨n, n', hd, hop, -⟩ := hget
    obtain ⟨hstored, hfresh⟩ := FoyerCache.get_eq_some (congrArg Prod.fst hop)
    have hlatest := current_of_lossy (fun m : FoyerCache.Contents => m) (putOf fun _ entry => entry)
      (FoyerCache.Good config)
      (fun _ _ _ he hg => FoyerCache.object_good he hg)
      (fun _ _ _ he hg => FoyerCache.object_lossy he hg) hes (fun _ _ => rfl)
      [] (fun k v hv => by cases hv) k entry (hd k entry hstored)
    obtain ⟨w, e, hw, rfl⟩ := latestPut_of_latest hlatest
    exact ⟨w, hw, isExpired_eq_false.mp hfresh⟩

/-- `k` is written, then `j`, then `k` again -/
def rewrites (deadline : Option Nat) : List (Event CacheSig) :=
  [didPut 3 "k" ⟨.str "old", deadline, none, "k"⟩, didPut 4 "j" ⟨.str "other", deadline, none, "j"⟩,
    didPut 5 "k" ⟨.str "new", deadline, none, "k"⟩]

/-- a `get` of each backend returns the newer entry -/
theorem exact_reads_after_rewrite :
    (∃ w e, LatestPut "k" w e (rewrites none) ∧
      (⟨.str "new", some 15, none, "k"⟩ : CachedEntry) = InMemoryCache.stamp ⟨some 2, some 10⟩ w e ∧
      (∀ t, some 15 = some t → 9 < t) ∧
      ∀ d, some 10 = some d → e.expiresAtSecs = none → 9 < w + d) ∧
    (∃ w, LatestPut "k" w ⟨.str "new", some 15, none, "k"⟩ (rewrites (some 15)) ∧
      ∀ t, some 15 = some t → 9 < t) :=
  ⟨exact_reads_current_and_fresh.1 ⟨some 2, some 10⟩ (rewrites none) _ 9 "k"
      ⟨.str "new", some 15, none, "k"⟩
      (.cons rfl (.cons rfl (.cons rfl (.cons rfl (.nil _))))),
    exact_reads_current_and_fresh.2 ⟨2⟩ (rewrites (some 15)) _ 9 "k" ⟨.str "new", some 15, none, "k"⟩
      (.cons (FoyerCache.object_of_handler rfl) (.cons (FoyerCache.object_of_handler rfl)
        (.cons (FoyerCache.object_of_handler rfl)
          (.cons (FoyerCache.object_of_handler rfl) (.nil _)))))⟩

end Tokudo
