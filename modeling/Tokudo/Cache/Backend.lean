import Tokudo.Core.Traits
import Tokudo.Store.Ledger

/-!
# The operations of an exact-match backend

A history of a backend is a list of `get` and `put` operations, each with the reading of the clock
it is made at, and each with its answer.

* `isExpired`                the deadline of an entry is at or before now;
* `LatestPut k w e es`       the latest `put` to `k` in `es` was made at clock time `w`, with `e`.
-/

namespace Tokudo
open Effect Store

/-- one operation, with the clock reading it is made at -/
inductive CacheOp where
  | get (now : Nat) (key : String)
  | put (now : Nat) (key : String) (entry : CachedEntry)

def CacheOp.Ret : CacheOp → Type
  | .get _ _ => Option CachedEntry
  | .put _ _ _ => Unit

abbrev CacheSig : Sig := ⟨CacheOp, CacheOp.Ret⟩

abbrev got (now : Nat) (key : String) (answer : Option CachedEntry) : Event CacheSig :=
  ⟨.get now key, answer⟩

abbrev didPut (now : Nat) (key : String) (entry : CachedEntry) : Event CacheSig :=
  ⟨.put now key entry, ()⟩

/-- `is_expired`, of both backends -/
def isExpired (entry : CachedEntry) (now : Nat) : Bool :=
  match entry.expiresAtSecs with
  | none => false
  | some deadline => decide (deadline ≤ now)

theorem isExpired_eq_false {entry : CachedEntry} {now : Nat} :
    isExpired entry now = false ↔ ∀ d, entry.expiresAtSecs = some d → now < d := by
  unfold isExpired
  cases entry.expiresAtSecs with
  | none => simp
  | some d => simp

theorem found_of_answer {σ : Type} {found : Option CachedEntry} {now : Nat} {s s' : σ}
    {entry : CachedEntry}
    (h : (match found with
      | none => (none, s)
      | some e => if isExpired e now then (none, s') else (some e, s)).1 = some entry) :
    found = some entry ∧ isExpired entry now = false := by
  cases found with
  | none => cases h
  | some e =>
    cases he : isExpired e now with
    | true =>
      simp only [he, if_true] at h
      cases h
    | false =>
      simp only [he, Bool.false_eq_true, if_false] at h
      cases h
      exact ⟨rfl, he⟩

def LatestPut (k : String) (w : Nat) (e : CachedEntry) (es : List (Event CacheSig)) : Prop :=
  ∃ es₁ es₂, es = es₁ ++ didPut w k e :: es₂ ∧ ∀ w' e', didPut w' k e' ∉ es₂

/-- what an event writes, if `put` at `now` stores `f now entry` -/
def putOf (f : Nat → CachedEntry → CachedEntry) : Event CacheSig → Option (String × CachedEntry)
  | ⟨.get _ _, _⟩ => none
  | ⟨.put now key entry, _⟩ => some (key, f now entry)

theorem latestPut_of_latest {f : Nat → CachedEntry → CachedEntry} {k : String} {v : CachedEntry}
    {es : List (Event CacheSig)} (h : Latest (putOf f) k v es) :
    ∃ w e, LatestPut k w e es ∧ v = f w e := by
  obtain ⟨es₁, ⟨o, r⟩, es₂, rfl, hw, hn⟩ := h
  cases o with
  | get now key => cases hw
  | put now key entry =>
    obtain ⟨rfl, rfl⟩ := Prod.mk.inj (Option.some.inj hw)
    exact ⟨now, entry, ⟨es₁, es₂, rfl, fun w' e' hm => hn _ hm _ rfl⟩, rfl⟩

end Tokudo
