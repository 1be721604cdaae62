import Tokudo.Call.Backends
import Tokudo.Call.Lineage
import Tokudo.Call.Sequential

/-!
# Calls on a cache that drops

`model.rs` over `cache/foyer.rs`: any number of calls on one model with a `FoyerCache`, in any
interleaving, while foyer drops what it likes, at any time.

* `foyer_latest`      what is stored is what the latest write to its key wrote;
* `foyer_hit_sound`   **so a hit is the response of the call that wrote last; and nothing that is stored
                      ever expires**, so that no `get` removes anything: the race between its two steps
                      does not come up between calls.
-/

namespace Tokudo
open Effect Store

variable {L A R M ι : Type}

/-! ## one step -/

section
variable {config : FoyerCacheConfig} {m m' : FoyerCache.Contents} {e : Event (Eff L A)}

/-- a step on the shared cache is one of the backend, or leaves it alone -/
inductive FoyerStep (config : FoyerCacheConfig) (m : FoyerCache.Contents) :
    Event (Eff L A) → FoyerCache.Contents → Prop where
  | got (now : Nat) (k : String) (found : Option CachedEntry) {m' : FoyerCache.Contents}
      (h : FoyerCache.object config m (got now k found) m') :
      FoyerStep config m (evGet k (.ok found)) m'
  | put (k : String) (entry : CachedEntry) {m' : FoyerCache.Contents}
      (h : FoyerCache.object config m (didPut 0 k entry) m') :
      FoyerStep config m (evPut k entry (.ok ())) m'
  | off {e : Event (Eff L A)} {m' : FoyerCache.Contents} (he : e.op.touched = none)
      (h : FoyerCache.Drops m m') : FoyerStep config m e m'

theorem foyerStep_of_serve (h : dropping (serve (FoyerCache config)) m e m') :
    FoyerStep config m e m' := by
  obtain ⟨n, n', hd, ⟨now, provider, hop⟩, hd'⟩ := h
  obtain ⟨o, r⟩ := e
  obtain ⟨rfl, rfl⟩ : (handler (FoyerCache config now) provider o n).1 = r ∧
      (handler (FoyerCache config now) provider o n).2 = n' :=
    ⟨congrArg Prod.fst hop, congrArg Prod.snd hop⟩
  have hoff : FoyerCache.Drops n m' → FoyerCache.Drops m m' := fun h k e hk => hd k e (h k e hk)
  cases o with
  | cacheGet k => exact .got now k (FoyerCache.get now k n).1 ⟨n, _, hd, rfl, hd'⟩
  | cachePut k entry => exact .put k entry ⟨n, _, hd, rfl, hd'⟩
  | callStart leg request => exact .off rfl (hoff hd')
  | callEnd leg request => exact .off rfl (hoff hd')
  | emit event => exact .off rfl (hoff hd')

/-- what an event writes -/
def written : Event (Eff L A) → Option (String × CachedEntry)
  | ⟨.cachePut k entry, _⟩ => some (k, entry)
  | _ => none

theorem written_of_off (he : e.op.touched = none) : written e = none := by
  obtain ⟨o, r⟩ := e
  cases o with
  | cachePut k entry => cases he
  | cacheGet k => rfl
  | callStart leg request => rfl
  | callEnd leg request => rfl
  | emit event => rfl

theorem FoyerStep.good (h : FoyerStep config m e m') (hm : FoyerCache.Good config m) :
    FoyerCache.Good config m' := by
  cases h with
  | got now k found h => exact FoyerCache.object_good h hm
  | put k entry h => exact FoyerCache.object_good h hm
  | off he h =>
    intro hc k
    cases hk : m' k with
    | none => rfl
    | some entry =>
      have hnone := hm hc k
      rw [h k entry hk] at hnone
      cases hnone

theorem FoyerStep.lossy (h : FoyerStep config m e m') (hm : FoyerCache.Good config m) :
    Lossy (written e) m m' := by
  cases h with
  | got now k found h => exact FoyerCache.object_lossy h hm
  | put k entry h => exact FoyerCache.object_lossy h hm
  | off he h =>
    rw [written_of_off he]
    exact fun k v hv => .inr ⟨h k v hv, fun _ hw => by cases hw⟩

/-! ## runs -/

theorem foyer_latest {es : List (Event (Eff L A))}
    (h : History (dropping (serve (FoyerCache config))) FoyerCache.init es m) {k : String}
    {entry : CachedEntry} (hk : m k = some entry) :
    ∃ es₁ r es₂, es = es₁ ++ evPut k entry r :: es₂ ∧ ∀ e' r', evPut k e' r' ∉ es₂ := by
  have hempty : ∀ k v, FoyerCache.init k = some v → Latest written k v ([] : List (Event (Eff L A))) :=
    fun k v hv => by cases hv
  obtain ⟨es₁, ⟨o, r⟩, es₂, rfl, hw, hn⟩ := current_of_lossy id written (FoyerCache.Good config)
    (fun _ _ _ he hg => (foyerStep_of_serve he).good hg)
    (fun _ _ _ he hg => (foyerStep_of_serve he).lossy hg) h (fun _ _ => rfl) [] hempty k entry hk
  cases o with
  | cachePut k' e =>
    obtain ⟨rfl, rfl⟩ := Prod.mk.inj (Option.some.inj hw)
    exact ⟨es₁, r, es₂, rfl, fun e' r' hm => hn _ hm e' rfl⟩
  | cacheGet k' => cases hw
  | callStart leg request => cases hw
  | callEnd leg request => cases hw
  | emit event => cases hw

/-- what is found was stored -/
theorem stored_of_got {k : String} {entry : CachedEntry}
    (h : FoyerStep (L := L) (A := A) config m (evGet k (.ok (some entry))) m') :
    m k = some entry := by
  cases h with
  | got now k found h =>
    obtain ⟨n, n', hd, hop, -⟩ := h
    have hfound : (FoyerCache.get now k n).1 = some entry := congrArg Prod.fst hop
    exact hd k entry (FoyerCache.get_eq_some hfound).1
  | off he h => cases he

/-- a place of a history is one of the log -/
theorem latestWrite_of_split {log : List (ι × Event (Eff L A))} {k : String} {entry : CachedEntry}
    {r : Result Unit} {es₁ es₂ : List (Event (Eff L A))}
    (h : log.map Prod.snd = es₁ ++ evPut k entry r :: es₂) (hn : ∀ e' r', evPut k e' r' ∉ es₂) :
    ∃ j x, LatestWrite k j entry x log := by
  obtain ⟨x, y', rfl, -, hy'⟩ := List.map_eq_append_iff.mp h
  obtain ⟨⟨j, ev⟩, y, rfl, rfl, rfl⟩ := List.map_eq_cons_iff.mp hy'
  exact ⟨j, x, r, y, rfl, fun i e' r' hm => hn e' r' (List.mem_map.mpr ⟨_, hm, rfl⟩)⟩

end

namespace OptimizedModel
variable (self : OptimizedModel M R) [DispatchModel M L A R] [DecidableEq ι] {asks : ι → Ask}
  {config : FoyerCacheConfig} {log : List (ι × Event (Eff L A))}
  {c : Pool (Eff L A) ι (Result (NormalizedResponse (CompletionResponse R))) FoyerCache.Contents}

variable [Nonempty A] [LawfulDispatch M]

/-- **Hits on a cache that drops are sound in every interleaving.**  What is stored was written by the
latest write to its key, and never expires.  A hit is under the default policy; it returns the response
of the call that wrote last to its key before the read, and names this key as its source. -/
theorem foyer_hit_sound (hserde : self.serde.RoundTrips)
    (h : Exec (dropping (serve (FoyerCache config))) (self.start asks FoyerCache.init) log c) :
    (∀ k entry, c.shared k = some entry →
      entry.expiresAtSecs = none ∧ ∃ j x, LatestWrite k j entry x log) ∧
    ∀ i n, c.threads i = .ret (.ok n) → n.provenance.cacheHit = true →
      (asks i).options.cachePolicy = .default ∧
      ∃ k entry before after x j resp, self.key.key (asks i).request (asks i).options = .ok k ∧
        log = before ++ (i, evGet k (.ok (some entry))) :: after ∧ LatestWrite k j entry x before ∧
        self.Writes (asks j).request (asks j).options k entry (eventsOf j x) resp ∧
        n.response = resp ∧ n.provenance.sourceId = some k := by
  constructor
  · intro k entry hk
    obtain ⟨es₁, r, es₂, hes, hn⟩ := foyer_latest h.history hk
    obtain ⟨j, x, r, y, hlog, hlast⟩ := latestWrite_of_split hes hn
    obtain ⟨resp, -, -, -, -, hentry⟩ := self.writes_of_exec h hlog
    exact ⟨self.undated_of_entryOf hentry, j, x, r, y, hlog, hlast⟩
  intro i n hi hhit
  have ht := self.transcript_of_return h hi
  obtain ⟨k, entry, cached, hk, hr, hd, hes, rfl⟩ := self.hit_of_transcript ht hhit
  obtain ⟨before, after, hlog, -, -⟩ :=
    exists_split_of_eventsOf (show eventsOf i log = [] ++ evGet k (.ok (some entry)) :: _ from hes)
  -- what the read finds was there before it
  have hhist := h.history
  rw [hlog, List.map_append, List.map_cons] at hhist
  obtain ⟨u, hbefore, hrest⟩ := run_append.mp hhist
  obtain ⟨v, hread, -⟩ := run_cons.mp hrest
  obtain ⟨es₁, r, es₂, hes₁, hn⟩ := foyer_latest hbefore (stored_of_got (foyerStep_of_serve hread))
  obtain ⟨j, x, r, y, hx, hlast⟩ := latestWrite_of_split hes₁ hn
  have hput : log = x ++ (j, evPut k entry r) ::
      (y ++ (i, evGet k (.ok (some entry))) :: after) := by
    rw [hlog, hx, List.append_assoc, List.cons_append]
  obtain ⟨resp, hw⟩ := self.writes_of_exec h hput
  refine ⟨allowRead_iff.mp hr, k, entry, before, after, x, j, resp, hk, hlog, ⟨r, y, hx, hlast⟩, hw,
    ?_, ?_⟩
  · exact self.decode_of_writes hserde hw rfl hd
  · obtain ⟨-, -, -, -, hentry⟩ := hw
    have hsource := (self.withLineage_source (self.hitProvenance (asks i).request.model entry cached)
      (hitEdge (asks i).request.model k entry cached)).2
    show (self.withLineage _ _).sourceId = some k
    rw [hsource]
    exact congrArg some (self.sourceId_of_entryOf hentry)

omit [Nonempty A] [LawfulDispatch M] in
/-- nothing has to be dropped -/
theorem exec_undropped {d : Pool (Eff L A) ι (Result (NormalizedResponse (CompletionResponse R)))
    FoyerCache.Contents} (h : Exec (serve (FoyerCache config)) c log d) :
    Exec (dropping (serve (FoyerCache config))) c log d := by
  have hdrop : ∀ m n (e : Event (Eff L A)) m', n = m → serve (FoyerCache config) m e m' →
      ∃ n', n' = m' ∧ dropping (serve (FoyerCache config)) n e n' := by
    rintro m n e m' rfl hop
    exact ⟨m', rfl, n, m', .refl n, hop, .refl m'⟩
  obtain ⟨t, rfl, hexec⟩ := h.sim _ hdrop rfl
  exact hexec

/-- two calls of one key: the second hits what the first has written -/
theorem inTurn_foyer_hit : ∃ (n : NormalizedResponse (CompletionResponse String)) (j : Bool)
    (x log : List (Bool × Event (Eff Unit (Result (DispatchOutcome String))))) (entry : CachedEntry),
    n.provenance.cacheHit = true ∧ n.provenance.sourceId = some "" ∧
      LatestWrite "" j entry x log := by
  let c₁ := plainCalls.runAlone (FoyerCache ⟨1024⟩ 0) (replies "one") (inTurn false) false
    (plainCalls.start inTurn FoyerCache.init)
  have h₁ : Exec (serve (FoyerCache ⟨1024⟩)) _ _ c₁ :=
    plainCalls.exec_alone (FoyerCache ⟨1024⟩) 0 (replies "one") false rfl
  have h₂ := plainCalls.exec_alone (FoyerCache ⟨1024⟩) 0 (replies "two") true
    (show c₁.threads true = plainCalls.program (inTurn true) from rfl)
  obtain ⟨-, hits⟩ := plainCalls.foyer_hit_sound textResponseSerde_roundTrips
    (exec_undropped (h₁.trans h₂))
  obtain ⟨-, k, entry, before, after, x, j, resp, hk, -, hlatest, -, -, hsource⟩ :=
    hits true _ rfl rfl
  cases hk
  exact ⟨_, j, x, before, entry, rfl, hsource, hlatest⟩

end OptimizedModel

end Tokudo
