import Tokudo.Call.Telemetry

/-!
# Calls that fail

* `failure_of_return`        **why a call has failed, and what is left of it**: it has stored nothing,
                             and its cost is reported exactly if its dispatcher had answered;
* `undecodable_stays`        an entry without a deadline that cannot be decoded blocks its key: calls
                             under the default policy fail, and do not replace it;
* `decodable_after_write`    a call that stores under the key repairs it for good.
-/

namespace Tokudo
open Effect Store

variable {L A R M σ ι : Type}

/-- no leg has been asked -/
def Unasked (es : List (Event (Eff L A))) : Prop := ∀ leg request, evStart leg request ∉ es

namespace OptimizedModel
variable (self : OptimizedModel M R)

/-- it fails with its key, its read, its entry or its compressor -/
inductive FailsEarly (request : CompletionRequest) (options : TokudoOptions)
    (es : List (Event (Eff L A))) (e : TokudoError) : Prop where
  | key (h : self.key.key request options = .error e)
  | read {k : String} (h : evGet k (.error e) ∈ es)
  | decode {k : String} {entry : CachedEntry} (h : evGet k (.ok (some entry)) ∈ es)
      (hd : self.decodeEntry entry = .error e)
  | compress (h : self.prepared request options = .error e)

/-- the answer is there, but it is not validated, not serialised or not written -/
inductive FailsLate (k : String) (resp : CompletionResponse R) (es : List (Event (Eff L A)))
    (e : TokudoError) : Prop where
  | validate (h : self.validateStep resp = .error e)
  | serialise (h : self.entryOf k resp = .error e)
  | write {entry : CachedEntry} (h : evPut k entry (.error e) ∈ es)

theorem unasked_missEvents (options : TokudoOptions) (k : String) :
    Unasked (missEvents options k : List (Event (Eff L A))) := by
  intro leg request hm
  unfold missEvents at hm
  split at hm
  · rcases List.mem_cons.mp hm with hm | hm
    · cases hm
    · cases List.mem_singleton.mp hm
  · cases hm

variable [DispatchModel M L A R]

/-- **The ways to fail**, with the cost events and what has been written. -/
theorem failure_of_transcript [SilentDispatch M] [LawfulDispatch M] {request : CompletionRequest}
    {options : TokudoOptions} {es : List (Event (Eff L A))} {e : TokudoError}
    (h : self.Transcript request options es (.error e)) :
    (self.FailsEarly request options es e ∧ Unasked es ∧ costEvents es = []) ∨
    (∃ stats req ds, self.prepared request options = .ok (stats, req) ∧
      Does (DispatchModel.dispatch self.model req) ds (.error e) ∧ ds <:+: es ∧
      costEvents es = []) ∨
    ∃ k stats req ds outcome, self.key.key request options = .ok k ∧
      self.prepared request options = .ok (stats, req) ∧
      Does (DispatchModel.dispatch self.model req) ds (.ok outcome) ∧ ds <:+: es ∧
      costEvents es = [self.costEvent request.model outcome.response] ∧
      self.FailsLate k outcome.response es e := by
  generalize ha : Except.error e = a at h
  cases h with
  | keyError hk =>
    cases ha
    exact .inl ⟨.key hk, fun _ _ hm => absurd hm List.not_mem_nil, rfl⟩
  | readError hk hr =>
    cases ha
    refine .inl ⟨.read List.mem_cons_self, fun _ _ hm => ?_, rfl⟩
    cases List.mem_singleton.mp hm
  | undecodable hk hr hd =>
    cases ha
    refine .inl ⟨.decode List.mem_cons_self hd, fun _ _ hm => ?_, rfl⟩
    cases List.mem_singleton.mp hm
  | hit hk hr hd => cases ha
  | @compressError k _ hk hc =>
    cases ha
    exact .inl ⟨.compress hc, unasked_missEvents options k,
      costEvents_of_quiet (quiet_missEvents options k)⟩
  | @dispatchError k stats req ds _ hk hc hd =>
    cases ha
    refine .inr (.inl ⟨stats, req, ds, hc, hd, ⟨_, [], List.append_nil _⟩, ?_⟩)
    have hmiss := costEvents_of_quiet (quiet_missEvents (L := L) (A := A) options k)
    have hcompress := costEvents_of_reports (reports_compressEvents (L := L) (A := A) stats)
    have hroute := costEvents_of_reports (self.reports_routeEvents (L := L) (A := A) req options)
    rw [costEvents_append, costEvents_append, costEvents_append, hmiss, hcompress, hroute,
      SilentDispatch.silent hd]
    rfl
  | @answered k stats req ds fs outcome r hk hc hd he =>
    cases r with
    | ok u => cases ha
    | error e' =>
      cases ha
      refine .inr (.inr ⟨k, stats, req, ds, outcome, hk, hc, hd, ?_, ?_, ?_⟩)
      · exact ⟨_, _, (List.append_assoc _ _ _).symm⟩
      · have hmiss := costEvents_of_quiet (quiet_missEvents (L := L) (A := A) options k)
        have hcompress := costEvents_of_reports (reports_compressEvents (L := L) (A := A) stats)
        have hroute := costEvents_of_reports (self.reports_routeEvents (L := L) (A := A) req options)
        have hlineage := costEvents_of_reports (self.reports_lineageEvents (L := L) (A := A)
          (callEdge request.model k (outcome.route.getD (self.hint req options)) outcome.response))
        rw [costEvents_append, costEvents_append, costEvents_append, costEvents_append,
          costEvents_append, hmiss, hcompress, hroute, SilentDispatch.silent hd,
          costEvents_of_quiet (self.quiet_ending he), callEvents, costEvents_append, hlineage]
        rfl
      · cases he with
        | invalid hv => exact .validate hv
        | unserialised hv hw he => exact .serialise he
        | written hv hw he r => exact .write (List.mem_append_right _ List.mem_cons_self)

variable [DecidableEq ι] {asks : ι → Ask} {O : Object (Eff L A) σ} {s : σ}
  {log : List (ι × Event (Eff L A))}
  {d : Pool (Eff L A) ι (Result (NormalizedResponse (CompletionResponse R))) σ}

/-- **Why a call has failed, and what is left of it.**  It has stored nothing.  Either no leg was asked:
it failed with its key, its read, its entry or its compressor; or the dispatcher failed with this
error; or the dispatcher answered and the call failed afterwards.  Only then, and then once, the cost
is reported. -/
theorem failure_of_return [SilentDispatch M] [LawfulDispatch M]
    (h : Exec O (self.start asks s) log d) {i : ι} {e : TokudoError}
    (hi : d.threads i = .ret (.error e)) :
    (∀ k entry, (i, evPut k entry (.ok ())) ∉ log) ∧
    ((self.FailsEarly (asks i).request (asks i).options (eventsOf i log) e ∧
        Unasked (eventsOf i log) ∧ costEvents (eventsOf i log) = []) ∨
      (∃ stats req ds, self.prepared (asks i).request (asks i).options = .ok (stats, req) ∧
        Does (DispatchModel.dispatch self.model req) ds (.error e) ∧ ds <:+: eventsOf i log ∧
        costEvents (eventsOf i log) = []) ∨
      ∃ k stats req ds outcome, self.key.key (asks i).request (asks i).options = .ok k ∧
        self.prepared (asks i).request (asks i).options = .ok (stats, req) ∧
        Does (DispatchModel.dispatch self.model req) ds (.ok outcome) ∧ ds <:+: eventsOf i log ∧
        costEvents (eventsOf i log) = [self.costEvent (asks i).request.model outcome.response] ∧
        self.FailsLate k outcome.response (eventsOf i log) e) := by
  have ht := self.transcript_of_return h hi
  refine ⟨fun k entry hm => ?_, self.failure_of_transcript ht⟩
  obtain ⟨xs, ys, hes⟩ := List.append_of_mem (mem_eventsOf.mpr hm)
  obtain ⟨-, resp, n, -, ha, -⟩ := self.put_of_transcript ht hes
  cases ha

/-- the provider is down: nothing is stored -/
theorem down_call_fails :
    ∃ (log : List (Unit × Event (Eff Unit (Completion String))))
      (c : Pool (Eff Unit (Completion String)) Unit
        (Result (NormalizedResponse (CompletionResponse String))) Inner),
      c.threads () = .ret (.error (.provider "down")) ∧
      ∀ k entry, ((), evPut k entry (.ok ())) ∉ log := by
  let down : Unit → CompletionRequest → Completion String := fun _ _ => .error "down"
  let asks : Unit → Ask := fun _ => ⟨promptRequest "hi", {}⟩
  let c := plainTextModel.runAlone (InMemoryCache default ⟨0, 0⟩) down (asks ()) ()
    (plainTextModel.start asks InMemoryCache.init)
  have h : Exec (serve (InMemoryCache default)) _ _ c :=
    plainTextModel.exec_alone (InMemoryCache default) ⟨0, 0⟩ down () rfl
  have hret : c.threads () = .ret (.error (.provider "down")) := rfl
  exact ⟨_, c, hret, (plainTextModel.failure_of_return h hret).1⟩

/-! ## an entry that cannot be decoded -/

omit [DecidableEq ι] in
/-- a call that reads it ends there -/
theorem undecodable_of_read [LawfulDispatch M] {request : CompletionRequest}
    {options : TokudoOptions} {es rest : List (Event (Eff L A))}
    {a : Result (NormalizedResponse (CompletionResponse R))}
    (h : self.Transcript request options es a) {k : String} {entry : CachedEntry} {e : TokudoError}
    (hes : es = evGet k (.ok (some entry)) :: rest) (hbad : self.decodeEntry entry = .error e) :
    rest = [] ∧ a = .error e := by
  have hread : allowRead options.cachePolicy = true := by
    refine (self.get_of_transcript h (k := k) (r := .ok (some entry)) ?_).2
    rw [hes]
    exact List.mem_cons_self
  have hmiss (k' : String) : (missEvents options k' : List (Event (Eff L A))) =
      [evGet k' (.ok none), evEmit (.cacheMiss k')] := by
    rw [missEvents, if_pos hread]
  cases h with
  | keyError hk => cases hes
  | readError hk hr => cases (List.cons.inj hes).1
  | undecodable hk hr hd =>
    obtain ⟨hev, hrest⟩ := List.cons.inj hes
    cases hev
    rw [hbad] at hd
    cases hd
    exact ⟨hrest.symm, rfl⟩
  | hit hk hr hd =>
    cases (List.cons.inj hes).1
    rw [hbad] at hd
    cases hd
  | compressError hk hc =>
    rw [hmiss] at hes
    cases (List.cons.inj hes).1
  | dispatchError hk hc hd =>
    rw [hmiss] at hes
    cases (List.cons.inj hes).1
  | answered hk hc hd he =>
    rw [hmiss] at hes
    cases (List.cons.inj hes).1

end OptimizedModel

/-! ## what a step does to the contents -/

/-- without a bound a key loses its entry only by a read of this key, and has a new one only by a
write to it -/
inductive Changes (config : InMemoryCacheConfig) (s t : Inner) : Event (Eff L A) → Prop where
  | get (now : Nat) (k : String) (h : InMemoryCache.contents t =
      Function.update (InMemoryCache.contents s) k
        (InMemoryCache.fresh now (InMemoryCache.contents s k))) :
      Changes config s t (evGet k (.ok (InMemoryCache.fresh now (InMemoryCache.contents s k))))
  | put (now : Nat) (k : String) (e : CachedEntry) (h : InMemoryCache.contents t =
      Function.update (InMemoryCache.contents s) k (some (InMemoryCache.stamp config now e))) :
      Changes config s t (evPut k e (.ok ()))
  | other {e : Event (Eff L A)} (he : e.op.touched = none) (h : t = s) : Changes config s t e

theorem changes_of_serve {config : InMemoryCacheConfig} (hbound : config.maxEntries = none)
    {s t : Inner} {e : Event (Eff L A)} (h : serve (InMemoryCache config) s e t) :
    Changes config s t e := by
  obtain ⟨clock, provider, h⟩ := h
  obtain ⟨o, r⟩ := e
  have ht : (handler (InMemoryCache config clock) provider o s).2 = t := congrArg Prod.snd h
  have hr : (handler (InMemoryCache config clock) provider o s).1 = r := congrArg Prod.fst h
  cases o with
  | cacheGet k =>
    rw [← ht, ← hr]
    have hans : (handler (L := L) (A := A) (InMemoryCache config clock) provider (.cacheGet k) s).1 =
        .ok (InMemoryCache.fresh clock.get (InMemoryCache.contents s k)) :=
      congrArg Except.ok (InMemoryCache.get_fresh clock.get k s)
    rw [hans]
    exact .get clock.get k (InMemoryCache.contents_get clock.get k s)
  | cachePut k e =>
    rw [← ht, ← hr]
    exact .put clock.put k e (InMemoryCache.contents_put hbound clock.put k e s)
  | callStart leg request => exact .other rfl ht.symm
  | callEnd leg request => exact .other rfl ht.symm
  | emit event => exact .other rfl ht.symm

theorem fresh_of_undated {entry : CachedEntry} (h : entry.expiresAtSecs = none) (now : Nat) :
    InMemoryCache.fresh now (some entry) = some entry := by
  have hkeep : isExpired entry now = false := by
    unfold isExpired
    rw [h]
  show (if isExpired entry now then none else some entry) = some entry
  rw [hkeep]
  rfl

namespace OptimizedModel
variable (self : OptimizedModel M R) [DispatchModel M L A R] [Nonempty A] [LawfulDispatch M]
  [DecidableEq ι] {asks : ι → Ask} {config : InMemoryCacheConfig} {s : Inner} {k : String}
  {log : List (ι × Event (Eff L A))}
  {c : Pool (Eff L A) ι (Result (NormalizedResponse (CompletionResponse R))) Inner}

/-- the entry is still there, and every call that has read the key has read it -/
theorem undecodable_invariant (hbound : config.maxEntries = none) {entry : CachedEntry}
    {err : TokudoError} (hdate : entry.expiresAtSecs = none)
    (hbad : self.decodeEntry entry = .error err)
    (hasks : ∀ i, self.key.key (asks i).request (asks i).options = .ok k →
      (asks i).options.cachePolicy = .default ∨ (asks i).options.cachePolicy = .noStore)
    (hs : InMemoryCache.contents s k = some entry)
    (h : Exec (serve (InMemoryCache config)) (self.start asks s) log c) :
    InMemoryCache.contents c.shared k = some entry ∧
      ∀ i r, (i, evGet k r) ∈ log → r = .ok (some entry) := by
  generalize hc : self.start asks s = c₀ at h
  induction h with
  | refl =>
    subst hc
    exact ⟨hs, fun i r hm => absurd hm List.not_mem_nil⟩
  | @step d log i o kont r t h hi ho ih =>
    subst hc
    obtain ⟨hstored, hreads⟩ := ih
    have hmem {e : Event (Eff L A)} {j : ι} (hm : (j, e) ∈ log ++ [(i, ⟨o, r⟩)]) :
        (j, e) ∈ log ∨ j = i ∧ e = ⟨o, r⟩ := by
      rcases List.mem_append.mp hm with hm | hm
      · exact .inl hm
      · exact .inr (Prod.mk.inj (List.mem_singleton.mp hm))
    have hchanges := changes_of_serve hbound ho
    have hnext := Exec.step h hi ho
    generalize hev : (⟨o, r⟩ : Event (Eff L A)) = ev at hchanges hmem hnext
    cases hchanges with
    | get now k' hcont =>
      have hkept : InMemoryCache.contents t k = some entry := by
        rw [hcont]
        by_cases hk : k = k'
        · rw [← hk, Function.update_self, hstored, fresh_of_undated hdate]
        · rw [Function.update_of_ne hk, hstored]
      refine ⟨hkept, fun j r' hm => ?_⟩
      rcases hmem hm with hm | ⟨-, heq⟩
      · exact hreads j r' hm
      · cases heq
        rw [hstored, fresh_of_undated hdate]
    | put now k' e' hcont =>
      have hne : k ≠ k' := by
        rintro rfl
        -- the writer has the key, so it has read the entry, and has ended there
        obtain ⟨resp, hkey, -, -, hallow, -⟩ := self.writes_of_exec hnext (x := log) (y := []) rfl
        have hread : allowRead (asks i).options.cachePolicy = true := by
          rcases hasks i hkey with hp | hp
          · exact allowRead_iff.mpr hp
          · exact absurd hp (allowWrite_iff.mp hallow)
        obtain ⟨fs, a, ht⟩ := self.transcript_of_exec hnext i
        rw [eventsOf_split, List.append_assoc] at ht
        obtain ⟨r', rest, hes, -⟩ := self.read_of_transcript ht hkey hread
        have hfirst : ∃ rest', eventsOf i log = evGet k r' :: rest' ∧
            rest = rest' ++ evPut k e' (.ok ()) :: fs := by
          cases hb : eventsOf i log with
          | nil =>
            rw [hb] at hes
            cases (List.cons.inj hes).1
          | cons e'' rest' =>
            rw [hb] at hes
            obtain ⟨rfl, hrest⟩ := List.cons.inj hes
            exact ⟨rest', rfl, hrest.symm⟩
        obtain ⟨rest', hfirst, hrest⟩ := hfirst
        have hr' : r' = .ok (some entry) := by
          apply hreads i r'
          rw [← mem_eventsOf, hfirst]
          exact List.mem_cons_self
        rw [hr'] at hes
        obtain ⟨hnil, -⟩ := self.undecodable_of_read ht hes hbad
        rw [hrest] at hnil
        exact absurd hnil (by simp)
      refine ⟨?_, fun j r' hm => ?_⟩
      · show InMemoryCache.contents t k = some entry
        rw [hcont, Function.update_of_ne hne, hstored]
      · rcases hmem hm with hm | ⟨-, heq⟩
        · exact hreads j r' hm
        · cases heq
    | other he ht =>
      refine ⟨?_, fun j r' hm => ?_⟩
      · show InMemoryCache.contents t k = some entry
        rw [ht, hstored]
      · rcases hmem hm with hm | ⟨-, rfl⟩
        · exact hreads j r' hm
        · cases he

/-- **An entry that cannot be decoded blocks its key**, if it has no deadline and the cache no bound.
As long as the key is asked for under the default policy, or under `NoStore`, the entry stays where it
is; and every call under the default policy reads it and fails, without asking the provider. -/
theorem undecodable_stays (hbound : config.maxEntries = none) {entry : CachedEntry}
    {err : TokudoError} (hdate : entry.expiresAtSecs = none)
    (hbad : self.decodeEntry entry = .error err)
    (hasks : ∀ i, self.key.key (asks i).request (asks i).options = .ok k →
      (asks i).options.cachePolicy = .default ∨ (asks i).options.cachePolicy = .noStore)
    (hs : InMemoryCache.contents s k = some entry)
    (h : Exec (serve (InMemoryCache config)) (self.start asks s) log c) :
    InMemoryCache.contents c.shared k = some entry ∧
      ∀ i a, self.key.key (asks i).request (asks i).options = .ok k →
        (asks i).options.cachePolicy = .default → c.threads i = .ret a →
        a = .error err ∧ eventsOf i log = [evGet k (.ok (some entry))] := by
  obtain ⟨hstored, hreads⟩ := self.undecodable_invariant hbound hdate hbad hasks hs h
  refine ⟨hstored, fun i a hk hp hi => ?_⟩
  have ht := self.transcript_of_return h hi
  obtain ⟨r, rest, hes, -⟩ := self.read_of_transcript ht hk (allowRead_iff.mpr hp)
  have hr : r = .ok (some entry) := by
    apply hreads i r
    rw [← mem_eventsOf, hes]
    exact List.mem_cons_self
  subst hr
  obtain ⟨rfl, ha⟩ := self.undecodable_of_read ht hes hbad
  exact ⟨ha, hes⟩

omit [DispatchModel M L A R] [Nonempty A] [LawfulDispatch M] in
theorem decodeEntry_congr {e e' : CachedEntry} (h : undated e = undated e') :
    self.decodeEntry e = self.decodeEntry e' := by
  have hresp : (undated e).response = (undated e').response := by rw [h]
  unfold decodeEntry
  rw [show e.response = e'.response from hresp]

/-- what is under the key, if anything, can be decoded -/
def DecodableAt (k : String) (inner : Inner) : Prop :=
  ∀ entry, InMemoryCache.contents inner k = some entry → ∃ cached, self.decodeEntry entry = .ok cached

omit [DispatchModel M L A R] [Nonempty A] [LawfulDispatch M] in
/-- a step keeps it, and a write of an entry that can be decoded brings it about -/
theorem decodableAt_of_change {u v : Inner} {ev : Event (Eff L A)} (h : Changes config u v ev)
    (hev : ∀ k' e r, ev = evPut k' e r → ∃ cached, self.decodeEntry e = .ok cached)
    (hu : self.DecodableAt k u ∨ ∃ e r, ev = evPut k e r) : self.DecodableAt k v := by
  intro entry hentry
  cases h with
  | get now k' hcont =>
    have hold : self.DecodableAt k u := hu.resolve_right fun ⟨e, r, h⟩ => by cases h
    apply hold
    rw [hcont] at hentry
    by_cases hk : k = k'
    · subst hk
      rw [Function.update_self] at hentry
      cases hc : InMemoryCache.contents u k with
      | none =>
        rw [hc] at hentry
        cases hentry
      | some old =>
        rw [hc] at hentry
        unfold InMemoryCache.fresh at hentry
        dsimp only at hentry
        split at hentry
        · cases hentry
        · exact hentry
    · rwa [Function.update_of_ne hk] at hentry
  | put now k' e hcont =>
    rw [hcont] at hentry
    by_cases hk : k = k'
    · subst hk
      rw [Function.update_self] at hentry
      cases hentry
      obtain ⟨cached, hd⟩ := hev k e _ rfl
      exact ⟨cached, (self.decodeEntry_congr (undated_stamp config now e)).trans hd⟩
    · rw [Function.update_of_ne hk] at hentry
      refine hu.resolve_right ?_ entry hentry
      rintro ⟨e', r, h⟩
      cases h
      exact hk rfl
  | other he ht =>
    rw [ht] at hentry
    refine hu.resolve_right ?_ entry hentry
    rintro ⟨e', r, rfl⟩
    cases he

/-- **A call that stores repairs the key.**  From then on whatever is under the key can be decoded,
whichever calls run beside or after it. -/
theorem decodable_after_write (hserde : self.serde.RoundTrips) (hbound : config.maxEntries = none)
    (h : Exec (serve (InMemoryCache config)) (self.start asks s) log c) {f : ι}
    {n : NormalizedResponse (CompletionResponse R)} (hf : c.threads f = .ret (.ok n))
    (hmiss : n.provenance.cacheHit = false) (hp : (asks f).options.cachePolicy ≠ .noStore)
    (hk : self.key.key (asks f).request (asks f).options = .ok k) :
    self.DecodableAt k c.shared := by
  have hputs : ∀ ev ∈ log.map Prod.snd, ∀ k' e r, ev = evPut k' e r →
      ∃ cached, self.decodeEntry e = .ok cached := by
    rintro ev hev k' e r rfl
    obtain ⟨⟨j, ev⟩, hm, rfl⟩ := List.mem_map.mp hev
    obtain ⟨x, y, hlog⟩ := List.append_of_mem hm
    obtain ⟨resp, -, -, -, -, he⟩ := self.writes_of_exec h hlog
    exact ⟨_, self.decodeEntry_of_entryOf hserde he⟩
  obtain ⟨k', _, _, _, _, hk', -, -, -, -, hwrite⟩ :=
    self.answer_of_transcript (self.transcript_of_return h hf) hmiss
  rw [hk] at hk'
  cases hk'
  obtain ⟨e, -, he⟩ := hwrite (allowWrite_iff.mpr hp)
  obtain ⟨x, y, rfl⟩ := List.append_of_mem (mem_eventsOf.mp he)
  have hhist := h.history
  rw [List.map_append, List.map_cons] at hhist hputs
  obtain ⟨u, -, hrest⟩ := run_append.mp hhist
  obtain ⟨v, hput, hrest⟩ := run_cons.mp hrest
  have hv : self.DecodableAt k v :=
    self.decodableAt_of_change (changes_of_serve hbound hput)
      (hputs _ (List.mem_append_right _ List.mem_cons_self)) (.inr ⟨e, _, rfl⟩)
  have hlater : ∀ ev ∈ y.map Prod.snd, ∀ k' e r, ev = evPut k' e r →
      ∃ cached, self.decodeEntry e = .ok cached :=
    fun ev hev => hputs ev (List.mem_append_right _ (List.mem_cons_of_mem _ hev))
  refine (hrest.restrict _ hlater).invariant (self.DecodableAt k) ?_ hv
  rintro u ev v ⟨hstep, hev⟩ hu
  exact self.decodableAt_of_change (changes_of_serve hbound hstep) hev (.inl hu)

/-- an entry of another version of the program -/
def foreignEntry : CachedEntry := ⟨.null, none, none, ""⟩

def foreignCache : Inner := InMemoryCache.put InMemoryCache.unbounded 0 "" foreignEntry InMemoryCache.init

abbrev echoModel : OptimizedModel (Dispatcher String) String :=
  textModel Dispatcher.mk preambleKey AcceptAllValidator

/-- a call finds it, fails, and leaves it -/
theorem foreign_call_fails :
    ∃ c : Pool (Eff Unit (Result (DispatchOutcome String))) Unit
        (Result (NormalizedResponse (CompletionResponse String))) Inner,
      c.threads () = .ret (.error (.cache "deserialize cached response: not a response")) ∧
      InMemoryCache.contents c.shared "" = some foreignEntry := by
  let asks : Unit → Ask := fun _ => ⟨promptRequest "hi", {}⟩
  let c := echoModel.runAlone (InMemoryCache InMemoryCache.unbounded ⟨0, 0⟩) (replies "one") (asks ()) ()
    (echoModel.start asks foreignCache)
  have h : Exec (serve (InMemoryCache InMemoryCache.unbounded)) _ _ c :=
    echoModel.exec_alone (InMemoryCache InMemoryCache.unbounded) ⟨0, 0⟩ (replies "one") () rfl
  have hstored : InMemoryCache.contents foreignCache "" = some foreignEntry := rfl
  have hbad : echoModel.decodeEntry foreignEntry =
      .error (.cache "deserialize cached response: not a response") := rfl
  obtain ⟨hkept, hfails⟩ := echoModel.undecodable_stays rfl rfl hbad (fun _ _ => .inl rfl) hstored h
  have hreturn : ∃ a, c.threads () = .ret a := ⟨_, rfl⟩
  obtain ⟨a, ha⟩ := hreturn
  rw [(hfails () a rfl rfl ha).1] at ha
  exact ⟨c, ha, hkept⟩

/-- a refresh, and then a call that decodes what it finds -/
theorem foreign_entry_repaired :
    ∃ c : Pool (Eff Unit (Result (DispatchOutcome String))) Unit
        (Result (NormalizedResponse (CompletionResponse String))) Inner,
      (∃ n, c.threads () = .ret (.ok n)) ∧ echoModel.DecodableAt "" c.shared := by
  let asks : Unit → Ask := fun _ => ⟨promptRequest "hi", { cachePolicy := .forceFresh }⟩
  let c := echoModel.runAlone (InMemoryCache InMemoryCache.unbounded ⟨0, 0⟩) (replies "one") (asks ()) ()
    (echoModel.start asks foreignCache)
  have h : Exec (serve (InMemoryCache InMemoryCache.unbounded)) _ _ c :=
    echoModel.exec_alone (InMemoryCache InMemoryCache.unbounded) ⟨0, 0⟩ (replies "one") () rfl
  have hreturn : ∃ n, c.threads () = .ret (.ok n) ∧ n.provenance.cacheHit = false :=
    ⟨_, rfl, rfl⟩
  obtain ⟨n, hret, hmiss⟩ := hreturn
  exact ⟨c, ⟨n, hret⟩, echoModel.decodable_after_write textResponseSerde_roundTrips rfl h hret hmiss
    (by decide) rfl⟩

end OptimizedModel

end Tokudo
