import Tokudo.Call.Sequential

/-!
# Is a hit what the provider would have answered?

The dispatcher is a function `D` of the request it gets, which sees a temperature only through its
bucket (`SeesBucket`); whether there is one it may see.  `DefaultCacheKey` covers the projection of a
request, not the whole of it, and a request without a temperature as if it were `0.0`.

* `transparent_of_covers`  if in the calls requests with one projection are prepared alike (`Covers`),
                           a hit is what compressing and dispatching the call's own request gives;
* `covers_of_transparent`  the condition is needed: without it some dispatcher is not answered for;
* `hit_transparent`        **both together**;
* `documents_ignored`      the documents, for one, are not in the projection.
-/

namespace Tokudo
open Effect Store

variable {R σ ω : Type}

/-- what a dispatcher sees that looks at the bucket of the temperature only: no temperature is in no
bucket, and buckets are not cut off at the range of `i64` -/
def seen (request : CompletionRequest) : CompletionRequest × Option ℤ :=
  ({ request with temperature := none }, request.temperature.map tenthBucket)

def SeesBucket (D : CompletionRequest → Result (DispatchOutcome R)) : Prop :=
  ∀ r r', seen r = seen r' → D r = D r'

theorem answer_of_history {L A : Type} {cache : Cache σ} {provider : L → CompletionRequest → A}
    {s t : σ} {es : List (Event (Eff L A))} (h : History (handler cache provider).object s es t)
    {leg : L} {request : CompletionRequest} {a : A} (hm : evEnd leg request a ∈ es) :
    a = provider leg request := by
  obtain ⟨u, v, huv⟩ := h.exists_step hm
  exact (congrArg Prod.fst huv).symm

theorem put_of_history {L A : Type} {config : InMemoryCacheConfig} {clock : Clock}
    {provider : L → CompletionRequest → A} {s t : Inner} {es : List (Event (Eff L A))}
    (h : History (handler (InMemoryCache config clock) provider).object s es t) {k : String}
    {e : CachedEntry} {r : Result Unit} (hm : evPut k e r ∈ es) : r = .ok () := by
  obtain ⟨u, v, huv⟩ := h.exists_step hm
  exact (congrArg Prod.fst huv).symm

namespace OptimizedModel
variable (self : OptimizedModel (Dispatcher R) R)

/-- if the call `w` may serve the call `d`, the dispatcher sees the same of both -/
def Covers (serde : KeySerde) (w d : Ask) : Prop :=
  w.options.cachePolicy ≠ .noStore → d.options.cachePolicy = .default →
    projection serde w.request w.options = projection serde d.request d.options →
      ∀ stats req, self.prepared w.request w.options = .ok (stats, req) →
        ∃ stats' req', self.prepared d.request d.options = .ok (stats', req') ∧ seen req = seen req'

theorem answer_of_stored {backend : ω → Cache σ} {s t : σ}
    {w : Done Unit (Result (DispatchOutcome R)) R ω σ} (h : self.CallStep backend s w t) {k : String}
    {n : NormalizedResponse (CompletionResponse R)} (hst : self.Stored k w n) :
    ∃ stats req outcome, self.prepared w.call.ask.request w.call.ask.options = .ok (stats, req) ∧
      w.call.provider () req = .ok outcome ∧ n.response = outcome.response := by
  obtain ⟨-, -, hv, hit⟩ := hst
  have htrans := self.transcript_of_callStep h
  rw [hv] at htrans
  obtain ⟨k, stats, req, ds, outcome, -, hc, hd, hin, rfl, -⟩ := self.answer_of_transcript htrans hit
  rw [does_dispatcher.mp hd] at hin
  have hm : evEnd () req (.ok outcome) ∈ w.outcome.events :=
    hin.subset (List.mem_cons_of_mem _ (List.mem_singleton.mpr rfl))
  exact ⟨stats, req, outcome, hc, (answer_of_history (self.history_of_callStep h) hm).symm, rfl⟩

theorem map_call_runCalls (backend : ω → Cache σ) (s : σ)
    (calls : List (Call Unit (Result (DispatchOutcome R)) ω)) :
    (self.runCalls backend calls s).map (·.call) = calls := by
  induction calls generalizing s with
  | nil => rfl
  | cons call calls ih => exact congrArg (call :: ·) (ih _)

theorem exists_done (backend : ω → Cache σ) (s : σ)
    (xs ys : List (Call Unit (Result (DispatchOutcome R)) ω))
    (y : Call Unit (Result (DispatchOutcome R)) ω) :
    ∃ ds d ds', self.runCalls backend (xs ++ y :: ys) s = ds ++ d :: ds' ∧ d.call = y ∧
      ds.map (·.call) = xs := by
  obtain ⟨ds, rest, hds, hxs, hrest⟩ :=
    List.map_eq_append_iff.mp (self.map_call_runCalls backend s (xs ++ y :: ys))
  obtain ⟨d, ds', rfl, hy, -⟩ := List.map_eq_cons_iff.mp hrest
  exact ⟨ds, d, ds', hds, hy, hxs⟩

def callsTo (D : CompletionRequest → Result (DispatchOutcome R)) (asks : List (Ask × Clock)) :
    List (Call Unit (Result (DispatchOutcome R)) Clock) :=
  asks.map fun p => ⟨p.1, p.2, fun _ r => D r⟩

/-- every hit of these calls, one after the other and from the empty cache on, is what the dispatcher
answers on the call's own prepared request -/
def Transparent (config : InMemoryCacheConfig) (D : CompletionRequest → Result (DispatchOutcome R))
    (asks : List (Ask × Clock)) : Prop :=
  ∀ ds d ds' n, self.runCalls (InMemoryCache config) (callsTo D asks) InMemoryCache.init =
      ds ++ d :: ds' → d.outcome.value = .ok n → n.provenance.cacheHit = true →
    ∃ stats req outcome, self.prepared d.call.ask.request d.call.ask.options = .ok (stats, req) ∧
      D req = .ok outcome ∧ n.response = outcome.response

/-- **Hits are transparent, if the key covers what the dispatcher sees.** -/
theorem transparent_of_covers {serde : KeySerde} (hkey : self.key = DefaultCacheKey serde)
    (hinj : serde.Injective) (hserde : self.serde.RoundTrips)
    {D : CompletionRequest → Result (DispatchOutcome R)} (hD : SeesBucket D)
    {config : InMemoryCacheConfig} {asks : List (Ask × Clock)}
    (hcovers : asks.Pairwise fun w d => self.Covers serde w.1 d.1) :
    self.Transparent config D asks := by
  intro ds d ds' n h hv hit
  have hcalls : ∀ call ∈ callsTo D asks, call.provider = fun _ r => D r := by
    intro call hm
    obtain ⟨p, -, rfl⟩ := List.mem_map.mp hm
    rfl
  have hcover : (callsTo D asks).Pairwise fun w d => self.Covers serde w.ask d.ask :=
    List.pairwise_map.mpr hcovers
  obtain ⟨hrun, hd⟩ := self.run_of_runCalls h
  obtain ⟨hp, k, ds₁, w, ds₂, nw, hk, rfl, hst, -, hn⟩ := self.hit_source hserde hrun hd hv hit
  obtain ⟨s₁, t₁, hstep⟩ := hrun.exists_step (List.mem_append_right _ List.mem_cons_self)
  obtain ⟨stats, req, outcome, hc, hprovider, hnw⟩ := self.answer_of_stored hstep hst
  obtain ⟨hkw, hpw, -, -⟩ := hst
  -- the two calls are in the run, `w` before `d`
  have hsplit := self.map_call_runCalls (InMemoryCache config) InMemoryCache.init
    (callsTo D asks)
  rw [h, List.map_append, List.map_append] at hsplit
  rw [← hsplit] at hcover hcalls
  have hw : w.call.provider = fun _ r => D r := hcalls _ (by simp)
  have hcov : self.Covers serde w.call.ask d.call.ask :=
    (List.pairwise_append.mp hcover).2.2 _ (by simp) _ (by simp)
  rw [hkey] at hk hkw
  obtain ⟨stats', req', hc', hseen⟩ :=
    hcov hpw hp (projection_eq_of_key_eq hinj hkw hk) stats req hc
  refine ⟨stats', req', outcome, hc', ?_, hn.trans hnw⟩
  rw [← hD _ _ hseen]
  rw [hw] at hprovider
  exact hprovider

/-! ## the condition is needed -/

theorem stored_of_miss (hserde : self.serde.RoundTrips)
    {ds : List (Done Unit (Result (DispatchOutcome R)) R Clock Inner)} {s t : Inner}
    {w : Done Unit (Result (DispatchOutcome R)) R Clock Inner}
    (hrun : Run (self.CallStep (InMemoryCache InMemoryCache.unbounded)) InMemoryCache.init ds s)
    (h : self.CallStep (InMemoryCache InMemoryCache.unbounded) s w t) (hmiss : ¬ w.Hit) {k : String}
    {stats : Option CompressionStats} {req : CompletionRequest} {outcome : DispatchOutcome R}
    {b : Bool} {e : CachedEntry} (hk : self.key.key w.call.ask.request w.call.ask.options = .ok k)
    (hp : w.call.ask.options.cachePolicy ≠ .noStore)
    (hc : self.prepared w.call.ask.request w.call.ask.options = .ok (stats, req))
    (hanswer : w.call.provider () req = .ok outcome)
    (hvalid : self.validateStep outcome.response = .ok b)
    (hentry : self.entryOf k outcome.response = .ok e) : ∃ n, self.Stored k w n := by
  have htrans := self.transcript_of_callStep h
  have hhist := self.history_of_callStep h
  have hread : ∀ k' r rest, w.outcome.events = evGet k' r :: rest → r = .ok none := by
    intro k' r rest hes
    by_contra hr
    exact hmiss (self.hit_of_read hserde hrun h hes hr)
  generalize hes : w.outcome.events = es at htrans hhist
  generalize ha : w.outcome.value = a at htrans
  cases htrans with
  | keyError hk' =>
    rw [hk] at hk'
    cases hk'
  | readError hk' hr => cases hread _ _ _ hes
  | undecodable hk' hr hd => cases hread _ _ _ hes
  | hit hk' hr hd => cases hread _ _ _ hes
  | compressError hk' hc' =>
    rw [hc] at hc'
    cases hc'
  | @dispatchError k' stats' req' ds e' hk' hc' hd =>
    rw [hc] at hc'
    cases hc'
    rw [does_dispatcher.mp hd] at hhist
    have he := answer_of_history hhist (List.mem_append_right _ (List.mem_cons_of_mem _
      (List.mem_singleton.mpr rfl)))
    rw [hanswer] at he
    cases he
  | @answered k' stats' req' ds fs outcome' r hk' hc' hd he =>
    rw [hk] at hk'
    cases hk'
    rw [hc] at hc'
    cases hc'
    rw [does_dispatcher.mp hd] at hhist
    have ho := answer_of_history hhist (List.mem_append_left _ (List.mem_append_left _
      (List.mem_append_right _ (List.mem_cons_of_mem _ (List.mem_singleton.mpr rfl)))))
    rw [hanswer] at ho
    cases ho
    cases he with
    | invalid hv =>
      rw [hvalid] at hv
      cases hv
    | unwritten hv hw => exact absurd (allowWrite_iff.mpr hp) (by rw [hw]; decide)
    | unserialised hv hw he =>
      rw [hentry] at he
      cases he
    | written hv hw he r =>
      rw [put_of_history hhist (List.mem_append_right _ (List.mem_singleton.mpr rfl))] at ha
      exact ⟨_, hk, hp, ha, self.withLineage_cacheHit _ _⟩

theorem exists_stored (hserde : self.serde.RoundTrips)
    {ds : List (Done Unit (Result (DispatchOutcome R)) R Clock Inner)} {s t : Inner}
    {w : Done Unit (Result (DispatchOutcome R)) R Clock Inner}
    (hrun : Run (self.CallStep (InMemoryCache InMemoryCache.unbounded)) InMemoryCache.init ds s)
    (h : self.CallStep (InMemoryCache InMemoryCache.unbounded) s w t) {k : String}
    {stats : Option CompressionStats} {req : CompletionRequest} {outcome : DispatchOutcome R}
    {b : Bool} {e : CachedEntry} (hk : self.key.key w.call.ask.request w.call.ask.options = .ok k)
    (hp : w.call.ask.options.cachePolicy ≠ .noStore)
    (hc : self.prepared w.call.ask.request w.call.ask.options = .ok (stats, req))
    (hanswer : w.call.provider () req = .ok outcome)
    (hvalid : self.validateStep outcome.response = .ok b)
    (hentry : self.entryOf k outcome.response = .ok e) :
    ∃ w' n, w' ∈ ds ++ [w] ∧ self.Stored k w' n := by
  by_cases hhit : w.Hit
  · obtain ⟨n, hv, hit⟩ := hhit
    obtain ⟨-, k', _, w', _, nw, hk', rfl, hst, -⟩ := self.hit_source hserde hrun h hv hit
    rw [hk] at hk'
    cases hk'
    exact ⟨w', nw, by simp, hst⟩
  · obtain ⟨n, hst⟩ := self.stored_of_miss hserde hrun h hhit hk hp hc hanswer hvalid hentry
    exact ⟨w, n, by simp, hst⟩

/-- Without a bound and a TTL, if every dispatcher that sees only the bucket makes every hit of the
calls `asks` transparent, the calls are covered.  The dispatcher may give at least one answer that is
stored; keys do not fail. -/
theorem covers_of_transparent {serde : KeySerde} (hkey : self.key = DefaultCacheKey serde)
    (hserde : self.serde.RoundTrips) (htotal : ∀ v, ∃ bs, serde.toVec v = .ok bs)
    {answer : DispatchOutcome R} (hvalid : ∃ b, self.validateStep answer.response = .ok b)
    (hentry : ∀ k, ∃ e, self.entryOf k answer.response = .ok e) {asks : List (Ask × Clock)}
    (h : ∀ D, SeesBucket D → self.Transparent InMemoryCache.unbounded D asks) :
    asks.Pairwise fun w d => self.Covers serde w.1 d.1 := by
  classical
  refine List.pairwise_iff_forall_sublist.mpr fun {w d} hsub hpw hpd hproj stats req hc => ?_
  obtain ⟨r₁, r₂, rfl, hw, hd⟩ := List.cons_sublist_iff.mp hsub
  obtain ⟨a₁, a₂, rfl⟩ := List.append_of_mem hw
  obtain ⟨b₁, b₂, rfl⟩ := List.append_of_mem (List.singleton_sublist.mp hd)
  -- answer what is seen like the request of `w`, and nothing else
  let D : CompletionRequest → Result (DispatchOutcome R) := fun r =>
    if seen r = seen req then .ok answer else .error (.provider "")
  have hD : SeesBucket D := fun r r' hrr => by simp only [D, hrr]
  have hanswer : D req = .ok answer := if_pos rfl
  obtain ⟨ds, dd, ds', hrunAll, hdd, hmap⟩ := self.exists_done
    (InMemoryCache InMemoryCache.unbounded) InMemoryCache.init (callsTo D (a₁ ++ w :: a₂ ++ b₁))
    (callsTo D b₂) ⟨d.1, d.2, fun _ r => D r⟩
  have hcalls : callsTo D (a₁ ++ w :: a₂ ++ (b₁ ++ d :: b₂)) =
      callsTo D (a₁ ++ w :: a₂ ++ b₁) ++ ⟨d.1, d.2, fun _ r => D r⟩ :: callsTo D b₂ := by
    simp [callsTo]
  rw [← hcalls] at hrunAll
  obtain ⟨hrun, hstep⟩ := self.run_of_runCalls hrunAll
  -- the calls of `w` and `d` in the run
  have hw' : ∃ ds₁ dw ds₂, ds = ds₁ ++ dw :: ds₂ ∧ dw.call = ⟨w.1, w.2, fun _ r => D r⟩ := by
    simp only [callsTo, List.append_assoc, List.cons_append, List.map_append, List.map_cons] at hmap
    obtain ⟨ds₁, rest, rfl, -, hrest⟩ := List.map_eq_append_iff.mp hmap
    obtain ⟨dw, ds₂, rfl, hdw, -⟩ := List.map_eq_cons_iff.mp hrest
    exact ⟨ds₁, dw, ds₂, rfl, hdw⟩
  obtain ⟨ds₁, dw, ds₂, rfl, hdw⟩ := hw'
  obtain ⟨bs, hbs⟩ := htotal (projection serde w.1.request w.1.options)
  have hkw : self.key.key w.1.request w.1.options = .ok (serde.sha256Hex bs) := by
    simp only [hkey, DefaultCacheKey, hbs]
  have hkd : self.key.key d.1.request d.1.options = .ok (serde.sha256Hex bs) := by
    simp only [hkey, DefaultCacheKey, ← hproj, hbs]
  have hrunw : self.runCalls (InMemoryCache InMemoryCache.unbounded)
      (callsTo D (a₁ ++ w :: a₂ ++ (b₁ ++ d :: b₂))) InMemoryCache.init =
        ds₁ ++ dw :: (ds₂ ++ dd :: ds') := by
    rw [hrunAll, List.append_assoc, List.cons_append]
  obtain ⟨hrun₁, hstepw⟩ := self.run_of_runCalls hrunw
  rw [← show dw.call.ask = w.1 by rw [hdw]] at hpw hc hkw
  obtain ⟨b, hb⟩ := hvalid
  obtain ⟨e, he⟩ := hentry (serde.sha256Hex bs)
  obtain ⟨w', n', hmem, hst⟩ := self.exists_stored hserde hrun₁ hstepw hkw hpw hc
    (by rw [hdw]; exact hanswer) hb he
  replace hmem : w' ∈ ds₁ ++ dw :: ds₂ := by
    rcases List.mem_append.mp hmem with hm | hm
    · exact List.mem_append_left _ hm
    · rw [List.mem_singleton.mp hm]
      exact List.mem_append_right _ List.mem_cons_self
  obtain ⟨entry, hentry'⟩ := self.contents_of_stored hrun hmem hst
  rw [← show dd.call.ask = d.1 by rw [hdd]] at hkd hpd ⊢
  obtain ⟨n, hv, hit⟩ := self.hit_of_contents hserde hrun hstep hkd hpd hentry'
  obtain ⟨stats', req', outcome, hc', hD', -⟩ := h D hD _ dd _ n hrunAll hv hit
  refine ⟨stats', req', hc', ?_⟩
  by_contra hseen
  rw [show D req' = .error (.provider "") from if_neg fun he => hseen he.symm] at hD'
  cases hD'

/-- **When hits are transparent.**  If the key covers what the dispatcher sees of the calls, then with
any bound and TTL every dispatcher that sees only the bucket makes every hit transparent.  Without a
bound and a TTL the calls are covered only then; the dispatcher may give some answer that is stored,
and keys do not fail. -/
theorem hit_transparent {serde : KeySerde} (hkey : self.key = DefaultCacheKey serde)
    (hinj : serde.Injective) (hserde : self.serde.RoundTrips) (asks : List (Ask × Clock)) :
    ((asks.Pairwise fun w d => self.Covers serde w.1 d.1) →
      ∀ config D, SeesBucket D → self.Transparent config D asks) ∧
    ((∀ v, ∃ bs, serde.toVec v = .ok bs) →
      (∃ answer : DispatchOutcome R, (∃ b, self.validateStep answer.response = .ok b) ∧
        ∀ k, ∃ e, self.entryOf k answer.response = .ok e) →
      (∀ D, SeesBucket D → self.Transparent InMemoryCache.unbounded D asks) →
        asks.Pairwise fun w d => self.Covers serde w.1 d.1) := by
  constructor
  · intro hcover config D hD
    exact self.transparent_of_covers hkey hinj hserde hD hcover
  · rintro htotal ⟨answer, hvalid, hentry⟩ h
    exact self.covers_of_transparent hkey hserde htotal hvalid hentry h

theorem hit_after_stored (hserde : self.serde.RoundTrips)
    {w d : Call Unit (Result (DispatchOutcome R)) Clock} {k : String}
    {nw : NormalizedResponse (CompletionResponse R)}
    (hst : self.Stored k (self.perform (InMemoryCache InMemoryCache.unbounded) w InMemoryCache.init) nw)
    (hk : self.key.key d.ask.request d.ask.options = .ok k)
    (hp : d.ask.options.cachePolicy = .default) :
    ∃ dw dd n, self.runCalls (InMemoryCache InMemoryCache.unbounded) [w, d] InMemoryCache.init =
        [dw] ++ dd :: [] ∧ dd.call = d ∧ dd.outcome.value = .ok n ∧ n.provenance.cacheHit = true ∧
      n.response = nw.response := by
  let dw := self.perform (InMemoryCache InMemoryCache.unbounded) w InMemoryCache.init
  let dd := self.perform (InMemoryCache InMemoryCache.unbounded) d dw.outcome.state
  have h : self.runCalls (InMemoryCache InMemoryCache.unbounded) [w, d] InMemoryCache.init =
    [dw] ++ dd :: [] := rfl
  obtain ⟨hrun, hd⟩ := self.run_of_runCalls h
  obtain ⟨entry, hentry⟩ := self.contents_of_stored hrun (List.mem_singleton.mpr rfl) hst
  obtain ⟨n, hv, hit⟩ := self.hit_of_contents hserde hrun hd hk hp hentry
  refine ⟨dw, dd, n, h, rfl, hv, hit, ?_⟩
  obtain ⟨-, k', ds₁, w', ds₂, nw', hk', hds, hst', -, hn⟩ := self.hit_source hserde hrun hd hv hit
  obtain rfl : w' = dw := by
    have hm : w' ∈ [dw] := by
      rw [hds]
      exact List.mem_append_right _ List.mem_cons_self
    exact List.mem_singleton.mp hm
  obtain ⟨-, -, hvw, -⟩ := hst
  obtain ⟨-, -, hvw', -⟩ := hst'
  rw [hvw] at hvw'
  cases hvw'
  exact hn

end OptimizedModel

/-! ## two runs -/

/-- a dispatcher that answers with the texts of the documents -/
def readsDocuments (request : CompletionRequest) : Result (DispatchOutcome String) :=
  .ok { response := textResponse (String.join (request.documents.map (·.text))) .zero, route := none }

theorem readsDocuments_seesBucket : SeesBucket readsDocuments := by
  intro r r' h
  have hdocs : r.documents = r'.documents := congrArg (fun v => v.1.documents) h
  unfold readsDocuments
  rw [hdocs]

abbrev documentsModel : OptimizedModel (Dispatcher String) String :=
  textModel Dispatcher.mk (DefaultCacheKey textKeySerde) AcceptAllValidator

def documentsCall (request : CompletionRequest) :
    Call Unit (Result (DispatchOutcome String)) Clock :=
  ⟨⟨request, {}⟩, ⟨0, 0⟩, fun _ r => readsDocuments r⟩

theorem documentsCall_stored (request : CompletionRequest) :
    ∃ k n, documentsModel.key.key request {} = .ok k ∧
      documentsModel.Stored k (documentsModel.perform (InMemoryCache InMemoryCache.unbounded)
        (documentsCall request) InMemoryCache.init) n ∧
      n.response = textResponse (String.join (request.documents.map (·.text))) .zero :=
  ⟨_, _, rfl, ⟨rfl, nofun, rfl, rfl⟩, rfl⟩

def warmRequest (temperature : F64) : CompletionRequest :=
  { promptRequest "hi" with temperature := some temperature }

/-- two temperatures in the bucket of `0.3` -/
theorem warm_bucket : tenthBucket (29 / 100) = tenthBucket (31 / 100) := by
  norm_num [tenthBucket, roundHalfAway]

theorem warm_key : documentsModel.key.key (warmRequest (29 / 100)) {} =
    documentsModel.key.key (warmRequest (31 / 100)) {} := by
  have hproj : projection textKeySerde (warmRequest (29 / 100)) {} =
      projection textKeySerde (warmRequest (31 / 100)) {} := by
    unfold projection tempBucket
    show Json.obj [_, _, _, _, _, _,
      ("temperature_bucket", .num ⟨asI64 (tenthBucket (29 / 100)), 0⟩), _] = _
    rw [warm_bucket]
    rfl
  show (DefaultCacheKey textKeySerde).key _ _ = (DefaultCacheKey textKeySerde).key _ _
  simp only [DefaultCacheKey, hproj]

/-- the same prompt with two temperatures of one bucket: the second call hits, and is transparent -/
theorem repeated_hit_transparent :
    ∃ (d : Done Unit (Result (DispatchOutcome String)) String Clock Inner)
      (n : NormalizedResponse (CompletionResponse String)),
      d.call = documentsCall (warmRequest (31 / 100)) ∧ d.outcome.value = .ok n ∧
        n.provenance.cacheHit = true ∧
        ∃ outcome, readsDocuments (warmRequest (31 / 100)) = .ok outcome ∧
          n.response = outcome.response := by
  let ask (temperature : F64) : Ask × Clock := (⟨warmRequest temperature, {}⟩, ⟨0, 0⟩)
  obtain ⟨k, nw, hk, hst, -⟩ := documentsCall_stored (warmRequest (29 / 100))
  obtain ⟨dw, dd, n, h, hcall, hv, hit, -⟩ := documentsModel.hit_after_stored
    (d := documentsCall (warmRequest (31 / 100))) textResponseSerde_roundTrips hst
    (warm_key.symm.trans hk) rfl
  have hcovers : documentsModel.Covers textKeySerde (ask (29 / 100)).1 (ask (31 / 100)).1 := by
    intro _ _ _ stats req hc
    cases hc
    refine ⟨_, _, rfl, ?_⟩
    show (_, some (tenthBucket (29 / 100))) = (_, some (tenthBucket (31 / 100)))
    rw [warm_bucket]
    rfl
  obtain ⟨hall, -⟩ := documentsModel.hit_transparent rfl textKeySerde_injective
    textResponseSerde_roundTrips [ask (29 / 100), ask (31 / 100)]
  obtain ⟨stats, req, outcome, hc, hD, hn⟩ := hall (List.pairwise_pair.mpr hcovers)
    InMemoryCache.unbounded readsDocuments readsDocuments_seesBucket _ dd _ n h hv hit
  rw [hcall] at hc
  cases hc
  exact ⟨dd, n, hcall, hv, hit, outcome, hD, hn⟩

def documentRequest (text : String) : CompletionRequest :=
  { promptRequest "hi" with documents := [⟨"doc", text, .null⟩] }

/-- **The documents are not in the key.**  Two calls differ only in their document; the second is
served the answer to the first, and its own request would have been answered otherwise. -/
theorem documents_ignored :
    ∃ (D : CompletionRequest → Result (DispatchOutcome String))
      (calls : List (Call Unit (Result (DispatchOutcome String)) Clock))
      (ds ds' : List (Done Unit (Result (DispatchOutcome String)) String Clock Inner))
      (d : Done Unit (Result (DispatchOutcome String)) String Clock Inner)
      (n : NormalizedResponse (CompletionResponse String)),
      SeesBucket D ∧ (∀ call ∈ calls, call.provider = fun _ r => D r) ∧
      (textModel Dispatcher.mk (DefaultCacheKey textKeySerde) AcceptAllValidator).runCalls
        (InMemoryCache InMemoryCache.unbounded) calls InMemoryCache.init = ds ++ d :: ds' ∧
      d.outcome.value = .ok n ∧ n.provenance.cacheHit = true ∧
      ∃ outcome, D d.call.ask.request = .ok outcome ∧ n.response ≠ outcome.response := by
  obtain ⟨k, nw, hk, hst, hnw⟩ := documentsCall_stored (documentRequest "old")
  obtain ⟨dw, dd, n, h, hcall, hv, hit, hn⟩ := documentsModel.hit_after_stored
    (d := documentsCall (documentRequest "new")) textResponseSerde_roundTrips hst hk rfl
  refine ⟨readsDocuments, _, _, _, dd, n, readsDocuments_seesBucket, ?_, h, hv, hit, _,
    by rw [hcall]; rfl, ?_⟩
  · intro c hc
    rcases List.mem_cons.mp hc with rfl | hc
    · rfl
    · rw [List.mem_singleton.mp hc]
      rfl
  · rw [hn, hnw]
    intro he
    have hraw : "old" = "new" := congrArg CompletionResponse.rawResponse he
    exact absurd hraw (by decide)

end Tokudo
