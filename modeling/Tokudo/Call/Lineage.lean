import Tokudo.Call.Concurrent
import Tokudo.Call.Legs

/-!
# The audit trail of concurrent calls

With the `lineage` feature every served response leaves an edge: of a hit, from the entry to the
response; of an answer, from the request to the response.

* `edges_of_transcript`   the edges of one call;
* `edge_of_return`        **a call that has returned has emitted the edge that its provenance
                          carries, and no other**;
* `hit_edge_traced`       **the edge of a hit leads back to the edge of the provider call that the
                          response came from**, in every interleaving.
-/

namespace Tokudo
open Effect

variable {L A R M σ ι : Type}

/-- the edge, if the operation emits one -/
def Op.edge : Op L → Option LineageEdge
  | .emit (.lineageEdge edge) => some edge
  | _ => none

/-- the edges of a run, in order -/
def edgesOf (es : List (Event (Eff L A))) : List LineageEdge := es.filterMap fun e => e.op.edge

abbrev evEdge (edge : LineageEdge) : Event (Eff L A) := evEmit (.lineageEdge edge)

theorem edgesOf_append (es fs : List (Event (Eff L A))) :
    edgesOf (es ++ fs) = edgesOf es ++ edgesOf fs := List.filterMap_append

theorem mem_edgesOf {edge : LineageEdge} {es : List (Event (Eff L A))} :
    edge ∈ edgesOf es ↔ evEdge edge ∈ es := by
  constructor
  · intro h
    obtain ⟨⟨o, r⟩, hm, he⟩ := List.mem_filterMap.mp h
    cases o with
    | emit event =>
      cases event with
      | lineageEdge edge' =>
        cases he
        exact hm
      | _ => cases he
    | _ => cases he
  · intro h
    exact List.mem_filterMap.mpr ⟨_, h, rfl⟩

/-- the edge tells of a response under the key `k`, and of its provenance -/
structure LineageEdge.Records (edge : LineageEdge) (k : String) (modelName : Option String)
    (n : NormalizedResponse (CompletionResponse R)) : Prop where
  cacheKey : edge.cacheKey = k
  model : edge.model = modelName
  sourceId : edge.sourceId = n.provenance.sourceId.getD k
  targetId : edge.targetId = n.response.messageId.getD k
  routerChoice : edge.routerChoice = n.provenance.routerChoice
  relation : edge.relation = .cacheHit ↔ n.provenance.cacheHit = true

/-- a dispatcher leaves the edges to the decorator -/
class UntracedDispatch (M : Type) {L A R : outParam Type} [DispatchModel M L A R] : Prop where
  untraced : ∀ {m : M} {request : CompletionRequest} {es : List (Event (Eff L A))}
    {b : Result (DispatchOutcome R)}, Does (DispatchModel.dispatch m request) es b →
      edgesOf es = []

instance : UntracedDispatch (Dispatcher R) where
  untraced h := by
    rw [does_dispatcher.mp h]
    rfl

instance : UntracedDispatch (PlainModel R) where
  untraced h := by
    rcases does_plainModel.mp h with ⟨e, rfl, -⟩ | ⟨resp, rfl, -⟩ <;> rfl

instance : UntracedDispatch (StaticCascade R) where
  untraced h := by
    cases StaticCascade.legs_of_dispatch _ h <;> rfl

namespace OptimizedModel
variable (self : OptimizedModel M R)

/-! ## the edges of one call -/

theorem edgesOf_missEvents (options : TokudoOptions) (k : String) :
    edgesOf (missEvents options k : List (Event (Eff L A))) = [] := by
  unfold missEvents
  split <;> rfl

theorem edgesOf_compressEvents (stats : Option CompressionStats) :
    edgesOf (compressEvents stats : List (Event (Eff L A))) = [] := by
  cases stats <;> rfl

theorem edgesOf_routeEvents (request : CompletionRequest) (options : TokudoOptions) :
    edgesOf (self.routeEvents request options : List (Event (Eff L A))) = [] := by
  unfold routeEvents
  split <;> rfl

theorem edgesOf_lineageEvents (edge : Sha256Hex → LineageEdge) :
    edgesOf (self.lineageEvents edge : List (Event (Eff L A))) = (self.lineage.map edge).toList := by
  unfold lineageEvents
  cases self.lineage <;> rfl

theorem edgesOf_hitEvents (modelName : Option String) (k : String) (entry : CachedEntry)
    (cached : CachedCompletionResponse R) :
    edgesOf (self.hitEvents modelName k entry cached : List (Event (Eff L A))) =
      (self.lineage.map (hitEdge modelName k entry cached)).toList := by
  unfold hitEvents
  rw [edgesOf_append, edgesOf_lineageEvents]
  rfl

theorem edgesOf_callEvents (modelName : Option String) (k : String) (choice : RouterChoice)
    (resp : CompletionResponse R) :
    edgesOf (self.callEvents modelName k choice resp : List (Event (Eff L A))) =
      (self.lineage.map (callEdge modelName k choice resp)).toList := by
  unfold callEvents
  rw [edgesOf_append, edgesOf_lineageEvents]
  show _ ++ [] = _
  rw [List.append_nil]

theorem edgesOf_ending {options : TokudoOptions} {k : String} {resp : CompletionResponse R}
    {es : List (Event (Eff L A))} {r : Result Unit} (h : self.Ending options k resp es r) :
    edgesOf es = [] := by
  cases h <;> rfl

theorem lineage_withLineage (provenance : Provenance) (edge : Sha256Hex → LineageEdge)
    (h : provenance.lineage = none) :
    (self.withLineage provenance edge).lineage = self.lineage.map edge := by
  unfold withLineage
  cases self.lineage with
  | none => exact h
  | some sha => rfl

variable [DispatchModel M L A R]

/-- **The edges of one call**: none, that of the hit, or that of the provider call. -/
theorem edges_of_transcript [UntracedDispatch M] {request : CompletionRequest}
    {options : TokudoOptions} {es : List (Event (Eff L A))}
    {a : Result (NormalizedResponse (CompletionResponse R))}
    (h : self.Transcript request options es a) :
    (edgesOf es = [] ∧ ∃ e, a = .error e) ∨
    (∃ k entry cached, self.key.key request options = .ok k ∧ self.decodeEntry entry = .ok cached ∧
      es = evGet k (.ok (some entry)) :: self.hitEvents request.model k entry cached ∧
      edgesOf es = (self.lineage.map (hitEdge request.model k entry cached)).toList ∧
      a = .ok (self.hitResponse request.model k entry cached)) ∨
    (∃ k ratio choice resp, self.key.key request options = .ok k ∧
      edgesOf es = (self.lineage.map (callEdge request.model k choice resp)).toList ∧
      ∀ n, a = .ok n → n = self.callResponse request.model k ratio choice resp) := by
  cases h with
  | keyError hk => exact .inl ⟨rfl, _, rfl⟩
  | readError hk hr => exact .inl ⟨rfl, _, rfl⟩
  | undecodable hk hr hd => exact .inl ⟨rfl, _, rfl⟩
  | @hit k entry cached hk hr hd =>
    exact .inr (.inl ⟨k, entry, cached, hk, hd, rfl, self.edgesOf_hitEvents _ _ _ _, rfl⟩)
  | compressError hk hc => exact .inl ⟨edgesOf_missEvents _ _, _, rfl⟩
  | @dispatchError k stats req ds e hk hc hd =>
    refine .inl ⟨?_, e, rfl⟩
    rw [edgesOf_append, edgesOf_append, edgesOf_append, edgesOf_missEvents,
      edgesOf_compressEvents, edgesOf_routeEvents, UntracedDispatch.untraced hd]
    rfl
  | @answered k stats req ds fs outcome r hk hc hd he =>
    refine .inr (.inr ⟨k, stats.bind CompressionStats.ratio,
      outcome.route.getD (self.hint req options), outcome.response, hk, ?_, ?_⟩)
    · rw [edgesOf_append, edgesOf_append, edgesOf_append, edgesOf_append, edgesOf_append,
        edgesOf_missEvents, edgesOf_compressEvents, edgesOf_routeEvents,
        UntracedDispatch.untraced hd, edgesOf_callEvents, self.edgesOf_ending he, List.append_nil]
      rfl
    · intro n hn
      cases r with
      | error e => cases hn
      | ok u =>
        cases hn
        rfl

/-- a hit edge is that of the entry that the call read, first of all -/
theorem read_of_hit_edge [UntracedDispatch M] {request : CompletionRequest}
    {options : TokudoOptions} {es : List (Event (Eff L A))}
    {a : Result (NormalizedResponse (CompletionResponse R))}
    (h : self.Transcript request options es a) {edge : LineageEdge} (hm : evEdge edge ∈ es)
    (hrel : edge.relation = .cacheHit) :
    ∃ sha k entry cached rest, self.lineage = some sha ∧ es = evGet k (.ok (some entry)) :: rest ∧
      self.decodeEntry entry = .ok cached ∧ edge = hitEdge request.model k entry cached sha := by
  have hedge := mem_edgesOf.mpr hm
  rcases self.edges_of_transcript h with ⟨hnone, -⟩ | ⟨k, entry, cached, -, hd, hes, hedges, -⟩ |
    ⟨k, ratio, choice, resp, -, hedges, -⟩
  · rw [hnone] at hedge
    cases hedge
  · rw [hedges, Option.mem_toList] at hedge
    obtain ⟨sha, hsha, rfl⟩ := Option.map_eq_some_iff.mp hedge
    exact ⟨sha, k, entry, cached, _, hsha, hes, hd, rfl⟩
  · rw [hedges, Option.mem_toList] at hedge
    obtain ⟨sha, -, rfl⟩ := Option.map_eq_some_iff.mp hedge
    cases hrel

/-- up to the dispatcher's answer a call writes nothing -/
theorem put_notMem_attempt [LawfulDispatch M] {request req : CompletionRequest}
    {options : TokudoOptions} {k : String} (hk : self.key.key request options = .ok k)
    (stats : Option CompressionStats) {ds : List (Event (Eff L A))}
    {b : Result (DispatchOutcome R)} (hd : Does (DispatchModel.dispatch self.model req) ds b)
    {k' : String} {e : CachedEntry} {r : Result Unit} :
    evPut k' e r ∉ missEvents options k ++ compressEvents stats ++ self.routeEvents req options ++
      ds := by
  obtain ⟨reads, off, hm, hreads, hoff⟩ := self.miss_anatomy (L := L) (A := A) hk
  have hrest := ((hoff.append (offCache_of_reports (reports_compressEvents stats))).append
    (offCache_of_reports (self.reports_routeEvents req options))).append
      (LawfulDispatch.offCache hd)
  rw [hm]
  simpa only [List.append_assoc] using self.put_notMem_of_reads hreads hrest

/-- right before a write comes the record of the provider call -/
theorem callEvents_before_put [LawfulDispatch M] {request : CompletionRequest}
    {options : TokudoOptions} {es : List (Event (Eff L A))}
    {a : Result (NormalizedResponse (CompletionResponse R))}
    (h : self.Transcript request options es a) {k : String} {e : CachedEntry} {r : Result Unit}
    {xs ys : List (Event (Eff L A))} (hes : es = xs ++ evPut k e r :: ys) :
    ∃ choice resp, self.entryOf k resp = .ok e ∧
      self.callEvents request.model k choice resp <:+ xs := by
  have hput : evPut k e r ∈ es := hes ▸ List.mem_append_right _ List.mem_cons_self
  obtain ⟨rfl, -⟩ := self.put_of_transcript h hes
  cases h with
  | keyError hk => cases hput
  | readError hk hr => cases List.mem_singleton.mp hput
  | undecodable hk hr hd => cases List.mem_singleton.mp hput
  | hit hk hr hd =>
    rcases List.mem_cons.mp hput with hput | hput
    · cases hput
    · exact absurd hput (self.offCache_hitEvents _ _ _ _).put_notMem
  | compressError hk hc =>
    obtain ⟨reads, off, hm, hreads, hoff⟩ := self.miss_anatomy (L := L) (A := A) hk
    exact absurd (hm ▸ hput) (self.put_notMem_of_reads hreads hoff)
  | dispatchError hk hc hd => exact absurd hput (self.put_notMem_attempt hk _ hd)
  | @answered k' stats req ds fs outcome r' hk hc hd he =>
    have hfree : evPut k e r ∉ missEvents options k' ++ compressEvents stats ++
        self.routeEvents req options ++ ds ++ self.callEvents request.model k'
          (outcome.route.getD (self.hint req options)) outcome.response := by
      intro hm
      rcases List.mem_append.mp hm with hm | hm
      · exact self.put_notMem_attempt hk _ hd hm
      · exact (self.offCache_callEvents _ _ _ _).put_notMem hm
    obtain ⟨zs, rfl, hfs⟩ := append_split hfree hes
    cases he with
    | @written b entry hv hw hentry r' =>
      cases zs with
      | nil =>
        cases hfs
        rw [List.append_nil]
        exact ⟨_, _, hentry, List.suffix_append _ _⟩
      | cons z zs => simp at hfs
    | _ => simp at hfs

/-! ## the edges of a log -/

omit [DispatchModel M L A R] in
/-- an entry is named after its key -/
theorem sourceId_of_entryOf {k : String} {e : CachedEntry} {resp : CompletionResponse R}
    (h : self.entryOf k resp = .ok e) : e.sourceId = k := by
  unfold entryOf at h
  split at h
  · cases h
  · cases h
    rfl

omit [DispatchModel M L A R] in
theorem withLineage_source (provenance : Provenance) (edge : Sha256Hex → LineageEdge) :
    (self.withLineage provenance edge).similarity = provenance.similarity ∧
      (self.withLineage provenance edge).sourceId = provenance.sourceId := by
  unfold withLineage
  cases self.lineage <;> exact ⟨rfl, rfl⟩

omit [DispatchModel M L A R] in
theorem records_hitEdge (modelName : Option String) (k : String) (entry : CachedEntry)
    (cached : CachedCompletionResponse R) (sha : Sha256Hex) :
    (hitEdge modelName k entry cached sha).Records k modelName
      (self.hitResponse modelName k entry cached) := by
  unfold hitResponse withLineage
  cases self.lineage <;> exact ⟨rfl, rfl, rfl, rfl, rfl, iff_of_true rfl rfl⟩

omit [DispatchModel M L A R] in
theorem records_callEdge (modelName : Option String) (k : String) (ratio : Option F32)
    (choice : RouterChoice) (resp : CompletionResponse R) (sha : Sha256Hex) :
    (callEdge modelName k choice resp sha).Records k modelName
      (self.callResponse modelName k ratio choice resp) := by
  have hrel : ¬ LineageRelation.providerCall = .cacheHit := by decide
  have hmiss : ¬ false = true := by decide
  unfold callResponse withLineage
  cases self.lineage <;> exact ⟨rfl, rfl, rfl, rfl, rfl, iff_of_false hrel hmiss⟩

variable [DecidableEq ι] {asks : ι → Ask} {O : Object (Eff L A) σ} {s : σ}
  {log : List (ι × Event (Eff L A))}
  {d : Pool (Eff L A) ι (Result (NormalizedResponse (CompletionResponse R))) σ}

/-- **A served call has emitted the edge that its provenance carries**, and no other; it records the
response and its provenance.  Without the feature there is none. -/
theorem edge_of_return [UntracedDispatch M] (h : Exec O (self.start asks s) log d) {i : ι}
    {n : NormalizedResponse (CompletionResponse R)} (hi : d.threads i = .ret (.ok n)) :
    edgesOf (eventsOf i log) = n.provenance.lineage.toList ∧
      n.provenance.lineage.isSome = self.lineage.isSome ∧
      ∃ k, self.key.key (asks i).request (asks i).options = .ok k ∧
        ∀ edge, n.provenance.lineage = some edge → edge.Records k (asks i).request.model n := by
  rcases self.edges_of_transcript (self.transcript_of_return h hi) with
    ⟨-, e, he⟩ | ⟨k, entry, cached, hk, hd, -, hedges, hn⟩ | ⟨k, ratio, choice, resp, hk, hedges, hn⟩
  · cases he
  · cases hn
    have hline : (self.hitResponse (asks i).request.model k entry cached).provenance.lineage =
        self.lineage.map (hitEdge (asks i).request.model k entry cached) :=
      self.lineage_withLineage _ _ rfl
    rw [hedges, hline, Option.isSome_map]
    refine ⟨rfl, rfl, k, hk, fun edge he => ?_⟩
    obtain ⟨sha, -, rfl⟩ := Option.map_eq_some_iff.mp he
    exact self.records_hitEdge _ _ _ _ sha
  · obtain rfl := hn n rfl
    have hline : (self.callResponse (asks i).request.model k ratio choice resp).provenance.lineage =
        self.lineage.map (callEdge (asks i).request.model k choice resp) :=
      self.lineage_withLineage _ _ rfl
    rw [hedges, hline, Option.isSome_map]
    refine ⟨rfl, rfl, k, hk, fun edge he => ?_⟩
    obtain ⟨sha, -, rfl⟩ := Option.map_eq_some_iff.mp he
    exact self.records_callEdge _ _ _ _ _ sha

/-- with the feature on -/
abbrev tracedModel : OptimizedModel (Dispatcher String) String :=
  { textModel Dispatcher.mk preambleKey AcceptAllValidator with lineage := some hexDigest }

def twoAsks (_ : Bool) : Ask := ⟨promptRequest "hi", {}⟩

/-- a call, and then one of the same key: what the first leaves, and the log of both -/
def twoLog : List (Bool × Event (Eff Unit (Result (DispatchOutcome String)))) :=
  let cache := InMemoryCache default ⟨0, 0⟩
  let first := tracedModel.outcomeOf cache (replies "one") (twoAsks false) InMemoryCache.init
  let second := tracedModel.outcomeOf cache (replies "two") (twoAsks true) first.state
  first.events.map (fun e => (false, e)) ++ second.events.map fun e => (true, e)

theorem exec_twoAsks :
    ∃ c n, Exec (serve (InMemoryCache default)) (tracedModel.start twoAsks InMemoryCache.init)
      twoLog c ∧ c.threads true = .ret (.ok n) ∧ n.provenance.cacheHit = true := by
  let c₁ := tracedModel.runAlone (InMemoryCache default ⟨0, 0⟩) (replies "one") (twoAsks false) false
    (tracedModel.start twoAsks InMemoryCache.init)
  have h₁ : Exec (serve (InMemoryCache default)) _ _ c₁ :=
    tracedModel.exec_alone (InMemoryCache default) ⟨0, 0⟩ (replies "one") false rfl
  have h₂ := tracedModel.exec_alone (InMemoryCache default) ⟨0, 0⟩ (replies "two") true
    (show c₁.threads true = tracedModel.program (twoAsks true) from rfl)
  exact ⟨_, _, h₁.trans h₂, rfl, rfl⟩

/-- the second call hits, and has the one edge of its provenance -/
theorem second_edge_of_return :
    ∃ (edge : LineageEdge) (n : NormalizedResponse (CompletionResponse String)),
      edgesOf (eventsOf true twoLog) = [edge] ∧ edge.Records "" none n := by
  obtain ⟨c, n, h, hn, -⟩ := exec_twoAsks
  obtain ⟨hedges, hsome, k, hk, hrec⟩ := tracedModel.edge_of_return h hn
  obtain ⟨edge, he⟩ := Option.isSome_iff_exists.mp hsome
  cases hk
  rw [he] at hedges
  exact ⟨edge, n, hedges, hrec edge he⟩

variable [Nonempty A] [LawfulDispatch M] [UntracedDispatch M] {config : InMemoryCacheConfig}
  {c : Pool (Eff L A) ι (Result (NormalizedResponse (CompletionResponse R))) Inner}

/-- **The edge of a hit leads back to its provider call.**  Before the edge of a hit the log has, of
the call that wrote the entry, the edge of its provider call: of the same key, the same source and
the same response id.  After it that call has written, and nothing else was written to the key until
the hit. -/
theorem hit_edge_traced (hserde : self.serde.RoundTrips)
    (h : Exec (serve (InMemoryCache config)) (self.start asks InMemoryCache.init) log c) {i : ι}
    {edge : LineageEdge} {before after : List (ι × Event (Eff L A))}
    (hlog : log = before ++ (i, evEdge edge) :: after) (hrel : edge.relation = .cacheHit) :
    ∃ x j origin y e r z, before = x ++ (j, evEdge origin) :: y ++ (j, evPut edge.cacheKey e r) :: z ∧
      origin.relation = .providerCall ∧ origin.cacheKey = edge.cacheKey ∧
      origin.sourceId = edge.sourceId ∧ origin.targetId = edge.targetId ∧
      ∃ z₁ z₂ found, z = z₁ ++ (i, evGet edge.cacheKey found) :: z₂ ∧
        ∀ l e' r', (l, evPut edge.cacheKey e' r') ∉ z₁ := by
  obtain ⟨fs, a, ht⟩ := self.transcript_of_exec h i
  have hevents : eventsOf i log = eventsOf i before ++ evEdge edge :: eventsOf i after := by
    rw [hlog, eventsOf_split]
  have hm : evEdge edge ∈ eventsOf i log ++ fs := by
    rw [hevents]
    simp
  obtain ⟨sha, k, entry, cached, rest, hsha, hes, hd, rfl⟩ := self.read_of_hit_edge ht hm hrel
  -- the read comes first
  have hfirst : ∃ rest', eventsOf i before = [] ++ evGet k (.ok (some entry)) :: rest' := by
    rw [hevents, List.append_assoc] at hes
    cases hb : eventsOf i before with
    | nil =>
      rw [hb] at hes
      cases (List.cons.inj hes).1
    | cons ev rest' =>
      rw [hb] at hes
      obtain ⟨rfl, -⟩ := List.cons.inj hes
      exact ⟨rest', rfl⟩
  obtain ⟨rest', hfirst⟩ := hfirst
  obtain ⟨b₁, b₂, rfl, -, -⟩ := exists_split_of_eventsOf hfirst
  rw [List.append_assoc, List.cons_append] at hlog
  obtain ⟨x, j, e, resp, ⟨r, y, rfl, hlast⟩, he, hw⟩ := self.write_of_read h hlog
  -- before the write comes the edge of the provider call
  obtain ⟨fs', a', ht'⟩ := self.transcript_of_exec h j
  rw [hlog, List.append_assoc, List.cons_append, eventsOf_split, List.append_assoc,
    List.cons_append] at ht'
  obtain ⟨choice, resp', hentry, pre, hpre⟩ := self.callEvents_before_put ht' rfl
  have hrecord : eventsOf j x = pre ++ evEdge (callEdge (asks j).request.model k choice resp' sha) ::
      [evEmit (self.costEvent (asks j).request.model resp')] := by
    rw [← hpre, callEvents, lineageEvents, hsha]
    rfl
  obtain ⟨x, y', rfl, -, -⟩ := exists_split_of_eventsOf hrecord
  have hsource : entry.sourceId = k := by
    have hsame : (undated entry).sourceId = (undated e).sourceId := by rw [he]
    have hname : e.sourceId = k := self.sourceId_of_entryOf hentry
    exact hsame.trans hname
  have htarget : cached.messageId = resp'.messageId := by
    rw [← self.decode_of_entryOf hserde hentry he hd]
    rfl
  refine ⟨x, j, callEdge (asks j).request.model k choice resp' sha, y', e, r, _, ?_, rfl, rfl,
    hsource.symm, ?_, y, b₂, .ok (some entry), rfl, hlast⟩
  · simp only [List.append_assoc, List.cons_append]
    rfl
  · show resp'.messageId.getD k = cached.messageId.getD k
    rw [htarget]

/-- the edge of the second call leads back to the call of the first -/
theorem second_edge_traced :
    ∃ x j origin y, twoLog = x ++ (j, evEdge origin) :: y ∧ origin.relation = .providerCall := by
  obtain ⟨c, n, h, -⟩ := exec_twoAsks
  have hlog : twoLog =
      twoLog.dropLast ++ [(true, evEdge (.cacheHit hexDigest "" "" "" none))] := rfl
  obtain ⟨x, j, origin, y, e, r, z, hbefore, hrel, -⟩ :=
    tracedModel.hit_edge_traced textResponseSerde_roundTrips h hlog rfl
  rw [hbefore, List.append_assoc, List.append_assoc, List.cons_append] at hlog
  exact ⟨x, j, origin, _, hlog, hrel⟩

end OptimizedModel

end Tokudo
