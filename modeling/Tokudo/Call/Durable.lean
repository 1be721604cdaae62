import Tokudo.Call.Lineage
import Tokudo.Cache.Separation

/-!
# Calls on the durable cache

`model.rs` over `cache/memvid.rs`: any number of calls on one model with a `MemvidSemanticCache`, in
any interleaving.  The store keeps its frames when the process ends, so a run may find frames of an
earlier one; from one search to the next it may rank them in any way, as long as it returns what is
stored (`LawfulStore`).

* `served_frame`           what a call reads is an entry that was put before, or a frame of an
                           earlier run;
* `durable_hit_sound`      **so a hit is a response that some call got from its dispatcher, if the keys
                           have no brace** (digests have none);
* `semantic_keys_miss`     **under `SemanticCacheKey` no call hits**: every call that returns `Ok` has
                           asked its dispatcher.
-/

namespace Tokudo
open Effect

variable {L A R M ι : Type}

/-- a store that returns what is stored -/
abbrev LawfulStore := {store : MemvidStore // store.Lawful}

/-- the cache over some such store; every operation may find another one -/
def durable (serde : MemvidSerde) (config : MemvidSemanticCacheConfig) (store : LawfulStore) :
    Cache (List String) := MemvidSemanticCache serde config store.1

section
variable {serde : MemvidSerde} {config : MemvidSemanticCacheConfig} {s t : List String}

/-! ## the frames -/

/-- a step leaves the frames as they are, or appends the one that is put -/
theorem frames_of_step {e : Event (Eff L A)} (h : serve (durable serde config) s e t) :
    t = s ∨ ∃ k entry text, e = evPut k entry (.ok ()) ∧
      encodeCacheFrame serde.frame k entry = .ok text ∧ t = s ++ [text] := by
  obtain ⟨o, r⟩ := e
  obtain ⟨⟨store, hstore⟩, provider, hop⟩ := h
  have hr : (handler (durable serde config ⟨store, hstore⟩) provider o s).1 = r :=
    congrArg Prod.fst hop
  have ht : (handler (durable serde config ⟨store, hstore⟩) provider o s).2 = t :=
    congrArg Prod.snd hop
  cases o with
  | cacheGet k =>
    left
    rw [← ht]
    show ((MemvidSemanticCache serde config store).get k s).2 = s
    unfold MemvidSemanticCache
    dsimp only
    cases store.search (searchRequest config k) s <;> rfl
  | cachePut k entry =>
    have hput : (MemvidSemanticCache serde config store).put k entry s = (r, t) := hop
    cases r with
    | error e =>
      left
      exact memvid_put_error hput
    | ok u =>
      obtain ⟨text, hencode, hts⟩ := memvid_put_ok hput
      exact .inr ⟨k, entry, text, rfl, hencode, hts⟩
  | callStart leg request => exact .inl ht.symm
  | callEnd leg request => exact .inl ht.symm
  | emit event => exact .inl ht.symm

/-- **A frame was there at the beginning, or was put.** -/
theorem frame_of_history {es : List (Event (Eff L A))} {text : String}
    (h : History (serve (durable serde config)) s es t) (hm : text ∈ t) :
    text ∈ s ∨ ∃ es₁ k entry es₂, es = es₁ ++ evPut k entry (.ok ()) :: es₂ ∧
      encodeCacheFrame serde.frame k entry = .ok text := by
  induction es using List.reverseRecOn generalizing t with
  | nil =>
    obtain rfl := run_nil.mp h
    exact .inl hm
  | append_singleton es e ih =>
    obtain ⟨u, hu, hlast⟩ := run_append.mp h
    have hold : text ∈ u → text ∈ s ∨ ∃ es₁ k entry es₂,
        es ++ [e] = es₁ ++ evPut k entry (.ok ()) :: es₂ ∧
          encodeCacheFrame serde.frame k entry = .ok text := by
      intro hm
      rcases ih hu hm with hs | ⟨es₁, k, entry, es₂, rfl, hencode⟩
      · exact .inl hs
      · refine .inr ⟨es₁, k, entry, es₂ ++ [e], ?_, hencode⟩
        rw [List.append_assoc, List.cons_append]
    rcases frames_of_step (run_single.mp hlast) with rfl | ⟨k, entry, text', rfl, hencode, rfl⟩
    · exact hold hm
    · rcases List.mem_append.mp hm with hm | hm
      · exact hold hm
      · rw [List.mem_singleton.mp hm]
        exact .inr ⟨es, k, entry, [], rfl, hencode⟩

/-- what a read finds is a stored frame that is served -/
theorem served_of_read {k : String} {entry : CachedEntry}
    (h : serve (A := A) (L := L) (durable serde config) s (evGet k (.ok (some entry))) t) :
    ∃ hit e, hit.text ∈ s ∧ Serves serde config hit e ∧
      entry = e.annotate (serde.asF32 (hitScore hit)) (toString hit.frameId) := by
  obtain ⟨⟨store, hstore⟩, provider, hop⟩ := h
  have hget : ((MemvidSemanticCache serde config store).get k s).1 = .ok (some entry) :=
    congrArg Prod.fst hop
  obtain ⟨hits, hhits, hfirst⟩ := (memvid_get_eq_some_iff serde config).mp hget
  obtain ⟨pre, hit, post, e, rfl, -, hserves, he⟩ :=
    (firstEntry_eq_some_iff serde config).mp hfirst
  exact ⟨hit, e, hstore _ _ _ hhits hit (List.mem_append_right _ List.mem_cons_self), hserves, he⟩

/-- hits that are no entries are not served -/
theorem firstEntry_of_unreadable {hits : List SearchHit}
    (h : ∀ hit ∈ hits, ∀ e, decodeCacheFrame serde.frame hit.text ≠ .ok e) :
    firstEntry serde config hits = none := by
  cases hfirst : firstEntry serde config hits with
  | none => rfl
  | some e =>
    obtain ⟨pre, hit, post, e', rfl, -, hserves, -⟩ :=
      (firstEntry_eq_some_iff serde config).mp hfirst
    exact absurd hserves.decoded (h hit (List.mem_append_right _ List.mem_cons_self) e')

end

namespace OptimizedModel
variable (self : OptimizedModel M R) [DispatchModel M L A R] [DecidableEq ι] {asks : ι → Ask}
  {serde : MemvidSerde} {config : MemvidSemanticCacheConfig} {s : List String}
  {log : List (ι × Event (Eff L A))}
  {c : Pool (Eff L A) ι (Result (NormalizedResponse (CompletionResponse R))) (List String)}

/-- **What a call reads** is a frame that is served; it was put before the read, or was there at the
beginning. -/
theorem served_frame (h : Exec (serve (durable serde config)) (self.start asks s) log c) {i : ι}
    {k : String} {entry : CachedEntry} {before after : List (ι × Event (Eff L A))}
    (hlog : log = before ++ (i, evGet k (.ok (some entry))) :: after) :
    ∃ hit e, Serves serde config hit e ∧
      entry = e.annotate (serde.asF32 (hitScore hit)) (toString hit.frameId) ∧
      (hit.text ∈ s ∨ ∃ x j k' e' y, before = x ++ (j, evPut k' e' (.ok ())) :: y ∧
        encodeCacheFrame serde.frame k' e' = .ok hit.text) := by
  have hhist := h.history
  rw [hlog, List.map_append, List.map_cons] at hhist
  obtain ⟨u, hbefore, hrest⟩ := run_append.mp hhist
  obtain ⟨v, hread, -⟩ := run_cons.mp hrest
  obtain ⟨hit, e, hm, hserves, he⟩ := served_of_read hread
  refine ⟨hit, e, hserves, he, ?_⟩
  rcases frame_of_history hbefore hm with hs | ⟨es₁, k', e', es₂, hes, hencode⟩
  · exact .inl hs
  · obtain ⟨x, y', rfl, -, hy'⟩ := List.map_eq_append_iff.mp hes
    obtain ⟨⟨j, ev⟩, y, rfl, rfl, -⟩ := List.map_eq_cons_iff.mp hy'
    exact .inr ⟨x, j, k', e', y, rfl, hencode⟩

/-! ## main results -/

variable [Nonempty A] [LawfulDispatch M]

/-- the source of a hit: the one that the entry names, or else the frame -/
def sourceOf (name : String) (hit : SearchHit) : String :=
  if name.isEmpty then toString hit.frameId else name

/-- **Hits of the durable cache are sound in every interleaving.**  The keys have no brace.  A hit has
read a frame that a search hit with a high enough score has found, says so, and returns the response
of the entry `e` in this frame.  The frame is one of an earlier run, or a call `j` put the entry before
the read: then the response is the one that the dispatcher of `j` gave, and the entry names the key
of `j` as its source. -/
theorem durable_hit_sound (hframe : serde.frame.Lawful) (hserde : self.serde.RoundTrips)
    (hkeys : ∀ i k, self.key.key (asks i).request (asks i).options = .ok k → '{' ∉ k.toList)
    (h : Exec (serve (durable serde config)) (self.start asks s) log c) {i : ι}
    {n : NormalizedResponse (CompletionResponse R)} (hi : c.threads i = .ret (.ok n))
    (hhit : n.provenance.cacheHit = true) :
    (asks i).options.cachePolicy = .default ∧
    ∃ hit e cached k' before after,
      log = before ++ (i, evGet k' (.ok (some
        (e.annotate (serde.asF32 (hitScore hit)) (toString hit.frameId))))) :: after ∧
      Serves serde config hit e ∧ self.decodeEntry e = .ok cached ∧
      n.response = cached.intoResponse ∧
      n.provenance.similarity = some (serde.asF32 (hitScore hit)) ∧
      n.provenance.sourceId = some (sourceOf e.sourceId hit) ∧
      (hit.text ∈ s ∨ ∃ x j k y resp, before = x ++ (j, evPut k e (.ok ())) :: y ∧
        self.Writes (asks j).request (asks j).options k e (eventsOf j x) resp ∧
        n.response = resp ∧ e.sourceId = k) := by
  have ht := self.transcript_of_return h hi
  obtain ⟨k', entry, cached, -, hr, hd, hes, rfl⟩ := self.hit_of_transcript ht hhit
  obtain ⟨before, after, hlog, -, -⟩ :=
    exists_split_of_eventsOf (show eventsOf i log = [] ++ evGet k' (.ok (some entry)) :: _ from hes)
  obtain ⟨hit, e, hserves, rfl, hsource⟩ := self.served_frame h hlog
  -- the entry is decoded from its response, which serving it leaves as it is
  have hdecode : self.decodeEntry e = .ok cached := hd
  refine ⟨allowRead_iff.mp hr, hit, e, cached, k', before, after, hlog, hserves, hdecode, rfl,
    (self.withLineage_source _ _).1, (self.withLineage_source _ _).2, ?_⟩
  rcases hsource with hs | ⟨x, j, k, e', y, rfl, hencode⟩
  · exact .inl hs
  right
  obtain ⟨resp, hw⟩ := self.writes_of_exec h
    (show log = x ++ (j, evPut k e' (.ok ())) :: (y ++ _) by rw [hlog, List.append_assoc]; rfl)
  obtain ⟨hk, -, -, -, hentry⟩ := id hw
  -- the frame of `j` is read back as its entry
  obtain ⟨text, hencode', hdecode'⟩ := decode_of_noBrace hframe k e' (hkeys j k hk)
  rw [hencode] at hencode'
  obtain rfl := Except.ok.inj hencode'
  rw [hserves.decoded] at hdecode'
  obtain rfl := Except.ok.inj hdecode'
  refine ⟨x, j, k, y, resp, rfl, hw, ?_, self.sourceId_of_entryOf hentry⟩
  rw [self.decodeEntry_of_entryOf hserde hentry] at hdecode
  cases hdecode
  rfl

def oneAsk (_ : Unit) : Ask := ⟨promptRequest "hi", {}⟩

/-- a model under digests, or under the texts themselves -/
abbrev keyedModel (key : CacheKey) : OptimizedModel (Dispatcher String) String :=
  textModel Dispatcher.mk key AcceptAllValidator

/-- a frame of an earlier run is found, and what it holds is returned -/
theorem earlier_frame_served : ∃ (text : String)
    (log : List (Unit × Event (Eff Unit (Result (DispatchOutcome String)))))
    (c : Pool (Eff Unit (Result (DispatchOutcome String))) Unit
      (Result (NormalizedResponse (CompletionResponse String))) (List String)),
    Exec (serve (durable textMemvidSerde default)) ((keyedModel preambleKey).start oneAsk [text]) log c ∧
      ∃ n hit e, c.threads () = .ret (.ok n) ∧ n.response = textResponse "one" .zero ∧
        Serves textMemvidSerde default hit e ∧ n.provenance.similarity = some (hitScore hit) ∧
        n.provenance.sourceId = some (sourceOf e.sourceId hit) := by
  let self := keyedModel preambleKey
  obtain ⟨e, he⟩ : ∃ e, self.entryOf "" (textResponse "one" .zero) = .ok e := ⟨_, rfl⟩
  obtain ⟨text, -, hdecode⟩ := decode_of_noBrace jsonFrameSerde_lawful "" e (by decide)
  let store : LawfulStore := ⟨insistentStore default text, insistentStore_lawful text⟩
  obtain ⟨e', hget, hresponse, -⟩ := insistentStore_get textMemvidSerde default
    (List.mem_singleton.mpr rfl) hdecode ""
  have h := self.exec_alone (durable textMemvidSerde default) store (replies "two") ()
    (show (self.start oneAsk [text]).threads () = self.program (oneAsk ()) from rfl)
  -- the call reads the frame, and hits
  obtain ⟨r, rest, hes, hhit⟩ := self.read_of_transcript
    (self.transcript_of_does (Prog.Runs.of_exec (handler (durable textMemvidSerde default store)
      (replies "two")) (self.program (oneAsk ())) [text])) rfl rfl
  have hhist := history_of_exec (handler (durable textMemvidSerde default store) (replies "two"))
    (self.program (oneAsk ())) [text]
  rw [hes] at hhist
  obtain ⟨u, hread, -⟩ := run_cons.mp hhist
  have hr : r = .ok (some e') := (congrArg Prod.fst hread).symm.trans hget
  have hdec : self.decodeEntry e' = .ok (.fromBorrowed (textResponse "one" .zero)) := by
    rw [← self.decodeEntry_of_entryOf textResponseSerde_roundTrips he]
    unfold decodeEntry
    rw [hresponse]
  have hvalue := hhit e' _ hr hdec
  have hret : (self.runAlone (durable textMemvidSerde default store) (replies "two") (oneAsk ()) ()
    (self.start oneAsk [text])).threads () = .ret (.ok _) := congrArg Prog.ret hvalue
  have hkeys : ∀ i k, self.key.key (oneAsk i).request (oneAsk i).options = .ok k → '{' ∉ k.toList := by
    intro i k hk
    cases hk
    show '{' ∉ "".toList
    decide
  obtain ⟨-, hit, e, cached, k', before, after, -, hserves, -, -, hsim, hsource, -⟩ :=
    self.durable_hit_sound jsonFrameSerde_lawful textResponseSerde_roundTrips hkeys h hret rfl
  exact ⟨text, _, _, h, _, hit, e, hret, rfl, hserves, hsim, hsource⟩

/-- **Under `SemanticCacheKey` no call hits.**  Its keys are JSON texts, and no frame under such a key
is read back.  A call that returns `Ok` returns what its own dispatcher has answered. -/
theorem semantic_keys_miss (hframe : serde.frame.Framed) (hresponse : serde.frame.RequiresResponse)
    {chatHistoryToValue : OneOrMany Message → Json}
    (hkey : self.key = SemanticCacheKey chatHistoryToValue serde.frame.valueToString)
    (hstart : ∀ text ∈ s, ∀ e, decodeCacheFrame serde.frame text ≠ .ok e)
    (h : Exec (serve (durable serde config)) (self.start asks s) log c) {i : ι}
    {n : NormalizedResponse (CompletionResponse R)} (hi : c.threads i = .ret (.ok n)) :
    n.provenance.cacheHit = false ∧
      ∃ req ds outcome, Does (DispatchModel.dispatch self.model req) ds (.ok outcome) ∧
        ds <:+: eventsOf i log ∧ n.response = outcome.response := by
  have hmiss : n.provenance.cacheHit = false := by
    by_contra hhit
    obtain ⟨k', entry, cached, before, after, -, -, -, hlog, -, -⟩ :=
      self.read_of_hit h hi (Bool.eq_true_of_not_eq_false hhit)
    obtain ⟨hit, e, hserves, -, hs | ⟨x, j, k, e', y, rfl, hencode⟩⟩ := self.served_frame h hlog
    · exact hstart _ hs e hserves.decoded
    · obtain ⟨resp, hk, -⟩ := self.writes_of_exec h
        (show log = x ++ (j, evPut k e' (.ok ())) :: (y ++ _) by rw [hlog, List.append_assoc]; rfl)
      rw [hkey] at hk
      exact unreadable_of_projection hframe hresponse
        ⟨(asks j).request, (asks j).options, e'⟩ ⟨k, hk, hencode⟩ e hserves.decoded
  refine ⟨hmiss, ?_⟩
  obtain ⟨k, stats, req, ds, outcome, -, -, hdoes, hin, hn, -⟩ :=
    self.answer_of_transcript (self.transcript_of_return h hi) hmiss
  refine ⟨req, ds, outcome, hdoes, hin, ?_⟩
  rw [hn]
  rfl

/-- a store that finds every frame -/
def findsAll : LawfulStore where
  val :=
    { search := fun _ frames => .ok (frames.map fun text => ⟨0, text, none, 0⟩)
      putText := fun _ _ _ => .ok () }
  property := by
    intro request frames hits h hit hm
    obtain rfl : frames.map (fun text => ⟨0, text, none, 0⟩) = hits := Except.ok.inj h
    obtain ⟨text, htext, rfl⟩ := List.mem_map.mp hm
    exact htext

abbrev semanticModel : OptimizedModel (Dispatcher String) String :=
  keyedModel textSemanticKey

def sameAsk (_ : Bool) : Ask := ⟨promptRequest "hi", {}⟩

/-- the first of two calls has stored a frame -/
def afterFirst : Pool (Eff Unit (Result (DispatchOutcome String))) Bool
    (Result (NormalizedResponse (CompletionResponse String))) (List String) :=
  semanticModel.runAlone (durable textMemvidSerde default findsAll) (replies "one") (sameAsk false)
    false (semanticModel.start sameAsk [])

/-- the same request twice, under its own text: the search of the second call finds the frame of the
first, and the call asks the dispatcher nevertheless -/
theorem semantic_call_misses : ∃ (text : String)
    (log : List (Bool × Event (Eff Unit (Result (DispatchOutcome String)))))
    (c : Pool (Eff Unit (Result (DispatchOutcome String))) Bool
      (Result (NormalizedResponse (CompletionResponse String))) (List String)),
    afterFirst.shared = [text] ∧
      Exec (serve (durable textMemvidSerde default)) (semanticModel.start sameAsk []) log c ∧
      ∃ n, c.threads true = .ret (.ok n) ∧ n.response = textResponse "two" .zero ∧
        n.provenance.cacheHit = false := by
  let self := semanticModel
  have h₁ : Exec (serve (durable textMemvidSerde default)) (self.start sameAsk []) _ afterFirst :=
    self.exec_alone (durable textMemvidSerde default) findsAll (replies "one") false rfl
  have h₂ := self.exec_alone (durable textMemvidSerde default) findsAll (replies "two") true
    (show afterFirst.threads true = self.program (sameAsk true) from rfl)
  have hframe : ∃ key entry text, self.key.key (promptRequest "hi") {} = .ok key ∧
      self.entryOf key (textResponse "one" .zero) = .ok entry ∧
      encodeCacheFrame jsonFrameSerde key entry = .ok text ∧ afterFirst.shared = [text] :=
    ⟨_, _, _, rfl, rfl, rfl, rfl⟩
  obtain ⟨key, entry, text, hkey, -, hencode, hshared⟩ := hframe
  -- the second call reads the frame, and does not find an entry in it
  have hnone : firstEntry textMemvidSerde default [⟨0, text, none, 0⟩] = none := by
    apply firstEntry_of_unreadable
    intro hit hm e
    rw [List.mem_singleton.mp hm]
    exact unreadable_of_projection (show textMemvidSerde.frame.Framed from jsonFrameSerde_lawful.framed)
      jsonFrameSerde_requiresResponse ⟨promptRequest "hi", {}, entry⟩ ⟨key, hkey, hencode⟩ e
  have hget : (durable textMemvidSerde default findsAll).get key [text] = (.ok none, [text]) :=
    congrArg (fun found => (Except.ok found, [text])) hnone
  cases hkey
  have hvalue : ∃ n, (self.outcomeOf (durable textMemvidSerde default findsAll) (replies "two")
      (sameAsk true) afterFirst.shared).value = .ok n ∧ n.response = textResponse "two" .zero := by
    rw [hshared]
    exact ⟨_, (value_exec_ask _ _ hget).trans rfl, rfl⟩
  obtain ⟨n, hn, hresponse⟩ := hvalue
  have hreturn : (self.runAlone (durable textMemvidSerde default findsAll) (replies "two")
      (sameAsk true) true afterFirst).threads true = .ret (.ok n) := congrArg Prog.ret hn
  obtain ⟨hmiss, -⟩ := self.semantic_keys_miss jsonFrameSerde_lawful.framed
    jsonFrameSerde_requiresResponse rfl (fun text hm => absurd hm List.not_mem_nil) (h₁.trans h₂)
    hreturn
  exact ⟨text, _, _, hshared, h₁.trans h₂, n, hreturn, hresponse, hmiss⟩

end OptimizedModel

end Tokudo
