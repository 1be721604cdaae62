import Tokudo.Call.World
import Tokudo.Cache.Memory
import Tokudo.Core.TextSerde

/-!
# Concurrent calls on one model

Any number of calls of `complete` share one `OptimizedModel`.  A step is one operation of one call:
an atomic read or write of the cache, the begin and the end of a dispatch, an event.  `Exec` is any
interleaving of them, `log` lists its steps.

* `current_of_history`     what `InMemoryCache` returns was written by the latest write to the key;
* `hit_sound`              **a hit returns what the latest write to its key carries**, and the call
                           that wrote it had been answered and was allowed to write;
* `refresh_kept`           **after a refresh has returned, nothing that was stored before the
                           refresh stored its own response is served.**
-/

namespace Tokudo
open Effect Store

variable {L A R M σ ω ι : Type}

/-! ## reads of the shared cache -/

/-- an entry without its deadline -/
def undated (e : CachedEntry) : CachedEntry := { e with expiresAtSecs := none }

theorem undated_stamp (config : InMemoryCacheConfig) (now : Nat) (e : CachedEntry) :
    undated (InMemoryCache.stamp config now e) = undated e := by
  unfold InMemoryCache.stamp
  split <;> rfl

def undatedContents (inner : Inner) (k : String) : Option CachedEntry :=
  (InMemoryCache.contents inner k).map undated

def writeOf : Event (Eff L A) → Option (String × CachedEntry)
  | ⟨.cachePut k e, _⟩ => some (k, undated e)
  | _ => none

theorem serve_good {config : InMemoryCacheConfig} {s t : Inner} {e : Event (Eff L A)}
    (h : serve (InMemoryCache config) s e t) (hs : InMemoryCache.Good config.maxEntries s) :
    InMemoryCache.Good config.maxEntries t := by
  obtain ⟨clock, provider, h⟩ := h
  obtain ⟨o, r⟩ := e
  have ht : (handler (InMemoryCache config clock) provider o s).2 = t := congrArg Prod.snd h
  rw [← ht]
  cases o with
  | cacheGet k => exact InMemoryCache.get_good hs clock.get k
  | cachePut k entry => exact InMemoryCache.put_good hs clock.put k entry
  | callStart leg request => exact hs
  | callEnd leg request => exact hs
  | emit event => exact hs

theorem serve_lossy {config : InMemoryCacheConfig} {s t : Inner} {e : Event (Eff L A)}
    (h : serve (InMemoryCache config) s e t) (hs : InMemoryCache.Good config.maxEntries s) :
    Lossy (writeOf e) (undatedContents s) (undatedContents t) := by
  obtain ⟨clock, provider, h⟩ := h
  obtain ⟨o, r⟩ := e
  have ht : (handler (InMemoryCache config clock) provider o s).2 = t := congrArg Prod.snd h
  rw [← ht]
  cases o with
  | cacheGet k => exact (InMemoryCache.get_lossy hs clock.get k).map undated
  | cachePut k entry =>
    have hput := (InMemoryCache.put_lossy hs clock.put k entry).map undated
    rw [Option.map_some, undated_stamp] at hput
    exact hput
  | callStart leg request => exact .unchanged _
  | callEnd leg request => exact .unchanged _
  | emit event => exact .unchanged _

/-- **What a read returns is what the latest write to its key wrote**, but for the deadline. -/
theorem current_of_history {config : InMemoryCacheConfig} {es : List (Event (Eff L A))} {k : String}
    {entry : CachedEntry} {t : Inner}
    (h : History (serve (InMemoryCache config)) InMemoryCache.init
      (es ++ [evGet k (.ok (some entry))]) t) :
    ∃ es₁ e r es₂, es = es₁ ++ evPut k e r :: es₂ ∧ (∀ e' r', evPut k e' r' ∉ es₂) ∧
      undated entry = undated e := by
  obtain ⟨s, hes, hget⟩ := run_append.mp h
  rw [run_single] at hget
  obtain ⟨clock, provider, hget⟩ := hget
  have hans : Except.ok (InMemoryCache.get clock.get k s).1 = .ok (some entry) :=
    congrArg Prod.fst hget
  obtain ⟨hstored, -⟩ := InMemoryCache.get_eq_some (Except.ok.inj hans)
  obtain ⟨es₁, ⟨o, r⟩, es₂, rfl, hw, hn⟩ := current_of_lossy undatedContents writeOf
    (InMemoryCache.Good config.maxEntries) (fun _ _ _ he hg => serve_good he hg)
    (fun _ _ _ he hg => serve_lossy he hg) hes InMemoryCache.init_good []
    (fun k v hv => by simp [undatedContents, InMemoryCache.contents_init] at hv) k (undated entry)
    (by simp [undatedContents, hstored])
  cases o with
  | cachePut k' e =>
    obtain ⟨rfl, he⟩ := Prod.mk.inj (Option.some.inj hw)
    exact ⟨es₁, e, r, es₂, rfl, fun e' r' hm => hn _ hm (undated e') rfl, he.symm⟩
  | cacheGet k' => cases hw
  | callStart leg request => cases hw
  | callEnd leg request => cases hw
  | emit event => cases hw

/-! ## the calls -/

structure Ask where
  request : CompletionRequest
  options : TokudoOptions

/-- the latest write to `k` in the log is `e`, by call `j`, after `x` -/
def LatestWrite (k : String) (j : ι) (e : CachedEntry) (x log : List (ι × Event (Eff L A))) : Prop :=
  ∃ r y, log = x ++ (j, evPut k e r) :: y ∧ ∀ i e' r', (i, evPut k e' r') ∉ y

namespace OptimizedModel
variable (self : OptimizedModel M R) [DispatchModel M L A R]

def program (ask : Ask) : Prog (Eff L A) (Result (NormalizedResponse (CompletionResponse R))) :=
  ExceptT.run (self.complete ask.request ask.options)

/-- any number of calls, none of them begun -/
def start (asks : ι → Ask) (s : σ) :
    Pool (Eff L A) ι (Result (NormalizedResponse (CompletionResponse R))) σ :=
  ⟨fun i => self.program (asks i), s⟩

variable [DecidableEq ι] {asks : ι → Ask} {O : Object (Eff L A) σ} {s : σ}
  {log : List (ι × Event (Eff L A))}
  {d : Pool (Eff L A) ι (Result (NormalizedResponse (CompletionResponse R))) σ}

def outcomeOf (cache : Cache σ) (provider : L → CompletionRequest → A) (ask : Ask) (s : σ) :
    Outcome (Eff L A) (Result (NormalizedResponse (CompletionResponse R))) σ :=
  exec (handler cache provider) (self.program ask) s

def runAlone (cache : Cache σ) (provider : L → CompletionRequest → A) (ask : Ask) (i : ι)
    (c : Pool (Eff L A) ι (Result (NormalizedResponse (CompletionResponse R))) σ) :
    Pool (Eff L A) ι (Result (NormalizedResponse (CompletionResponse R))) σ where
  threads := Function.update c.threads i (.ret (self.outcomeOf cache provider ask c.shared).value)
  shared := (self.outcomeOf cache provider ask c.shared).state

theorem exec_alone (backend : ω → Cache σ) (env : ω) (provider : L → CompletionRequest → A) (i : ι)
    {ask : Ask} {c : Pool (Eff L A) ι (Result (NormalizedResponse (CompletionResponse R))) σ}
    (hi : c.threads i = self.program ask) :
    Exec (serve backend) c
      ((self.outcomeOf (backend env) provider ask c.shared).events.map fun e => (i, e))
      (self.runAlone (backend env) provider ask i c) :=
  .alone hi (steps_of_exec _ _ _) (serve_of_handler (history_of_exec _ _ _))

theorem transcript_of_return (h : Exec O (self.start asks s) log d) {i : ι}
    {a : Result (NormalizedResponse (CompletionResponse R))} (hi : d.threads i = .ret a) :
    self.Transcript (asks i).request (asks i).options (eventsOf i log) a := by
  have hs := h.steps i
  rw [hi] at hs
  exact self.transcript_of_does hs.runs_of_ret

/-- what a call has done so far is the begin of a transcript -/
theorem transcript_of_exec [Nonempty A] (h : Exec O (self.start asks s) log d) (i : ι) :
    ∃ fs a, self.Transcript (asks i).request (asks i).options (eventsOf i log ++ fs) a := by
  have hne : ∀ o : Op L, Nonempty (Op.Ret A o) := by
    intro o
    cases o with
    | cacheGet k => exact ⟨.ok none⟩
    | cachePut k e => exact ⟨.ok ()⟩
    | callStart leg request => exact ⟨()⟩
    | callEnd leg request => exact (inferInstance : Nonempty A)
    | emit event => exact ⟨()⟩
  obtain ⟨fs, a, hr⟩ := (h.steps i).extend
  exact ⟨fs, a, self.transcript_of_does hr⟩

/-- **A write in the log** was made by a call whose dispatcher had answered before. -/
theorem writes_of_exec [Nonempty A] [LawfulDispatch M] (h : Exec O (self.start asks s) log d)
    {x y : List (ι × Event (Eff L A))} {j : ι} {k : String} {e : CachedEntry} {r : Result Unit}
    (hlog : log = x ++ (j, evPut k e r) :: y) :
    ∃ resp, self.Writes (asks j).request (asks j).options k e (eventsOf j x) resp := by
  obtain ⟨fs, a, ht⟩ := self.transcript_of_exec h j
  rw [hlog, eventsOf_split, List.append_assoc, List.cons_append] at ht
  obtain ⟨-, resp, -, hw, -⟩ := self.put_of_transcript ht rfl
  exact ⟨resp, hw⟩

theorem read_of_hit (h : Exec O (self.start asks s) log d) {i : ι}
    {n : NormalizedResponse (CompletionResponse R)} (hi : d.threads i = .ret (.ok n))
    (hit : n.provenance.cacheHit = true) :
    ∃ k entry cached before after, self.key.key (asks i).request (asks i).options = .ok k ∧
      (asks i).options.cachePolicy = .default ∧ self.decodeEntry entry = .ok cached ∧
      log = before ++ (i, evGet k (.ok (some entry))) :: after ∧ eventsOf i before = [] ∧
      n.response = cached.intoResponse := by
  obtain ⟨k, entry, cached, hk, hr, hd, hes, rfl⟩ :=
    self.hit_of_transcript (self.transcript_of_return h hi) hit
  obtain ⟨before, after, hlog, hb, -⟩ :=
    exists_split_of_eventsOf (show eventsOf i log = [] ++ evGet k (.ok (some entry)) :: _ from hes)
  exact ⟨k, entry, cached, before, after, hk, allowRead_iff.mp hr, hd, hlog, hb, rfl⟩

omit [DispatchModel M L A R] [DecidableEq ι] in
theorem decodeEntry_of_entryOf (hserde : self.serde.RoundTrips) {k : String} {e : CachedEntry}
    {resp : CompletionResponse R} (h : self.entryOf k resp = .ok e) :
    self.decodeEntry e = .ok (.fromBorrowed resp) := by
  unfold entryOf at h
  cases hv : self.serde.cachedToValue (.fromBorrowed resp) with
  | error e' =>
    rw [hv] at h
    cases h
  | ok v =>
    rw [hv] at h
    cases h
    rw [decodeEntry, hserde _ _ hv]

omit [DispatchModel M L A R] [DecidableEq ι] in
/-- the deadline is not decoded -/
theorem decode_of_entryOf (hserde : self.serde.RoundTrips) {k : String} {e entry : CachedEntry}
    {resp : CompletionResponse R} {cached : CachedCompletionResponse R}
    (hentry : self.entryOf k resp = .ok e) (he : undated entry = undated e)
    (hd : self.decodeEntry entry = .ok cached) : cached.intoResponse = resp := by
  have hresp : (undated entry).response = (undated e).response := by rw [he]
  have hdec : self.decodeEntry entry = self.decodeEntry e := by
    unfold decodeEntry
    rw [show entry.response = e.response from hresp]
  rw [hdec, self.decodeEntry_of_entryOf hserde hentry] at hd
  cases hd
  rfl

theorem decode_of_writes [LawfulDispatch M] (hserde : self.serde.RoundTrips)
    {request : CompletionRequest} {options : TokudoOptions} {k : String} {e entry : CachedEntry}
    {before : List (Event (Eff L A))} {resp : CompletionResponse R}
    {cached : CachedCompletionResponse R} (hw : self.Writes request options k e before resp)
    (he : undated entry = undated e) (hd : self.decodeEntry entry = .ok cached) :
    cached.intoResponse = resp := by
  obtain ⟨-, -, -, -, hentry⟩ := hw
  exact self.decode_of_entryOf hserde hentry he hd

/-! ## main results -/

variable [Nonempty A] [LawfulDispatch M] {config : InMemoryCacheConfig}
  {c : Pool (Eff L A) ι (Result (NormalizedResponse (CompletionResponse R))) Inner}

/-- **What a call reads from the shared cache was written by the latest write to its key**, and the
call that wrote it had been answered before. -/
theorem write_of_read
    (h : Exec (serve (InMemoryCache config)) (self.start asks InMemoryCache.init) log c) {i : ι}
    {k : String} {entry : CachedEntry} {before after : List (ι × Event (Eff L A))}
    (hlog : log = before ++ (i, evGet k (.ok (some entry))) :: after) :
    ∃ x j e resp, LatestWrite k j e x before ∧ undated entry = undated e ∧
      self.Writes (asks j).request (asks j).options k e (eventsOf j x) resp := by
  have hhist := h.history
  rw [hlog, List.map_append, List.map_cons, ← List.singleton_append, ← List.append_assoc] at hhist
  obtain ⟨t, hread, -⟩ := run_append.mp hhist
  obtain ⟨es₁, e, r, es₂, hes, hlast, he⟩ := current_of_history hread
  obtain ⟨x, y', rfl, hx, hy'⟩ := List.map_eq_append_iff.mp hes
  obtain ⟨⟨j, ev⟩, y, rfl, hev, rfl⟩ := List.map_eq_cons_iff.mp hy'
  obtain rfl : ev = evPut k e r := hev
  rw [List.append_assoc, List.cons_append] at hlog
  obtain ⟨resp, hw⟩ := self.writes_of_exec h hlog
  exact ⟨x, j, e, resp, ⟨r, y, rfl, fun i' e' r' hm => hlast e' r' (List.mem_map.mpr ⟨_, hm, rfl⟩)⟩,
    he, hw⟩

/-- **Hits are sound in every interleaving.**  Only a call under the default policy hits.  It
returns the response that the latest write to its key carries; the call `j` that wrote it has the
same key, was answered before by its dispatcher, and is not under `NoStore`. -/
theorem hit_sound (hserde : self.serde.RoundTrips)
    (h : Exec (serve (InMemoryCache config)) (self.start asks InMemoryCache.init) log c) {i : ι}
    {n : NormalizedResponse (CompletionResponse R)} (hi : c.threads i = .ret (.ok n))
    (hit : n.provenance.cacheHit = true) :
    (asks i).options.cachePolicy = .default ∧
    ∃ k entry before after x j e resp, self.key.key (asks i).request (asks i).options = .ok k ∧
      log = before ++ (i, evGet k (.ok (some entry))) :: after ∧ LatestWrite k j e x before ∧
      self.Writes (asks j).request (asks j).options k e (eventsOf j x) resp ∧
      (asks j).options.cachePolicy ≠ .noStore ∧ n.response = resp := by
  obtain ⟨k, entry, cached, before, after, hk, hp, hd, hlog, -, hn⟩ := self.read_of_hit h hi hit
  obtain ⟨x, j, e, resp, hlatest, he, hw⟩ := self.write_of_read h hlog
  refine ⟨hp, k, entry, before, after, x, j, e, resp, hk, hlog, hlatest, hw, ?_, ?_⟩
  · obtain ⟨-, -, -, hallow, -⟩ := hw
    exact allowWrite_iff.mp hallow
  · rw [hn]
    exact self.decode_of_writes hserde hw he hd

/-- two calls of the same key, the second after the first: it hits what the first has written -/
theorem second_call_hit_sound :
    ∃ (e : CachedEntry) (x : List (Bool × Event (Eff Unit (Result (DispatchOutcome String))))) (j : Bool),
      (textModel (Dispatcher.mk : Dispatcher String) preambleKey AcceptAllValidator).Writes
        (promptRequest "hi") {} "" e (eventsOf j x) (textResponse "one" .zero) := by
  let self := textModel (Dispatcher.mk : Dispatcher String) preambleKey AcceptAllValidator
  let asks : Bool → Ask := fun _ => ⟨promptRequest "hi", {}⟩
  let c₁ := self.runAlone (InMemoryCache default ⟨0, 0⟩) (replies "one") (asks false) false
    (self.start asks InMemoryCache.init)
  have h₁ : Exec (serve (InMemoryCache default)) _ _ c₁ :=
    self.exec_alone (InMemoryCache default) ⟨0, 0⟩ (replies "one") false rfl
  have h₂ := self.exec_alone (InMemoryCache default) ⟨0, 0⟩ (replies "two") true
    (show c₁.threads true = self.program (asks true) from rfl)
  obtain ⟨-, k, entry, before, after, x, j, e, resp, hk, -, -, hw, -, hn⟩ :=
    self.hit_sound textResponseSerde_roundTrips (h₁.trans h₂) (i := true) rfl rfl
  cases hk
  cases hn
  exact ⟨e, x, j, hw⟩

omit [Nonempty A] [LawfulDispatch M] in
theorem no_hit (h : Exec O (self.start asks s) log d) {i : ι}
    {n : NormalizedResponse (CompletionResponse R)} (hi : d.threads i = .ret (.ok n))
    (hp : (asks i).options.cachePolicy ≠ .default) : n.provenance.cacheHit = false := by
  cases hit : n.provenance.cacheHit with
  | false => rfl
  | true =>
    obtain ⟨_, _, _, _, _, _, hdef, _⟩ := self.read_of_hit h hi hit
    exact absurd hdef hp

omit [Nonempty A] [LawfulDispatch M] in
theorem write_of_refresh (h : Exec O (self.start asks s) log d) {f : ι} {k : String}
    {n : NormalizedResponse (CompletionResponse R)} (hf : d.threads f = .ret (.ok n))
    (hp : (asks f).options.cachePolicy = .forceFresh)
    (hk : self.key.key (asks f).request (asks f).options = .ok k) :
    ∃ e, (f, evPut k e (.ok ())) ∈ log := by
  have hhit := self.no_hit h hf (by rw [hp]; decide)
  obtain ⟨k', _, _, _, _, hk', -, -, -, -, hwrite⟩ :=
    self.answer_of_transcript (self.transcript_of_return h hf) hhit
  obtain ⟨e, -, he⟩ := hwrite (by rw [hp]; rfl)
  rw [hk] at hk'
  cases hk'
  exact ⟨e, mem_eventsOf.mp he⟩

/-- **A refresh is kept from everything stored before it.**  The call `f` under `ForceFresh` has
returned, the call `q` of the same key begins afterwards and hits: then it is served by the latest
write before its read, which is the write of `f`, or comes after it.  So a response whose dispatch began before that of `f` is
served only if its call was still in flight when `f` stored its own. -/
theorem refresh_kept (hserde : self.serde.RoundTrips)
    {log' : List (ι × Event (Eff L A))}
    {c' : Pool (Eff L A) ι (Result (NormalizedResponse (CompletionResponse R))) Inner}
    (h : Exec (serve (InMemoryCache config)) (self.start asks InMemoryCache.init) log c) {f q : ι}
    {k : String} {nf nq : NormalizedResponse (CompletionResponse R)}
    (hf : c.threads f = .ret (.ok nf)) (hpf : (asks f).options.cachePolicy = .forceFresh)
    (hkf : self.key.key (asks f).request (asks f).options = .ok k) (hq : eventsOf q log = [])
    (h' : Exec (serve (InMemoryCache config)) c log' c') (hr : c'.threads q = .ret (.ok nq))
    (hkq : self.key.key (asks q).request (asks q).options = .ok k)
    (hit : nq.provenance.cacheHit = true) :
    ∃ x j e r y entry after resp ef,
      log ++ log' = x ++ (j, evPut k e r) :: y ++ (q, evGet k (.ok (some entry))) :: after ∧
      (∀ i e' r', (i, evPut k e' r') ∉ y) ∧
      self.Writes (asks j).request (asks j).options k e (eventsOf j x) resp ∧ nq.response = resp ∧
      (f, evPut k ef (.ok ())) ∈ x ++ [(j, evPut k e r)] := by
  obtain ⟨ef, hwrite⟩ := self.write_of_refresh h hf hpf hkf
  have hall := h.trans h'
  obtain ⟨k', entry, cached, before, after, hk', -, hd, hlog, -, hn⟩ := self.read_of_hit hall hr hit
  rw [hkq] at hk'
  cases hk'
  -- the read of `q` comes after everything in `log`
  have hread : (q, evGet k (.ok (some entry))) ∉ log := by
    intro hm
    rw [← mem_eventsOf, hq] at hm
    cases hm
  obtain ⟨zs, rfl, -⟩ := append_split hread hlog
  obtain ⟨x, j, e, resp, ⟨r, y, hx, hlast⟩, he, hw⟩ := self.write_of_read hall hlog
  refine ⟨x, j, e, r, y, entry, after, resp, ef, ?_, hlast, hw, ?_, ?_⟩
  · rw [hlog, hx]
  · rw [hn]
    exact self.decode_of_writes hserde hw he hd
  · have hm : (f, evPut k ef (.ok ())) ∈ x ++ (j, evPut k e r) :: y := by
      rw [← hx]
      exact List.mem_append_left _ hwrite
    rcases List.mem_append.mp hm with hm | hm
    · exact List.mem_append_left _ hm
    · rcases List.mem_cons.mp hm with hm | hm
      · exact List.mem_append_right _ (List.mem_singleton.mpr hm)
      · exact absurd hm (hlast f ef _)

/-- a refresh and then a call of the same key: it is served by the write of the refresh -/
theorem call_after_refresh_kept :
    ∃ (e ef : CachedEntry) (r : Result Unit)
      (x : List (Bool × Event (Eff Unit (Result (DispatchOutcome String))))) (j : Bool),
      (textModel (Dispatcher.mk : Dispatcher String) preambleKey AcceptAllValidator).Writes
        (promptRequest "hi") { cachePolicy := if j then .default else .forceFresh } "" e
        (eventsOf j x) (textResponse "new" .zero) ∧
      (false, evPut "" ef (.ok ())) ∈ x ++ [(j, evPut "" e r)] := by
  let self := textModel (Dispatcher.mk : Dispatcher String) preambleKey AcceptAllValidator
  let asks : Bool → Ask := fun j =>
    ⟨promptRequest "hi", { cachePolicy := if j then .default else .forceFresh }⟩
  let c₁ := self.runAlone (InMemoryCache default ⟨0, 0⟩) (replies "new") (asks false) false
    (self.start asks InMemoryCache.init)
  have h : Exec (serve (InMemoryCache default)) _ _ c₁ :=
    self.exec_alone (InMemoryCache default) ⟨0, 0⟩ (replies "new") false rfl
  have h' := self.exec_alone (InMemoryCache default) ⟨0, 0⟩ (replies "other") true
    (show c₁.threads true = self.program (asks true) from rfl)
  obtain ⟨x, j, e, r, y, entry, after, resp, ef, -, -, hw, hn, hm⟩ :=
    self.refresh_kept textResponseSerde_roundTrips h (f := false) (q := true) (k := "") rfl rfl rfl
      rfl h' rfl rfl rfl
  cases hn
  exact ⟨e, ef, r, x, j, hw, hm⟩

def raceAsks (i : Fin 3) : Ask :=
  ⟨promptRequest "hi", { cachePolicy := if i = 1 then .forceFresh else .default }⟩

/-- **A refresh can be undone by a slower call.**  Call `0` begins its dispatch, the refresh `1`
runs from begin to end, then `0` is answered and writes; call `2` begins after that and is served
the answer of `0`.  Every call returns `Ok`. -/
theorem refresh_undone :
    ∃ (log log' : List (Fin 3 × Event (Eff Unit (Result (DispatchOutcome String)))))
      (c c' : Pool (Eff Unit (Result (DispatchOutcome String))) (Fin 3)
        (Result (NormalizedResponse (CompletionResponse String))) Inner),
      Exec (serve (InMemoryCache default)) ((textModel (Dispatcher.mk : Dispatcher String)
        preambleKey AcceptAllValidator).start raceAsks InMemoryCache.init) log c ∧
      Exec (serve (InMemoryCache default)) c log' c' ∧
      (∃ l₁ l₂ l₃, log = l₁ ++ (0, evStart () (promptRequest "hi")) :: l₂ ++
        (1, evStart () (promptRequest "hi")) :: l₃) ∧
      (∃ n, c.threads 1 = .ret (.ok n)) ∧ eventsOf 2 log = [] ∧
      (∃ n, c'.threads 0 = .ret (.ok n) ∧ n.response = textResponse "old" .zero) ∧
      ∃ n, c'.threads 2 = .ret (.ok n) ∧ n.provenance.cacheHit = true ∧
        n.response = textResponse "old" .zero := by
  let self := textModel (Dispatcher.mk : Dispatcher String) preambleKey AcceptAllValidator
  let old := handler (InMemoryCache default ⟨0, 0⟩) (replies (L := Unit) "old")
  -- call `0`: the read, two events, the begin of the dispatch
  let begun := advance old 4 (self.program (raceAsks 0)) InMemoryCache.init
  let c₁ : Pool _ (Fin 3) _ Inner :=
    ⟨Function.update (fun i => self.program (raceAsks i)) 0 begun.2.1, begun.2.2⟩
  have h₁ : Exec (serve (InMemoryCache default)) (self.start raceAsks InMemoryCache.init) _ c₁ :=
    .alone rfl (steps_of_advance old 4 _ _) (serve_of_handler (history_of_advance old 4 _ _))
  -- call `1`, from begin to end
  let c₂ := self.runAlone (InMemoryCache default ⟨0, 0⟩) (replies "new") (raceAsks 1) 1 c₁
  have h₂ : Exec (serve (InMemoryCache default)) c₁ _ c₂ :=
    self.exec_alone (InMemoryCache default) ⟨0, 0⟩ (replies "new") 1 rfl
  -- call `0`: the answer and the write
  let ended := advance old 4 begun.2.1 c₂.shared
  let c₃ : Pool _ (Fin 3) _ Inner := ⟨Function.update c₂.threads 0 ended.2.1, ended.2.2⟩
  have h₃ : Exec (serve (InMemoryCache default)) c₂ _ c₃ :=
    .alone rfl (steps_of_advance old 4 _ _) (serve_of_handler (history_of_advance old 4 _ _))
  -- call `2`, from begin to end
  have h₄ := self.exec_alone (InMemoryCache default) ⟨0, 0⟩ (replies "other") 2
    (show c₃.threads 2 = self.program (raceAsks 2) from rfl)
  refine ⟨_, _, _, _, h₁.trans h₂, h₃.trans h₄, ?_, ⟨_, rfl⟩, rfl, ⟨_, rfl, rfl⟩,
    ⟨_, rfl, rfl, rfl⟩⟩
  exact ⟨[(0, evGet "" (.ok none)), (0, evEmit (.cacheMiss "")),
    (0, evEmit (.routeDecision .passThrough))], [(1, evEmit (.routeDecision .passThrough))], _, rfl⟩

end OptimizedModel

end Tokudo
