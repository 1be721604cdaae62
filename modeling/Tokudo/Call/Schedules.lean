import Tokudo.Call.Backends
import Tokudo.Call.Legs
import Tokudo.Cache.Semantic
import Tokudo.Effect.Schedules

/-!
# All schedules of the calls

`model.rs`: `complete`, any number of times at once, in whatever order the steps come.  No call waits
for another one, and none asks for long.

* `bill_of_transcript`      what a call asks at most; a plain model costs one request to the provider,
                            a `StaticCascade` two (`BoundedDispatch`);
* `calls_settle`            **every schedule is short, and may be continued until every call has
                            returned**;
* `storeless_independent`   **on a backend that stores nothing the calls return together what each
                            may return alone.**
-/

namespace Tokudo
open Effect

variable {L A R M σ ω ι : Type}

/-! ## what a call asks at most -/

/-- a provider is asked -/
def Op.starts : Op L → Bool
  | .callStart _ _ => true
  | _ => false

/-- the requests to a provider -/
def requests (es : List (Event (Eff L A))) : Nat := es.countP fun e => e.op.starts

theorem requests_append (es fs : List (Event (Eff L A))) :
    requests (es ++ fs) = requests es + requests fs := List.countP_append

/-- a dispatch asks at most so often, and at most so many requests of a provider -/
class BoundedDispatch (M : Type) {L A R : outParam Type} [DispatchModel M L A R]
    (steps legs : outParam Nat) : Prop where
  steps_le : ∀ {m : M} {request : CompletionRequest} {es : List (Event (Eff L A))}
    {b : Result (DispatchOutcome R)}, Does (DispatchModel.dispatch m request) es b → es.length ≤ steps
  legs_le : ∀ {m : M} {request : CompletionRequest} {es : List (Event (Eff L A))}
    {b : Result (DispatchOutcome R)}, Does (DispatchModel.dispatch m request) es b →
    requests es ≤ legs

instance : BoundedDispatch (Dispatcher R) 2 1 where
  steps_le h := by
    rw [does_dispatcher.mp h]
    rfl
  legs_le h := by
    rw [does_dispatcher.mp h]
    rfl

instance : BoundedDispatch (PlainModel R) 2 1 where
  steps_le h := by
    rcases does_plainModel.mp h with ⟨e, rfl, -⟩ | ⟨resp, rfl, -⟩
    · rfl
    · rfl
  legs_le h := by
    rcases does_plainModel.mp h with ⟨e, rfl, -⟩ | ⟨resp, rfl, -⟩
    · rfl
    · rfl

instance : BoundedDispatch (StaticCascade R) 5 2 where
  steps_le h := by
    cases StaticCascade.legs_of_dispatch _ h with
    | cheapError e => show 2 ≤ 5; omega
    | undecided hv => show 2 ≤ 5; omega
    | accepted hv => show 3 ≤ 5; omega
    | strongError hv e => show 4 ≤ 5; omega
    | escalated hv strongResp => show 5 ≤ 5; omega
  legs_le h := by
    cases StaticCascade.legs_of_dispatch _ h with
    | cheapError e => show 1 ≤ 2; omega
    | undecided hv => show 1 ≤ 2; omega
    | accepted hv => show 1 ≤ 2; omega
    | strongError hv e => show 2 ≤ 2; omega
    | escalated hv strongResp => show 2 ≤ 2; omega

/-! ## the bill of a call -/

/-- so many events at most, none of them a request to a provider -/
structure Idle (n : Nat) (es : List (Event (Eff L A))) : Prop where
  length_le : es.length ≤ n
  requests : requests es = 0

theorem Idle.append {n m : Nat} {es fs : List (Event (Eff L A))} (h : Idle n es) (h' : Idle m fs) :
    Idle (n + m) (es ++ fs) where
  length_le := by
    have hes := h.length_le
    have hfs := h'.length_le
    rw [List.length_append]
    omega
  requests := by rw [requests_append, h.requests, h'.requests]

theorem idle_nil (n : Nat) : Idle n ([] : List (Event (Eff L A))) := ⟨Nat.zero_le n, rfl⟩

theorem idle_emit (event : TokudoEvent) : Idle 1 [(evEmit event : Event (Eff L A))] := ⟨le_rfl, rfl⟩

theorem idle_missEvents (options : TokudoOptions) (k : String) :
    Idle 2 (OptimizedModel.missEvents options k : List (Event (Eff L A))) := by
  unfold OptimizedModel.missEvents
  split
  · exact ⟨le_rfl, rfl⟩
  · exact idle_nil 2

theorem idle_compressEvents (stats : Option CompressionStats) :
    Idle 1 (OptimizedModel.compressEvents stats : List (Event (Eff L A))) := by
  cases stats with
  | none => exact idle_nil 1
  | some stats => exact idle_emit _

namespace OptimizedModel
variable (self : OptimizedModel M R)

theorem idle_lineageEvents (edge : Sha256Hex → LineageEdge) :
    Idle 1 (self.lineageEvents edge : List (Event (Eff L A))) := by
  unfold lineageEvents
  cases self.lineage with
  | none => exact idle_nil 1
  | some sha => exact idle_emit _

theorem idle_routeEvents (request : CompletionRequest) (options : TokudoOptions) :
    Idle 1 (self.routeEvents request options : List (Event (Eff L A))) := by
  unfold routeEvents
  split
  · exact idle_nil 1
  · exact idle_emit _

theorem idle_hitEvents (modelName : Option String) (k : String) (entry : CachedEntry)
    (cached : CachedCompletionResponse R) :
    Idle 3 (self.hitEvents modelName k entry cached : List (Event (Eff L A))) :=
  ((idle_emit _).append (idle_emit _)).append (self.idle_lineageEvents _)

theorem idle_callEvents (modelName : Option String) (k : String) (choice : RouterChoice)
    (resp : CompletionResponse R) :
    Idle 2 (self.callEvents modelName k choice resp : List (Event (Eff L A))) :=
  (self.idle_lineageEvents _).append (idle_emit _)

theorem idle_ending {options : TokudoOptions} {k : String} {resp : CompletionResponse R}
    {es : List (Event (Eff L A))} {r : Result Unit} (h : self.Ending options k resp es r) :
    Idle 1 es := by
  cases h with
  | invalid hv => exact idle_nil 1
  | unwritten hv hw => exact idle_nil 1
  | unserialised hv hw he => exact idle_nil 1
  | written hv hw he r => exact ⟨le_rfl, rfl⟩

variable [DispatchModel M L A R]

/-- **A call dispatches once at most**; before it asks four operations at most, and three after it. -/
theorem shape_of_transcript {request : CompletionRequest} {options : TokudoOptions}
    {es : List (Event (Eff L A))} {a : Result (NormalizedResponse (CompletionResponse R))}
    (h : self.Transcript request options es a) :
    ∃ before ds after, es = before ++ ds ++ after ∧ Idle 4 before ∧ Idle 3 after ∧
      (ds = [] ∨ ∃ req b, Does (DispatchModel.dispatch self.model req) ds b) := by
  have hread (k : String) (r : Result (Option CachedEntry)) :
      Idle 4 [(evGet k r : Event (Eff L A))] := ⟨by show 1 ≤ 4; omega, rfl⟩
  have hbefore (k : String) (stats : Option CompressionStats) (req : CompletionRequest) :
      Idle 4 (missEvents options k ++ compressEvents stats ++ self.routeEvents req options :
        List (Event (Eff L A))) :=
    ((idle_missEvents options k).append (idle_compressEvents stats)).append
      (self.idle_routeEvents req options)
  have hall {es : List (Event (Eff L A))} (h : Idle 4 es) : ∃ before ds after,
      es = before ++ ds ++ after ∧ Idle 4 before ∧ Idle 3 after ∧
        (ds = [] ∨ ∃ req b, Does (DispatchModel.dispatch self.model req) ds b) := by
    refine ⟨es, [], [], ?_, h, idle_nil 3, .inl rfl⟩
    rw [List.append_nil, List.append_nil]
  cases h with
  | keyError hk => exact hall (idle_nil 4)
  | readError hk hr => exact hall (hread _ _)
  | undecodable hk hr hd => exact hall (hread _ _)
  | @hit k entry cached hk hr hd =>
    have hget : Idle 1 [(evGet k (.ok (some entry)) : Event (Eff L A))] := ⟨le_rfl, rfl⟩
    exact hall (hget.append (self.idle_hitEvents request.model k entry cached))
  | @compressError k e hk hc =>
    have hmiss := (idle_missEvents (L := L) (A := A) options k).append (idle_nil 2)
    rw [List.append_nil] at hmiss
    exact hall hmiss
  | @dispatchError k stats req es e hk hc hd =>
    refine ⟨_, es, [], ?_, hbefore k stats req, idle_nil 3, .inr ⟨req, _, hd⟩⟩
    rw [List.append_nil]
  | @answered k stats req es fs outcome r hk hc hd he =>
    have hafter := (self.idle_callEvents (L := L) (A := A) request.model k
      (outcome.route.getD (self.hint req options)) outcome.response).append (self.idle_ending he)
    refine ⟨_, es, _, ?_, hbefore k stats req, hafter, .inr ⟨req, _, hd⟩⟩
    rw [List.append_assoc _ _ fs]

/-- **What a call asks at most.** -/
theorem bill_of_transcript {steps legs : Nat} [BoundedDispatch M steps legs]
    {request : CompletionRequest} {options : TokudoOptions} {es : List (Event (Eff L A))}
    {a : Result (NormalizedResponse (CompletionResponse R))}
    (h : self.Transcript request options es a) :
    es.length ≤ steps + 7 ∧ requests es ≤ legs := by
  obtain ⟨before, ds, after, rfl, hbefore, hafter, hd⟩ := self.shape_of_transcript h
  have hds : ds.length ≤ steps ∧ requests ds ≤ legs := by
    rcases hd with rfl | ⟨req, b, hd⟩
    · exact ⟨Nat.zero_le _, Nat.zero_le _⟩
    · exact ⟨BoundedDispatch.steps_le hd, BoundedDispatch.legs_le hd⟩
  have hb := hbefore.length_le
  have ha := hafter.length_le
  constructor
  · rw [List.length_append, List.length_append]
    omega
  · rw [requests_append, requests_append, hbefore.requests, hafter.requests]
    omega

/-! ## main results -/

variable [DecidableEq ι] {asks : ι → Ask} {s : σ} {log : List (ι × Event (Eff L A))}
  {c : Pool (Eff L A) ι (Result (NormalizedResponse (CompletionResponse R))) σ}

/-- the cache and the provider answer whatever is asked -/
theorem serve_total [Nonempty ω] [Nonempty A] (backend : ω → Cache σ) :
    Total (serve (L := L) (A := A) backend) := by
  intro s o
  obtain ⟨env⟩ := (inferInstance : Nonempty ω)
  obtain ⟨a⟩ := (inferInstance : Nonempty A)
  let answer := handler (backend env) (fun (_ : L) (_ : CompletionRequest) => a)
  exact ⟨(answer o s).1, (answer o s).2, env, _, rfl⟩

/-- **Every schedule of the calls settles.**  In whatever order the steps come, on any backend, no call
takes more than `steps + 7` steps and no more than `legs` requests to a provider are made for it.
Whatever the others have done, and however far they are, a call may be run to its end by steps of its
own; and every schedule may be continued until every call has returned. -/
theorem calls_settle [Fintype ι] [Nonempty ω] [Nonempty A] {steps legs : Nat}
    [BoundedDispatch M steps legs] {backend : ω → Cache σ}
    (h : Exec (serve backend) (self.start asks s) log c) :
    (log.length ≤ Fintype.card ι * (steps + 7) ∧
      ∀ i, (eventsOf i log).length ≤ steps + 7) ∧
    (requests (log.map Prod.snd) ≤ Fintype.card ι * legs ∧
      ∀ i, requests (eventsOf i log) ≤ legs) ∧
    (∀ i, ∃ (es : List (Event (Eff L A)))
      (a : Result (NormalizedResponse (CompletionResponse R))) (t : σ),
      Exec (serve backend) c (es.map fun e => (i, e)) ⟨Function.update c.threads i (.ret a), t⟩) ∧
    ∃ log' d, Exec (serve backend) c log' d ∧ ∀ i, ∃ a, d.threads i = .ret a := by
  have hbill (i : ι) : (eventsOf i log).length ≤ steps + 7 ∧ requests (eventsOf i log) ≤ legs := by
    obtain ⟨fs, a, ht⟩ := self.transcript_of_exec h i
    obtain ⟨hlength, hrequests⟩ := self.bill_of_transcript ht
    rw [List.length_append] at hlength
    rw [requests_append] at hrequests
    omega
  have htotal : Total (serve (L := L) (A := A) backend) := serve_total backend
  refine ⟨⟨length_log_le fun i => (hbill i).1, fun i => (hbill i).1⟩, ⟨?_, fun i => (hbill i).2⟩,
    htotal.finish_one c, htotal.finish_all c⟩
  unfold requests
  rw [List.countP_map]
  exact countP_log_le fun i => (hbill i).2

/-- one of two calls has returned, and the other one has not begun -/
theorem inTurn_settles :
    ∃ log c, Exec (serve (InMemoryCache ⟨none, none⟩)) (plainCalls.start inTurn InMemoryCache.init)
        log c ∧ log.length ≤ 18 ∧ requests (log.map Prod.snd) ≤ 2 ∧
      ∃ log' d, Exec (serve (InMemoryCache ⟨none, none⟩)) c log' d ∧
        ∀ i, ∃ a, d.threads i = .ret a := by
  have hone := plainCalls.exec_alone (InMemoryCache ⟨none, none⟩) ⟨0, 0⟩ (replies "one") false
    (show (plainCalls.start inTurn InMemoryCache.init).threads false = plainCalls.program (inTurn false)
      from rfl)
  have : Nonempty Clock := ⟨⟨0, 0⟩⟩
  obtain ⟨⟨hlength, -⟩, ⟨hrequests, -⟩, -, hall⟩ := plainCalls.calls_settle hone
  exact ⟨_, _, hone, hlength, hrequests, hall⟩

/-- together, the calls may return what each of them may return alone -/
def Independent (asks : ι → Ask) (O : Object (Eff L A) σ) (s : σ) : Prop :=
  ∀ results : ι → Result (NormalizedResponse (CompletionResponse R)),
    (∃ log c, Exec O (self.start asks s) log c ∧ ∀ i, c.threads i = .ret (results i)) ↔
    ∀ i, ∃ log c, Exec O (self.start (fun _ : Unit => asks i) s) log c ∧
      c.threads () = .ret (results i)

theorem independent_of_inert [Fintype ι] {O : Object (Eff L A) σ} (hO : Inert O s) :
    self.Independent asks O s :=
  fun results => ends_iff_of_inert (c := self.start asks s) hO results

end OptimizedModel

/-! ## backends that store nothing -/

/-- a backend whose operations leave this state as it is -/
theorem inert_of_backend {backend : ω → Cache σ} {s : σ}
    (hget : ∀ env k, ((backend env).get k s).2 = s)
    (hput : ∀ env k entry, ((backend env).put k entry s).2 = s) :
    Inert (serve (L := L) (A := A) backend) s := by
  rintro ⟨o, r⟩ t ⟨env, provider, hop⟩
  have ht : (handler (backend env) provider o s).2 = t := congrArg Prod.snd hop
  rw [← ht]
  cases o with
  | cacheGet k => exact hget env k
  | cachePut k entry => exact hput env k entry
  | callStart leg request => rfl
  | callEnd leg request => rfl
  | emit event => rfl

namespace OptimizedModel
variable (self : OptimizedModel M R) [DispatchModel M L A R] [DecidableEq ι]

/-- **On a backend that stores nothing the calls are independent.**  `SemanticCache` writes nothing,
whatever its index answers from search to search; an `InMemoryCache` with a bound of zero and a
`FoyerCache` of capacity zero stay empty. -/
theorem storeless_independent [Fintype ι] (asks : ι → Ask) (config : SemanticCacheConfig)
    (ttl : Option Nat) :
    self.Independent asks (serve fun index => SemanticCache index config) () ∧
    self.Independent asks (serve (InMemoryCache ⟨some 0, ttl⟩)) InMemoryCache.init ∧
    self.Independent asks (serve (FoyerCache ⟨0⟩)) FoyerCache.init := by
  refine ⟨self.independent_of_inert fun e t h => rfl, ?_, ?_⟩
  · apply self.independent_of_inert
    exact inert_of_backend (fun clock k => rfl) fun clock k entry => rfl
  · apply self.independent_of_inert
    exact inert_of_backend (fun now k => rfl) fun now k entry => rfl

end OptimizedModel

end Tokudo
