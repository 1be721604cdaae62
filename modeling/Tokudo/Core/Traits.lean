import Tokudo.Core.Provenance
import Tokudo.Effect.Prog

/-!
# The pillars: cache, key, compressor, router, validator

`traits.rs`.  A trait is the structure of its functions.  A cache has a state of its own type `σ`;
the other pillars are pure.

What a call does to the world is an operation of `Eff L A`: read and write the cache, ask a leg of
the provider (`callStart`, and later `callEnd` with the answer: other calls may run in between) and
emit an event.  `L` names the legs, `A` is the type of a leg's answer.
-/

namespace Tokudo
open Effect

/-! ## cache -/

structure CachedEntry where
  response : Json
  expiresAtSecs : Option Nat
  similarity : Option F32
  sourceId : String

/-- `Cache`: every operation may fail, and leaves a state in any case -/
structure Cache (σ : Type) where
  get : String → σ → Result (Option CachedEntry) × σ
  put : String → CachedEntry → σ → Result Unit × σ

def NoCache : Cache Unit where
  get _ s := (.ok none, s)
  put _ _ s := (.ok (), s)

/-! ## compressor, router, validator -/

structure CompressionStats where
  inputTokens : Nat
  outputTokens : Nat

def CompressionStats.ratio (s : CompressionStats) : Option F32 :=
  if s.inputTokens = 0 then none else some ((s.outputTokens : ℚ) / (s.inputTokens : ℚ))

/-- `Compressor`: the request is changed in place, so it comes back with the stats -/
structure Compressor where
  compress : CompletionRequest → TokudoOptions → Result (Option CompressionStats × CompletionRequest)

def NoCompressor : Compressor where
  compress request _ := .ok (none, request)

structure Router where
  route : CompletionRequest → TokudoOptions → RouterChoice

def PassThroughRouter : Router where
  route _ _ := .passThrough

structure Validator where
  validate : Json → Result Bool

def AcceptAllValidator : Validator where
  validate _ := .ok true

/-! ## the default cache key -/

structure CacheKey where
  key : CompletionRequest → TokudoOptions → Result String

/-- what the keys take from `serde_json`, `sha2` and `hex` -/
structure KeySerde where
  chatHistoryToValue : OneOrMany Message → Json
  toVec : Json → Except String (List UInt8)
  sha256Hex : Sha256Hex

/-- `f64::round`: half-way cases away from zero -/
def roundHalfAway (q : ℚ) : ℤ := if 0 ≤ q then ⌊q + 1 / 2⌋ else -⌊-q + 1 / 2⌋

/-- the cast `as i64` saturates -/
def asI64 (z : ℤ) : ℤ := max (-2 ^ 63) (min z (2 ^ 63 - 1))

/-- `(t * 10.0).round()`; the product is exact here, the code rounds it to an `f64` first -/
def tenthBucket (t : F64) : ℤ := roundHalfAway (t * 10)

/-- `temp_bucket`, with the same exact product; a request without a temperature is in the bucket of
`0.0` -/
def tempBucket (temperature : Option F64) : ℤ :=
  (temperature.map fun t => asI64 (tenthBucket t)).getD 0

def toolSig (t : ToolDefinition) : Json := .obj [("desc", .str t.description), ("name", .str t.name)]

/-- the object that is hashed; the fields are in key order, as in `serde_json`'s map -/
def projection (serde : KeySerde) (request : CompletionRequest) (options : TokudoOptions) : Json :=
  .obj [("chat_history", serde.chatHistoryToValue request.chatHistory),
    ("has_output_schema", .bool request.outputSchema.isSome),
    ("max_tokens", Json.ofOption Json.ofNat request.maxTokens),
    ("model", Json.ofString? request.model),
    ("namespace", Json.ofString? options.cacheNamespace),
    ("preamble", Json.ofString? request.preamble),
    ("temperature_bucket", .num ⟨tempBucket request.temperature, 0⟩),
    ("tools", .arr (request.tools.map toolSig))]

def DefaultCacheKey (serde : KeySerde) : CacheKey where
  key request options :=
    match serde.toVec (projection serde request options) with
    | .error e => .error (.cache ("serialize key: " ++ e))
    | .ok canonical => .ok (serde.sha256Hex canonical)

/-- no two inputs of the hash share a digest, and no two projections share a text -/
structure KeySerde.Injective (serde : KeySerde) : Prop where
  sha : ∀ a b, serde.sha256Hex a = serde.sha256Hex b → a = b
  text : ∀ v w bs, serde.toVec v = .ok bs → serde.toVec w = .ok bs → v = w

/-- **Equal keys come from equal projections.** -/
theorem projection_eq_of_key_eq {serde : KeySerde} (hs : serde.Injective)
    {r r' : CompletionRequest} {o o' : TokudoOptions} {k : String}
    (h : (DefaultCacheKey serde).key r o = .ok k) (h' : (DefaultCacheKey serde).key r' o' = .ok k) :
    projection serde r o = projection serde r' o' := by
  simp only [DefaultCacheKey] at h h'
  cases hv : serde.toVec (projection serde r o) with
  | error e => rw [hv] at h; cases h
  | ok bs =>
    cases hw : serde.toVec (projection serde r' o') with
    | error e => rw [hw] at h'; cases h'
    | ok cs =>
      rw [hv] at h
      rw [hw] at h'
      have hbc : bs = cs := hs.sha _ _ (Except.ok.inj (h.trans h'.symm))
      exact hs.text _ _ bs hv (hbc ▸ hw)

theorem namespace_eq_of_projection_eq {serde : KeySerde} {r r' : CompletionRequest}
    {o o' : TokudoOptions} (h : projection serde r o = projection serde r' o') :
    o.cacheNamespace = o'.cacheNamespace := by
  simp only [projection, Json.obj.injEq, List.cons.injEq, Prod.mk.injEq, true_and, and_true] at h
  exact Json.ofString?_injective h.2.2.2.2.1

/-! ## operations -/

inductive Op (L : Type) where
  | cacheGet (key : String)
  | cachePut (key : String) (entry : CachedEntry)
  | callStart (leg : L) (request : CompletionRequest)
  | callEnd (leg : L) (request : CompletionRequest)
  | emit (event : TokudoEvent)

def Op.Ret {L : Type} (A : Type) : Op L → Type
  | .cacheGet _ => Result (Option CachedEntry)
  | .cachePut _ _ => Result Unit
  | .callStart _ _ => Unit
  | .callEnd _ _ => A
  | .emit _ => Unit

abbrev Eff (L A : Type) : Sig := ⟨Op L, Op.Ret A⟩

/-- an `async` function of the crate -/
abbrev Async (L A : Type) : Type → Type := Fallible (Eff L A) TokudoError

variable {L A : Type}

def cacheGet (key : String) : Async L A (Option CachedEntry) :=
  ExceptT.mk (.ask (S := Eff L A) (.cacheGet key) .ret)

def cachePut (key : String) (entry : CachedEntry) : Async L A Unit :=
  ExceptT.mk (.ask (S := Eff L A) (.cachePut key entry) .ret)

def emit (event : TokudoEvent) : Async L A Unit :=
  ExceptT.mk (.ask (S := Eff L A) (.emit event) fun _ => .ret (.ok ()))

/-- ask a leg and wait for its answer -/
def call (leg : L) (request : CompletionRequest) : Async L A A :=
  ExceptT.mk (.ask (S := Eff L A) (.callStart leg request) fun _ =>
    .ask (S := Eff L A) (.callEnd leg request) fun a => .ret (.ok a))

end Tokudo
