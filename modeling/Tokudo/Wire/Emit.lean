import Tokudo.Wire.Envelope
import Tokudo.Effect.Tickets
import Tokudo.Call.Lineage

/-!
# Emitting events

`observe.rs`: `emit` reads the clock, draws a tick from the counter of the process and hands the
envelope to the subscriber.  These are three steps, and other threads run in between: a call of
`complete` does `emit` where the call model has one step (`observed`).

* `ticks_tell_order`        ticks are unique, increase in every thread, and tell which of two events
                            came first;
* `collected_events`        **sorted by tick, what arrived has the events of every call in order**, as
                            the calls emit them in an interleaving in which `emit` is one step;
* `observed_erases`         **telemetry does not interfere**: the calls and the cache do what they do
                            when `emit` is one step.
-/

namespace Tokudo
open Effect

variable {L A R M σ ι α : Type}

/-- the fields of a `tracing` event on the target `rig_tokudo` -/
structure EmittedRecord where
  event : String
  version : Nat
  kind : String
  tick : Nat
  occurredAtMillis : Nat

abbrev Observed (L A : Type) : Sig := Ticketed (Eff L A) EmittedRecord

/-- milliseconds since the epoch, as a `u64` -/
def nowMillis : Prog (Observed L A) Nat :=
  .ask (S := Observed L A) .now fun millis => .ret (min millis u64Max)

/-- `TICK.fetch_add(1)` -/
def nextTick : Prog (Observed L A) Nat := .ask (S := Observed L A) .take .ret

def buildEvent (event : TokudoEvent) : Prog (Observed L A) TokudoEnvelope := do
  let occurredAtMillis ← nowMillis
  let tick ← nextTick
  return { version := schemaVersion, occurredAtMillis, tick, event }

def emitRecord (event : TokudoEvent) (envelope : TokudoEnvelope) (json : String) : EmittedRecord where
  event := json
  version := envelope.version
  kind := event.discriminant
  tick := envelope.tick
  occurredAtMillis := envelope.occurredAtMillis

def emitJson (event : TokudoEvent) (envelope : TokudoEnvelope) (json : String) :
    Prog (Observed L A) Unit :=
  .ask (S := Observed L A) (.publish (emitRecord event envelope json)) .ret

namespace Observe
variable (toJson : TokudoEnvelope → Except String String)

/-- an envelope that cannot be written is dropped, with a warning -/
def emit (event : TokudoEvent) : Prog (Observed L A) Unit := do
  let envelope ← buildEvent event
  match toJson envelope with
  | .ok json => emitJson event envelope json
  | .error _ => return ()

/-- `emit` is carried out step by step, everything else is asked -/
def tap : Taps (Eff L A) EmittedRecord
  | .emit event => some (emit toJson event)
  | .cacheGet _ => none
  | .cachePut _ _ => none
  | .callStart _ _ => none
  | .callEnd _ _ => none

/-- the envelope of `emit`, from what it reads and draws -/
def envelopeOf (event : TokudoEvent) (millis tick : Nat) : TokudoEnvelope :=
  ⟨schemaVersion, min millis u64Max, tick, event⟩

/-- the last step of `emit` -/
def finish (event : TokudoEvent) (envelope : TokudoEnvelope) : Prog (Observed L A) Unit :=
  match toJson envelope with
  | .ok json => emitJson event envelope json
  | .error _ => .ret ()

theorem emit_eq (event : TokudoEvent) :
    (emit toJson event : Prog (Observed L A) Unit) =
      .ask (S := Observed L A) .now fun millis => .ask (S := Observed L A) .take fun tick =>
        finish toJson event (envelopeOf event millis tick) := rfl

/-- the record is that of this event -/
def RecordOf (event : TokudoEvent) (record : EmittedRecord) : Prop :=
  ∃ millis tick json, toJson (envelopeOf event millis tick) = .ok json ∧
    record = emitRecord event (envelopeOf event millis tick) json

variable {toJson} {event : TokudoEvent} {es : List (Event (Observed L A))}

theorem steps_finish {envelope : TokudoEnvelope} {q : Prog (Observed L A) Unit}
    (h : (finish toJson event envelope).Steps es q) :
    es = [] ∨ ∃ json, toJson envelope = .ok json ∧
      es = [⟨.publish (emitRecord event envelope json), ()⟩] := by
  unfold finish at h
  cases hj : toJson envelope with
  | error e =>
    rw [hj] at h
    cases h
    exact .inl rfl
  | ok json =>
    rw [hj] at h
    cases h with
    | refl => exact .inl rfl
    | ask h =>
      cases h
      exact .inr ⟨json, rfl, rfl⟩

/-- **How far `emit` has come**: the time, the tick, the record. -/
theorem steps_emit {q : Prog (Observed L A) Unit} (h : (emit toJson event).Steps es q) :
    es = [] ∨ (∃ millis, es = [⟨.now, millis⟩]) ∨
      ∃ millis tick rest, es = ⟨.now, millis⟩ :: ⟨.take, tick⟩ :: rest ∧
        (rest = [] ∨ ∃ json, toJson (envelopeOf event millis tick) = .ok json ∧
          rest = [⟨.publish (emitRecord event (envelopeOf event millis tick) json), ()⟩]) := by
  rw [emit_eq] at h
  cases h with
  | refl => exact .inl rfl
  | @ask _ _ millis _ _ h =>
    cases h with
    | refl => exact .inr (.inl ⟨millis, rfl⟩)
    | @ask _ _ tick rest _ h => exact .inr (.inr ⟨millis, tick, rest, rfl, steps_finish h⟩)

/-- an `emit` that has returned has published the record, if the envelope can be written -/
theorem runs_emit (hwrite : ∀ envelope, ∃ json, toJson envelope = .ok json)
    (h : (emit toJson event).Runs es ()) :
    ∃ millis tick json, toJson (envelopeOf event millis tick) = .ok json ∧
      es = [⟨.now, millis⟩, ⟨.take, tick⟩,
        ⟨.publish (emitRecord event (envelopeOf event millis tick) json), ()⟩] := by
  rw [emit_eq] at h
  obtain ⟨millis, _, rfl, tick, rest, rfl, hf⟩ := h
  obtain ⟨json, hj⟩ := hwrite (envelopeOf event millis tick)
  have hfinish : finish (L := L) (A := A) toJson event (envelopeOf event millis tick) =
      emitJson event (envelopeOf event millis tick) json := by
    unfold finish
    rw [hj]
  replace hf : (finish toJson event (envelopeOf event millis tick)).Runs rest () := hf
  rw [hfinish] at hf
  obtain ⟨⟨⟩, _, rfl, rfl, -⟩ := hf
  exact ⟨millis, tick, json, hj, rfl⟩

theorem tap_eq_some {o : Op L} {p : Prog (Observed L A) (Op.Ret A o)}
    (h : tap (A := A) toJson o = some p) :
    ∃ event, ∃ ho : o = .emit event, p = ho ▸ emit toJson event := by
  cases o with
  | emit event =>
    cases h
    exact ⟨event, rfl, rfl⟩
  | cacheGet k => cases h
  | cachePut k e => cases h
  | callStart leg request => cases h
  | callEnd leg request => cases h

variable (toJson)

/-- **`emit` does something, and nothing that the cache or the provider sees.** -/
theorem tap_lawful : LawfulTaps (tap (L := L) (A := A) toJson) where
  asks o p h := by
    obtain ⟨event, rfl, rfl⟩ := tap_eq_some h
    exact ⟨_, _, emit_eq toJson event⟩
  offBase o p h es q hs e he := by
    obtain ⟨event, rfl, rfl⟩ := tap_eq_some h
    rcases steps_emit hs with rfl | ⟨millis, rfl⟩ | ⟨millis, tick, rest, rfl, rfl | ⟨json, -, rfl⟩⟩
    · cases he
    · rw [List.mem_singleton.mp he]
      rfl
    · rcases List.mem_cons.mp he with rfl | he
      · rfl
      · rw [List.mem_singleton.mp he]
        rfl
    · rcases List.mem_cons.mp he with rfl | he
      · rfl
      · rcases List.mem_cons.mp he with rfl | he
        · rfl
        · rw [List.mem_singleton.mp he]
          rfl

/-- **A record carries the tick that was drawn for it.** -/
theorem tap_numbered : NumberedTaps EmittedRecord.tick (tap (L := L) (A := A) toJson) := by
  intro o p h es q hs
  obtain ⟨event, rfl, rfl⟩ := tap_eq_some h
  rcases steps_emit hs with rfl | ⟨millis, rfl⟩ | ⟨millis, tick, rest, rfl, rfl | ⟨json, -, rfl⟩⟩
  · exact True.intro
  · exact True.intro
  · exact True.intro
  · exact ⟨rfl, True.intro⟩

end Observe

/-! ## the events of many threads -/

def Op.emitted : Op L → Option TokudoEvent
  | .emit event => some event
  | _ => none

/-- the events emitted, in order -/
def emitted (es : List (Event (Eff L A))) : List TokudoEvent := es.filterMap fun e => e.op.emitted

/-- `TICK` is an `AtomicU64` -/
def tickCount : Nat := u64Max + 1

namespace Observe
variable {toJson : TokudoEnvelope → Except String String}

/-- the threads do `emit` step by step; `TICK` starts at zero -/
def observed (toJson : TokudoEnvelope → Except String String) (c : Pool (Eff L A) ι α σ) :
    Pool (Observed L A) ι α (σ × Nat) :=
  ⟨fun i => instrument (tap toJson) (c.threads i), (c.shared, 0)⟩

/-- **What was emitted has been published**, event by event, each with the tick drawn for it. -/
theorem published_of_carriesOut (hwrite : ∀ envelope, ∃ json, toJson envelope = .ok json)
    {es : List (Event (Eff L A))} {fs : List (Event (Observed L A))}
    (h : CarriesOut (tap toJson) es fs) :
    List.Forall₂ (RecordOf toJson) (emitted es) (published fs) ∧
      (published fs).map EmittedRecord.tick = taken fs := by
  induction h with
  | nil => exact ⟨.nil, rfl⟩
  | @cons e es fs gs he _ ih =>
    obtain ⟨hrecords, hticks⟩ := ih
    rw [published_append, taken_append, List.map_append, hticks]
    cases he with
    | @base o r ho =>
      cases o with
      | emit event => cases ho
      | cacheGet k => exact ⟨hrecords, rfl⟩
      | cachePut k e => exact ⟨hrecords, rfl⟩
      | callStart leg request => exact ⟨hrecords, rfl⟩
      | callEnd leg request => exact ⟨hrecords, rfl⟩
    | @tapped o r p _ ho hr =>
      obtain ⟨event, rfl, rfl⟩ := tap_eq_some ho
      obtain ⟨millis, tick, json, hj, rfl⟩ := runs_emit hwrite hr
      exact ⟨.cons ⟨millis, tick, json, hj, rfl⟩ hrecords, rfl⟩

variable [DecidableEq ι] {c : Pool (Eff L A) ι α σ} {O : Object (Eff L A) σ}
  {log : List (ι × Event (Observed L A))} {d : Pool (Observed L A) ι α (σ × Nat)}

theorem orderly_of_exec (h : Exec (counting tickCount O) (observed toJson c) log d) (i : ι) :
    Orderly EmittedRecord.tick none (eventsOf i log) :=
  orderly_of_steps (tap_numbered toJson) (h.steps i)

/-- **A tick tells the order of events**, as long as `TICK` has not wrapped around.  No two records
have one tick; in every thread the ticks increase; and a record that was out before a tick was drawn
has the smaller tick, whichever threads they are of.  When every thread has returned, no tick is
missing. -/
theorem ticks_tell_order (h : Exec (counting tickCount O) (observed toJson c) log d)
    (hcount : (taken (log.map Prod.snd)).length ≤ tickCount) :
    ((receipts log).map fun x => x.2.tick).Nodup ∧
    (∀ i, (published (eventsOf i log)).Pairwise fun a b => a.tick < b.tick) ∧
    (∀ x y i j (record : EmittedRecord) (tick : Nat), log = x ++ (i, ⟨.publish record, ()⟩) :: y →
      (j, ⟨.take, tick⟩) ∈ y → record.tick < tick) ∧
    ((∀ envelope, ∃ json, toJson envelope = .ok json) → (∀ i, ∃ a, d.threads i = .ret a) →
      ((receipts log).map fun x => x.2.tick).Perm (List.range (taken (log.map Prod.snd)).length)) := by
  have hticks := taken_of_history h.history (by simpa [observed] using hcount)
  refine ⟨numbers_nodup (orderly_of_exec h) hticks,
    fun i => numbers_increase (orderly_of_exec h i) hticks,
    ?_, ?_⟩
  · intro x y i j record tick hlog hm
    exact number_lt_of_before (orderly_of_exec h) hticks hlog
      (List.mem_filterMap.mpr ⟨_, List.mem_map_of_mem hm, rfl⟩)
  · intro hwrite hret
    rw [List.range_eq_range']
    refine numbers_gapless (fun i => ?_) hticks
    obtain ⟨a, ha⟩ := hret i
    have hsteps := h.steps i
    rw [ha] at hsteps
    obtain ⟨es, -, hc⟩ := runs_instrument hsteps.runs_of_ret
    exact (published_of_carriesOut hwrite hc).2

/-- two calls, taking turns -/
def turns (toJson : TokudoEnvelope → Except String String) :=
  schedule (counted (P := EmittedRecord) tickCount 1700
      (handler (InMemoryCache default ⟨0, 0⟩) (replies (L := Unit) "one")))
    (List.replicate 20 [false, true]).flatten
    (observed toJson (OptimizedModel.tracedModel.start OptimizedModel.twoAsks InMemoryCache.init))

theorem exec_turns (toJson : TokudoEnvelope → Except String String) :
    Exec (counting tickCount (serve (InMemoryCache default)))
      (observed toJson (OptimizedModel.tracedModel.start OptimizedModel.twoAsks InMemoryCache.init))
      (turns toJson).1 (turns toJson).2 :=
  exec_schedule _ (counting_of_counted fun _ _ _ h => ⟨⟨0, 0⟩, replies "one", h⟩) _ _

theorem turns_ticks :
    ((receipts (turns fun _ => .ok "").1).map fun x => x.2.tick).Perm (List.range 8) := by
  have hlen : (taken ((turns fun _ => .ok "").1.map Prod.snd)).length = 8 := rfl
  obtain ⟨-, -, -, hgapless⟩ := ticks_tell_order (exec_turns _) (by rw [hlen]; decide)
  rw [hlen] at hgapless
  refine hgapless (fun _ => ⟨_, rfl⟩) fun i => ?_
  cases i
  · exact ⟨_, rfl⟩
  · exact ⟨_, rfl⟩

/-! ## collecting -/

/-- the event that a collector reads from a record -/
def decoded (floats : WireFloats) (record : EmittedRecord) : Json.Decode TokudoEvent := do
  let envelope ← TokudoEnvelope.fromJson floats record.event
  return envelope.event

theorem decoded_of_recordOf {floats : WireFloats} {event : TokudoEvent} {record : EmittedRecord}
    (h : RecordOf (TokudoEnvelope.toJson floats) event record) (hevent : event.Fits)
    (htick : record.tick ≤ u64Max) : decoded floats record = .ok (event.reparsed floats) := by
  obtain ⟨millis, tick, json, hj, rfl⟩ := h
  have hversion : schemaVersion ≤ u32Max := by decide
  have hfits : (envelopeOf event millis tick).Fits :=
    ⟨hversion, Nat.min_le_right _ _, htick, hevent⟩
  obtain ⟨text, ht, hread⟩ := @TokudoEnvelope.written_reads_back floats _ hfits
  rw [hj] at ht
  cases ht
  show (do let envelope ← TokudoEnvelope.fromJson floats json; return envelope.event) = _
  rw [hread]
  rfl

/-- a collector reads this event from the record, with its floats parsed back, if the numbers are of
the types of their fields -/
def ReadsAs (floats : WireFloats) (event : TokudoEvent) (record : EmittedRecord) : Prop :=
  event.Fits → decoded floats record = .ok (event.reparsed floats)

theorem readsAs_of_records {floats : WireFloats} {events : List TokudoEvent}
    {records : List EmittedRecord}
    (h : List.Forall₂ (RecordOf (TokudoEnvelope.toJson floats)) events records)
    (hticks : ∀ record ∈ records, record.tick ≤ u64Max) :
    List.Forall₂ (ReadsAs floats) events records := by
  induction h with
  | nil => exact .nil
  | cons hr _ ih =>
    refine .cons (fun hevent => ?_) (ih fun r hr => hticks r (List.mem_cons_of_mem _ hr))
    exact decoded_of_recordOf hr hevent (hticks _ List.mem_cons_self)

end Observe

namespace OptimizedModel
open Observe
variable (self : OptimizedModel M R) [DispatchModel M L A R] [DecidableEq ι] {asks : ι → Ask}

/-- the observed calls are behind calls whose `emit` is one step -/
theorem behind_of_observed [Nonempty ω] [Nonempty A] {backend : ω → Cache σ} {s : σ}
    {toJson : TokudoEnvelope → Except String String} {log : List (ι × Event (Observed L A))}
    {d : Pool (Observed L A) ι (Result (NormalizedResponse (CompletionResponse R))) (σ × Nat)}
    (h : Exec (counting tickCount (serve backend)) (observed toJson (self.start asks s)) log d) :
    ∃ log₀ d₀, Exec (serve backend) (self.start asks s) log₀ d₀ ∧ d₀.shared = d.shared.1 ∧
      log₀.filter (fun x => x.2.op.emitted.isNone) = baseLog log ∧
      ∀ i a, d.threads i = .ret a → d₀.threads i = .ret a ∧
        CarriesOut (tap toJson) (eventsOf i log₀) (eventsOf i log) := by
  have hemit : ∀ (s : σ) (o : Op L) (r : Op.Ret A o), (tap (A := A) toJson o).isSome = true →
      serve backend s ⟨o, r⟩ s := by
    intro s o r ho
    obtain ⟨p, hp⟩ := Option.isSome_iff_exists.mp ho
    obtain ⟨event, rfl, -⟩ := tap_eq_some hp
    exact ⟨Classical.arbitrary ω, fun _ _ => Classical.arbitrary A, rfl⟩
  obtain ⟨log₀, d₀, hexec, hshared, hlog, hbehind⟩ := Exec.erase (tap_lawful toJson) hemit h
  refine ⟨log₀, d₀, hexec, hshared, ?_, fun i a hi => ?_⟩
  · rw [← hlog]
    congr 1
    funext x
    unfold kept
    cases x.2.op <;> rfl
  · have hi' := hbehind i
    rw [hi] at hi'
    exact hi'.ret (tap_lawful toJson)

/-- the tick of a record was drawn, so it is a `u64` -/
theorem tick_le_of_published {O : Object (Eff L A) σ} {s : σ}
    {toJson : TokudoEnvelope → Except String String} {log : List (ι × Event (Observed L A))}
    {d : Pool (Observed L A) ι (Result (NormalizedResponse (CompletionResponse R))) (σ × Nat)}
    (h : Exec (counting tickCount O) (observed toJson (self.start asks s)) log d)
    (hcount : (taken (log.map Prod.snd)).length ≤ tickCount) {i : ι} {tick : Nat}
    (hm : tick ∈ taken (eventsOf i log)) : tick ≤ u64Max := by
  have hticks := taken_of_history h.history (by simpa [observed] using hcount)
  have hdrawn := ((eventsOf_sublist i log).filterMap ticket?).subset hm
  change tick ∈ taken (log.map Prod.snd) at hdrawn
  rw [hticks] at hdrawn
  obtain ⟨-, hlt⟩ := List.mem_range'_1.mp hdrawn
  have hzero : (observed toJson (self.start asks s)).shared.2 = 0 := rfl
  rw [hzero] at hlt
  unfold tickCount at hcount
  omega

/-- **What a collector has.**  There is an interleaving of the calls in which `emit` is one step, with
the same cache and provider operations, and the calls return the same.  The records of all calls
arrive in any order; who sorts them by tick and decodes them has, of every call that has returned,
the events that it emitted in that interleaving, in this order. -/
theorem collected_events [Nonempty ω] [Nonempty A] {floats : WireFloats} {backend : ω → Cache σ}
    {s : σ} {log : List (ι × Event (Observed L A))}
    {d : Pool (Observed L A) ι (Result (NormalizedResponse (CompletionResponse R))) (σ × Nat)}
    (h : Exec (counting tickCount (serve backend))
      (observed (TokudoEnvelope.toJson floats) (self.start asks s)) log d)
    (hcount : (taken (log.map Prod.snd)).length ≤ tickCount) :
    ∃ log₀ d₀, Exec (serve backend) (self.start asks s) log₀ d₀ ∧
      log₀.filter (fun x => x.2.op.emitted.isNone) = baseLog log ∧
      ∀ arrived, List.Perm arrived (receipts log) →
        (arrived.Pairwise fun a b => a.2.tick ≤ b.2.tick) → ∀ i a, d.threads i = .ret a →
          d₀.threads i = .ret a ∧ List.Forall₂ (ReadsAs floats) (emitted (eventsOf i log₀))
            ((arrived.filter fun x => x.1 = i).map Prod.snd) := by
  obtain ⟨log₀, d₀, hexec, -, hlog, hret⟩ := self.behind_of_observed h
  refine ⟨log₀, d₀, hexec, hlog, fun arrived hall hsorted i a hi => ?_⟩
  obtain ⟨hi₀, hcarries⟩ := hret i a hi
  obtain ⟨hrecords, htaken⟩ := published_of_carriesOut (fun _ => ⟨_, rfl⟩) hcarries
  have hticks := taken_of_history h.history (by simpa [observed] using hcount)
  refine ⟨hi₀, ?_⟩
  rw [sorted_restores (orderly_of_exec h) hticks hall hsorted i]
  apply readsAs_of_records hrecords
  intro record hrecord
  apply self.tick_le_of_published h hcount (i := i)
  rw [← htaken]
  exact List.mem_map_of_mem hrecord

/-- the records of both calls, as they come, are sorted -/
theorem turns_collected :
    ∃ log₀ d₀, Exec (serve (InMemoryCache default)) (tracedModel.start twoAsks InMemoryCache.init)
      log₀ d₀ ∧ ∀ i, (∃ n, d₀.threads i = .ret (.ok n)) ∧
        List.Forall₂ (ReadsAs TokudoEnvelope.decimalWire) (emitted (eventsOf i log₀))
          (((receipts (turns (TokudoEnvelope.toJson TokudoEnvelope.decimalWire)).1).filter
            fun x => x.1 = i).map Prod.snd) := by
  have : Nonempty Clock := ⟨⟨0, 0⟩⟩
  have hlen : (taken ((turns (TokudoEnvelope.toJson TokudoEnvelope.decimalWire)).1.map
    Prod.snd)).length = 8 := rfl
  have hticks : (receipts (turns (TokudoEnvelope.toJson TokudoEnvelope.decimalWire)).1).map
      (fun x => x.2.tick) = [0, 1, 2, 3, 4, 5, 6, 7] := rfl
  have hsorted : (receipts (turns (TokudoEnvelope.toJson TokudoEnvelope.decimalWire)).1).Pairwise
      fun a b => a.2.tick ≤ b.2.tick := by
    apply List.pairwise_map.mp
    rw [hticks]
    decide
  obtain ⟨log₀, d₀, hexec, -, hread⟩ := tracedModel.collected_events
    (exec_turns (TokudoEnvelope.toJson TokudoEnvelope.decimalWire)) (by rw [hlen]; decide)
  replace hread := hread _ (.refl _) hsorted
  refine ⟨log₀, d₀, hexec, fun i => ?_⟩
  cases i
  · exact ⟨⟨_, (hread false _ rfl).1⟩, (hread false _ rfl).2⟩
  · exact ⟨⟨_, (hread true _ rfl).1⟩, (hread true _ rfl).2⟩

/-- **Telemetry does not interfere.**  What the calls do to the cache and the provider, and what they
return, they do when `emit` is one step that nobody sees: the cache goes through the same operations
in the same order, to the same state. -/
theorem observed_erases [Nonempty ω] [Nonempty A] {backend : ω → Cache σ} {s : σ}
    {toJson : TokudoEnvelope → Except String String} {log : List (ι × Event (Observed L A))}
    {d : Pool (Observed L A) ι (Result (NormalizedResponse (CompletionResponse R))) (σ × Nat)}
    (h : Exec (counting tickCount (serve backend)) (observed toJson (self.start asks s)) log d) :
    ∃ log₀ d₀, Exec (serve backend) (self.start asks s) log₀ d₀ ∧ d₀.shared = d.shared.1 ∧
      log₀.filter (fun x => x.2.op.emitted.isNone) = baseLog log ∧
      ∀ i a, d.threads i = .ret a → d₀.threads i = .ret a := by
  obtain ⟨log₀, d₀, hexec, hshared, hlog, hret⟩ := self.behind_of_observed h
  exact ⟨log₀, d₀, hexec, hshared, hlog, fun i a hi => (hret i a hi).1⟩

/-- both calls miss, whatever is emitted between their reads -/
theorem turns_erased :
    ∃ log₀ d₀, Exec (serve (InMemoryCache default)) (tracedModel.start twoAsks InMemoryCache.init)
      log₀ d₀ ∧ ∀ i, ∃ n, d₀.threads i = .ret (.ok n) ∧ n.provenance.cacheHit = false := by
  have : Nonempty Clock := ⟨⟨0, 0⟩⟩
  obtain ⟨log₀, d₀, hexec, -, -, hret⟩ := tracedModel.observed_erases (exec_turns fun _ => .ok "")
  refine ⟨log₀, d₀, hexec, fun i => ?_⟩
  cases i
  · exact ⟨_, hret false _ rfl, rfl⟩
  · exact ⟨_, hret true _ rfl, rfl⟩

end OptimizedModel

end Tokudo
