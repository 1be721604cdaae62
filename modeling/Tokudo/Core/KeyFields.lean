import Tokudo.Core.TextSerde

/-!
# What the default key tells apart

`DefaultCacheKey` hashes a projection of the request.  Two calls share a key exactly if they agree
on every field of the projection (`SameFields`) and their temperatures share a bucket.

* `key_eq_iff`           that is when two keys are equal;
* `tempBucket_eq_iff`    a shared bucket is the same tenth, or a collision: no temperature and one
                         that rounds to `0.0`, or two beyond the range of `i64` on the same side;
* `key_separates_iff`    **so a key tells the documented fields apart unless two calls agree on all
                         the others and their temperatures collide.**
-/

namespace Tokudo

/-- the fields that the key documents, but for the temperature -/
structure SameFields (r r' : CompletionRequest) (o o' : TokudoOptions) : Prop where
  preamble : r.preamble = r'.preamble
  model : r.model = r'.model
  chatHistory : r.chatHistory = r'.chatHistory
  tools : r.tools.map (fun t => (t.name, t.description)) =
    r'.tools.map fun t => (t.name, t.description)
  maxTokens : r.maxTokens = r'.maxTokens
  outputSchema : r.outputSchema.isSome = r'.outputSchema.isSome
  cacheNamespace : o.cacheNamespace = o'.cacheNamespace

/-- both absent, or both in one bucket of a tenth -/
def SameTemperature : Option F64 → Option F64 → Prop
  | none, none => True
  | some s, some t => tenthBucket s = tenthBucket t
  | _, _ => False

/-- not the same temperature, and yet hashed alike -/
def TemperaturesCollide : Option F64 → Option F64 → Prop
  | none, none => False
  | none, some t => tenthBucket t = 0
  | some t, none => tenthBucket t = 0
  | some s, some t => tenthBucket s ≠ tenthBucket t ∧
    ((2 ^ 63 - 1 ≤ tenthBucket s ∧ 2 ^ 63 - 1 ≤ tenthBucket t) ∨
      (tenthBucket s ≤ -2 ^ 63 ∧ tenthBucket t ≤ -2 ^ 63))

/-! ## buckets -/

theorem asI64_eq_zero {z : ℤ} : asI64 z = 0 ↔ z = 0 := by
  unfold asI64
  omega

theorem asI64_eq_iff {a b : ℤ} :
    asI64 a = asI64 b ↔ a = b ∨ (a ≠ b ∧ ((2 ^ 63 - 1 ≤ a ∧ 2 ^ 63 - 1 ≤ b) ∨
      (a ≤ -2 ^ 63 ∧ b ≤ -2 ^ 63))) := by
  unfold asI64
  omega

theorem tempBucket_eq_iff {t t' : Option F64} :
    tempBucket t = tempBucket t' ↔ SameTemperature t t' ∨ TemperaturesCollide t t' := by
  cases t with
  | none =>
    cases t' with
    | none => exact ⟨fun _ => .inl trivial, fun _ => rfl⟩
    | some t' =>
      have h : tempBucket none = tempBucket (some t') ↔ tenthBucket t' = 0 := by
        rw [eq_comm]
        exact asI64_eq_zero
      rw [h]
      exact ⟨.inr, fun h => h.resolve_left id⟩
  | some t =>
    cases t' with
    | none =>
      have h : tempBucket (some t) = tempBucket none ↔ tenthBucket t = 0 := asI64_eq_zero
      rw [h]
      exact ⟨.inr, fun h => h.resolve_left id⟩
    | some t' => exact asI64_eq_iff

/-- what collides is not the same -/
theorem not_same_of_collide {t t' : Option F64} (h : TemperaturesCollide t t') :
    ¬ SameTemperature t t' := by
  cases t with
  | none =>
    cases t' with
    | none => exact absurd h id
    | some t' => exact id
  | some t =>
    cases t' with
    | none => exact id
    | some t' => exact h.1

/-! ## the projection -/

theorem toolSigs_eq_iff {ts ts' : List ToolDefinition} :
    ts.map toolSig = ts'.map toolSig ↔
      ts.map (fun t => (t.name, t.description)) = ts'.map fun t => (t.name, t.description) := by
  let sig : String × String → Json := fun p => .obj [("desc", .str p.2), ("name", .str p.1)]
  have hsig : Function.Injective sig := by
    rintro ⟨n, d⟩ ⟨n', d'⟩ h
    simp only [sig, Json.obj.injEq, List.cons.injEq, Prod.mk.injEq, Json.str.injEq, true_and,
      and_true] at h
    rw [h.1, h.2]
  have hmap : ∀ ts : List ToolDefinition,
      ts.map toolSig = (ts.map fun t => (t.name, t.description)).map sig := by
    intro ts
    rw [List.map_map]
    rfl
  rw [hmap, hmap]
  exact (List.map_injective_iff.mpr hsig).eq_iff

theorem ofNat?_injective {m n : Option Nat}
    (h : Json.ofOption Json.ofNat m = Json.ofOption Json.ofNat n) : m = n := by
  cases m with
  | none =>
    cases n with
    | none => rfl
    | some n => cases h
  | some m =>
    cases n with
    | none => cases h
    | some n =>
      simp only [Json.ofOption, Json.ofNat, Json.num.injEq, JsonNumber.mk.injEq, and_true] at h
      rw [Int.ofNat_inj.mp h]

section
variable {serde : KeySerde} {r r' : CompletionRequest} {o o' : TokudoOptions} {k k' : String}

theorem projection_eq_iff (hhist : Function.Injective serde.chatHistoryToValue) :
    projection serde r o = projection serde r' o' ↔
      SameFields r r' o o' ∧ tempBucket r.temperature = tempBucket r'.temperature := by
  unfold projection
  simp only [Json.obj.injEq, List.cons.injEq, Prod.mk.injEq, Json.bool.injEq, Json.num.injEq,
    JsonNumber.mk.injEq, Json.arr.injEq, true_and, and_true]
  constructor
  · rintro ⟨hchat, hschema, hmax, hmodel, hns, hpre, htemp, htools⟩
    exact ⟨⟨Json.ofString?_injective hpre, Json.ofString?_injective hmodel, hhist hchat,
      toolSigs_eq_iff.mp htools, ofNat?_injective hmax, hschema, Json.ofString?_injective hns⟩,
      htemp⟩
  · rintro ⟨⟨hpre, hmodel, hchat, htools, hmax, hschema, hns⟩, htemp⟩
    refine ⟨?_, hschema, ?_, ?_, ?_, ?_, htemp, toolSigs_eq_iff.mpr htools⟩
    · rw [hchat]
    · rw [hmax]
    · rw [hmodel]
    · rw [hns]
    · rw [hpre]

/-- **When two calls share a key.** -/
theorem key_eq_iff (hs : serde.Injective) (hhist : Function.Injective serde.chatHistoryToValue)
    (h : (DefaultCacheKey serde).key r o = .ok k)
    (h' : (DefaultCacheKey serde).key r' o' = .ok k') :
    k = k' ↔ SameFields r r' o o' ∧ tempBucket r.temperature = tempBucket r'.temperature := by
  rw [← projection_eq_iff hhist]
  constructor
  · rintro rfl
    exact projection_eq_of_key_eq hs h h'
  · intro hp
    have hkey : (DefaultCacheKey serde).key r o = (DefaultCacheKey serde).key r' o' := by
      simp only [DefaultCacheKey, hp]
    exact Except.ok.inj (h.symm.trans (hkey.trans h'))

/-- **What a key tells apart.**  Calls with one key agree on every documented field, unless they
agree on all but the temperatures and these collide. -/
theorem key_separates_iff (hs : serde.Injective)
    (hhist : Function.Injective serde.chatHistoryToValue)
    (h : (DefaultCacheKey serde).key r o = .ok k)
    (h' : (DefaultCacheKey serde).key r' o' = .ok k') :
    (k = k' → SameFields r r' o o' ∧ SameTemperature r.temperature r'.temperature) ↔
      ¬ (SameFields r r' o o' ∧ TemperaturesCollide r.temperature r'.temperature) := by
  rw [key_eq_iff hs hhist h h', tempBucket_eq_iff]
  constructor
  · rintro hsep ⟨hfields, hcollide⟩
    have hsame := hsep ⟨hfields, .inr hcollide⟩
    exact not_same_of_collide hcollide hsame.2
  · rintro hno ⟨hfields, hsame | hcollide⟩
    · exact ⟨hfields, hsame⟩
    · exact absurd ⟨hfields, hcollide⟩ hno

end

/-! ## a serde that keeps every part of a message -/

/-- a plain text as it is serialised; a block, and the other fields of a text, under a name of
their own -/
def userPartToValue : UserContent → Json
  | .text ⟨text, .null⟩ => userContentToValue (.text ⟨text, .null⟩)
  | .text ⟨text, extra⟩ => .obj [("extra", extra), ("text", .str text), ("type", .str "text")]
  | .other block => .obj [("block", block)]

def assistantPartToValue : AssistantContent → Json
  | .text ⟨text, .null⟩ => assistantContentToValue (.text ⟨text, .null⟩)
  | .text ⟨text, extra⟩ => .obj [("extra", extra), ("text", .str text)]
  | .other block => .obj [("block", block)]

def messagePartsToValue : Message → Json
  | .system content => messageToValue (.system content)
  | .user content =>
    .obj [("content", .arr (content.toList.map userPartToValue)), ("role", .str "user")]
  | .assistant id content =>
    .obj [("content", .arr (content.toList.map assistantPartToValue)), ("id", Json.ofString? id),
      ("role", .str "assistant")]

def historyPartsToValue (history : OneOrMany Message) : Json :=
  .arr (history.toList.map messagePartsToValue)

theorem userPartToValue_injective : Function.Injective userPartToValue := by
  intro a b h
  unfold userPartToValue at h
  split at h <;> split at h <;> simp_all [userContentToValue]

theorem assistantPartToValue_injective : Function.Injective assistantPartToValue := by
  intro a b h
  unfold assistantPartToValue at h
  split at h <;> split at h <;> simp_all [assistantContentToValue]

theorem toList_injective {α : Type} : Function.Injective (OneOrMany.toList (α := α)) := by
  rintro ⟨a, as⟩ ⟨b, bs⟩ h
  obtain ⟨rfl, rfl⟩ := List.cons.inj h
  rfl

theorem partsToValue_injective {α : Type} {f : α → Json} (hf : Function.Injective f) :
    Function.Injective fun l : OneOrMany α => l.toList.map f :=
  (List.map_injective_iff.mpr hf).comp toList_injective

theorem messagePartsToValue_injective : Function.Injective messagePartsToValue := by
  intro a b h
  cases a with
  | system c =>
    cases b with
    | system c' => simpa [messagePartsToValue, messageToValue] using h
    | user c' => simp [messagePartsToValue, messageToValue] at h
    | assistant id' c' => simp [messagePartsToValue, messageToValue] at h
  | user c =>
    cases b with
    | system c' => simp [messagePartsToValue, messageToValue] at h
    | user c' =>
      simp only [messagePartsToValue, Json.obj.injEq, List.cons.injEq, Prod.mk.injEq,
        Json.arr.injEq, true_and, and_true] at h
      rw [partsToValue_injective userPartToValue_injective h]
    | assistant id' c' => simp [messagePartsToValue] at h
  | assistant id c =>
    cases b with
    | system c' => simp [messagePartsToValue, messageToValue] at h
    | user c' => simp [messagePartsToValue] at h
    | assistant id' c' =>
      simp only [messagePartsToValue, Json.obj.injEq, List.cons.injEq, Prod.mk.injEq,
        Json.arr.injEq, true_and, and_true] at h
      obtain ⟨hc, hid⟩ := h
      rw [partsToValue_injective assistantPartToValue_injective hc, Json.ofString?_injective hid]

theorem historyPartsToValue_injective : Function.Injective historyPartsToValue := by
  intro a b h
  exact partsToValue_injective messagePartsToValue_injective (Json.arr.inj h)

def partsKeySerde : KeySerde := { textKeySerde with chatHistoryToValue := historyPartsToValue }

theorem partsKeySerde_injective : partsKeySerde.Injective where
  sha := textKeySerde_injective.sha
  text := textKeySerde_injective.text

/-- two prompts: their keys tell them apart -/
theorem prompts_separated :
    ∃ k k', (DefaultCacheKey partsKeySerde).key (promptRequest "hi") {} = .ok k ∧
      (DefaultCacheKey partsKeySerde).key (promptRequest "bye") {} = .ok k' ∧ k ≠ k' := by
  have hk : (DefaultCacheKey partsKeySerde).key (promptRequest "hi") {} = .ok _ := rfl
  have hk' : (DefaultCacheKey partsKeySerde).key (promptRequest "bye") {} = .ok _ := rfl
  refine ⟨_, _, hk, hk', fun h => ?_⟩
  have hsep := (key_separates_iff partsKeySerde_injective historyPartsToValue_injective hk hk').mpr
    (fun hc => hc.2)
  have hhist : (promptRequest "hi").chatHistory = (promptRequest "bye").chatHistory :=
    (hsep h).1.chatHistory
  simp [promptRequest, OneOrMany.one] at hhist

/-- **No temperature and the temperature `0.0` share a key.** -/
theorem zero_temperature_collides :
    partsKeySerde.Injective ∧ Function.Injective partsKeySerde.chatHistoryToValue ∧
    ∃ k, (DefaultCacheKey partsKeySerde).key (promptRequest "hi") {} = .ok k ∧
      (DefaultCacheKey partsKeySerde).key { promptRequest "hi" with temperature := some 0 } {} =
        .ok k ∧
      ¬ SameTemperature none (some 0) := by
  refine ⟨partsKeySerde_injective, historyPartsToValue_injective, _, rfl, ?_, id⟩
  have hzero : tempBucket (some 0) = 0 := by
    have h : tenthBucket 0 = 0 := by norm_num [tenthBucket, roundHalfAway]
    show asI64 (tenthBucket 0) = 0
    rw [h]
    rfl
  have hproj : projection partsKeySerde { promptRequest "hi" with temperature := some 0 } {} =
      projection partsKeySerde (promptRequest "hi") {} := by
    unfold projection
    show Json.obj [_, _, _, _, _, _, ("temperature_bucket", .num ⟨tempBucket (some 0), 0⟩), _] = _
    rw [hzero]
    rfl
  have hkey : (DefaultCacheKey partsKeySerde).key
      { promptRequest "hi" with temperature := some 0 } {} =
        (DefaultCacheKey partsKeySerde).key (promptRequest "hi") {} := by
    simp only [DefaultCacheKey, hproj]
  exact hkey

end Tokudo
