import Tokudo.Cache.Semantic
import Mathlib.Data.List.Induction

/-!
# Namespaces in the durable semantic cache

`cache/memvid.rs` under `DefaultCacheKey` and `SemanticCacheKey`.  A frame carries the key it was
put under, and the key tells the namespace; but a `get` does not compare it with its own.

* `mem_frames_iff`             the frames of the store are those of the puts;
* `separated_iff`              if every frame is read back, any can be served to any namespace;
* `namespaces_separated_iff`   **so it is under `DefaultCacheKey`; under `SemanticCacheKey` no frame
                               is read back, and nothing is served.**
-/

namespace Tokudo

/-! ## puts -/

/-- a request whose answer is put into the cache -/
structure Put where
  request : CompletionRequest
  options : TokudoOptions
  entry : CachedEntry

section
variable (serde : MemvidSerde) (config : MemvidSemanticCacheConfig) (keyer : CacheKey)

/-- the text that a put stores -/
def Put.Frame (put : Put) (text : String) : Prop :=
  ∃ key, keyer.key put.request put.options = .ok key ∧
    encodeCacheFrame serde.frame key put.entry = .ok text

/-- these puts have succeeded, one after the other, and left these frames -/
inductive StoredPuts (store : MemvidStore) : List Put → List String → Prop where
  | empty : StoredPuts store [] []
  | stored {puts : List Put} {frames frames' : List String} {put : Put} {key : String}
      (h : StoredPuts store puts frames) (hk : keyer.key put.request put.options = .ok key)
      (hput : (MemvidSemanticCache serde config store).put key put.entry frames = (.ok (), frames')) :
      StoredPuts store (puts ++ [put]) frames'
  | failed {puts : List Put} {frames frames' : List String} {key : String} {entry : CachedEntry}
      {e : TokudoError} (h : StoredPuts store puts frames)
      (hput : (MemvidSemanticCache serde config store).put key entry frames = (.error e, frames')) :
      StoredPuts store puts frames'

/-- whatever stored frames a search returns: what a `get` under this key is served from is a frame
that was put by a request under the namespace -/
def Separated (puts : List Put) (frames : List String) (key : String) (ns : Option String) : Prop :=
  ∀ store : MemvidStore, store.Lawful → ∀ e,
    ((MemvidSemanticCache serde config store).get key frames).1 = .ok (some e) →
    ∃ hits hit entry, store.search (searchRequest config key) frames = .ok hits ∧ hit ∈ hits ∧
      Serves serde config hit entry ∧
      e = entry.annotate (serde.asF32 (hitScore hit)) (toString hit.frameId) ∧
      ∃ put ∈ puts, put.options.cacheNamespace = ns ∧ put.Frame serde keyer hit.text

variable {serde config keyer} {store : MemvidStore} {puts : List Put} {frames : List String}

theorem memvid_put_ok {key : String} {entry : CachedEntry} {frames' : List String}
    (h : (MemvidSemanticCache serde config store).put key entry frames = (.ok (), frames')) :
    ∃ text, encodeCacheFrame serde.frame key entry = .ok text ∧ frames' = frames ++ [text] := by
  unfold MemvidSemanticCache at h
  dsimp only at h
  cases he : encodeCacheFrame serde.frame key entry with
  | error e =>
    rw [he] at h
    cases h
  | ok text =>
    rw [he] at h
    dsimp only at h
    cases hp : store.putText text (putOptions serde config key) frames with
    | error e =>
      rw [hp] at h
      cases h
    | ok u =>
      rw [hp] at h
      cases h
      exact ⟨text, rfl, rfl⟩

theorem memvid_put_of_encode {key text : String} {entry : CachedEntry}
    (hencode : encodeCacheFrame serde.frame key entry = .ok text)
    (hput : store.putText text (putOptions serde config key) frames = .ok ()) :
    (MemvidSemanticCache serde config store).put key entry frames = (.ok (), frames ++ [text]) := by
  unfold MemvidSemanticCache
  dsimp only
  rw [hencode]
  dsimp only
  rw [hput]

theorem memvid_put_error {key : String} {entry : CachedEntry} {frames' : List String}
    {e : TokudoError}
    (h : (MemvidSemanticCache serde config store).put key entry frames = (.error e, frames')) :
    frames' = frames := by
  unfold MemvidSemanticCache at h
  dsimp only at h
  cases he : encodeCacheFrame serde.frame key entry with
  | error e' =>
    rw [he] at h
    cases h
    rfl
  | ok text =>
    rw [he] at h
    dsimp only at h
    cases hp : store.putText text (putOptions serde config key) frames with
    | error e' =>
      rw [hp] at h
      cases h
      rfl
    | ok u =>
      rw [hp] at h
      cases h

/-- **The stored frames are those of the puts.** -/
theorem mem_frames_iff (h : StoredPuts serde config keyer store puts frames) (text : String) :
    text ∈ frames ↔ ∃ put ∈ puts, put.Frame serde keyer text := by
  induction h with
  | empty => simp
  | @stored puts frames frames' put key h hk hput ih =>
    obtain ⟨text', hencode, rfl⟩ := memvid_put_ok hput
    have hframe : put.Frame serde keyer text ↔ text = text' := by
      constructor
      · rintro ⟨key', hk', hencode'⟩
        rw [hk] at hk'
        cases hk'
        rw [hencode] at hencode'
        exact (Except.ok.inj hencode').symm
      · rintro rfl
        exact ⟨key, hk, hencode⟩
    rw [List.mem_append, List.mem_singleton, ih, ← hframe]
    simp only [List.mem_append, List.mem_singleton, or_and_right, exists_or, exists_eq_left]
  | @failed puts frames frames' key entry e h hput ih =>
    rw [memvid_put_error hput]
    exact ih

/-- **What can be read back can be served to anyone**: if every frame is read back, the puts are
separated from a namespace exactly if every frame was put under it. -/
theorem separated_iff (h : StoredPuts serde config keyer store puts frames)
    (hread : ∀ text ∈ frames, ∃ entry, decodeCacheFrame serde.frame text = .ok entry) (key : String)
    (ns : Option String) :
    Separated serde config keyer puts frames key ns ↔ ∀ text, ∀ put ∈ puts,
      put.Frame serde keyer text →
        ∃ put' ∈ puts, put'.options.cacheNamespace = ns ∧ put'.Frame serde keyer text := by
  constructor
  · intro hsep text put hput hframe
    have hin : text ∈ frames := (mem_frames_iff h text).mpr ⟨put, hput, hframe⟩
    obtain ⟨entry, hdecode⟩ := hread text hin
    obtain ⟨e, hget, -, -⟩ := insistentStore_get serde config hin hdecode key
    obtain ⟨hits, hit, entry', hhits, hm, -, -, hput'⟩ :=
      hsep _ (insistentStore_lawful text) e hget
    rw [insistentStore_search hin] at hhits
    cases hhits
    rw [List.mem_singleton.mp hm] at hput'
    exact hput'
  · intro hall store' hlawful e hget
    obtain ⟨hits, hhits, hserved⟩ := (memvid_get_eq_some_iff serde config).mp hget
    obtain ⟨pre, hit, post, entry, rfl, -, hserves, he⟩ :=
      (firstEntry_eq_some_iff serde config).mp hserved
    have hm : hit ∈ pre ++ hit :: post := List.mem_append_right _ List.mem_cons_self
    obtain ⟨put, hput, hframe⟩ := (mem_frames_iff h _).mp (hlawful _ _ _ hhits hit hm)
    exact ⟨_, hit, entry, hhits, hm, hserves, he, hall hit.text put hput hframe⟩

/-- **What cannot be read back is not served.** -/
theorem separated_of_unreadable
    (hnone : ∀ text ∈ frames, ∀ e, decodeCacheFrame serde.frame text ≠ .ok e) (key : String)
    (ns : Option String) : Separated serde config keyer puts frames key ns := by
  intro store' hlawful e hget
  obtain ⟨hits, hhits, hserved⟩ := (memvid_get_eq_some_iff serde config).mp hget
  obtain ⟨pre, hit, post, entry, rfl, -, hserves, -⟩ :=
    (firstEntry_eq_some_iff serde config).mp hserved
  have hm : hit ∈ pre ++ hit :: post := List.mem_append_right _ List.mem_cons_self
  exact absurd hserves.decoded (hnone _ (hlawful _ _ _ hhits hit hm) entry)

/-! ## the two kinds of keys -/

/-- `serde_json` reads no entry from an object without a response -/
def FrameSerde.RequiresResponse (serde : FrameSerde) : Prop :=
  ∀ fields json e, serde.valueToString (.obj fields) = .ok json →
    Json.field? "response" fields = none → serde.deserialize json ≠ .ok e

theorem jsonFrameSerde_requiresResponse : jsonFrameSerde.RequiresResponse := by
  intro fields json e hjson hmissing h
  cases hjson
  change entryFromText _ = _ at h
  rw [entryFromText, Json.text, String.toList_ofList, Json.read_chars] at h
  change entryFromFields fields = _ at h
  rw [entryFromFields, hmissing] at h
  cases h

/-- frames under digests are read back -/
theorem readable_of_digest (hs : serde.frame.Lawful) {keySerde : KeySerde}
    (hhex : ∀ bytes, '{' ∉ (keySerde.sha256Hex bytes).toList)
    (h : StoredPuts serde config (DefaultCacheKey keySerde) store puts frames) :
    ∀ text ∈ frames, ∃ entry, decodeCacheFrame serde.frame text = .ok entry := by
  intro text hm
  obtain ⟨put, -, key, hk, hencode⟩ := (mem_frames_iff h text).mp hm
  have hkey : '{' ∉ key.toList := by
    simp only [DefaultCacheKey] at hk
    cases hv : keySerde.toVec (projection keySerde put.request put.options) with
    | error e =>
      rw [hv] at hk
      cases hk
    | ok bytes =>
      rw [hv] at hk
      cases hk
      exact hhex bytes
  obtain ⟨text', hencode', hdecode⟩ := decode_of_noBrace hs key put.entry hkey
  rw [hencode] at hencode'
  cases hencode'
  exact ⟨put.entry, hdecode⟩

/-- frames under JSON texts are not -/
theorem unreadable_of_projection (hs : serde.frame.Framed) (hr : serde.frame.RequiresResponse)
    {chatHistoryToValue : OneOrMany Message → Json} (put : Put) {text : String}
    (h : put.Frame serde (SemanticCacheKey chatHistoryToValue serde.frame.valueToString) text)
    (e : CachedEntry) : decodeCacheFrame serde.frame text ≠ .ok e := by
  intro hdecode
  obtain ⟨key, hk, hencode⟩ := h
  simp only [SemanticCacheKey] at hk
  cases hv : serde.frame.valueToString (.obj [("chat_history",
      chatHistoryToValue put.request.chatHistory),
      ("namespace", Json.ofString? put.options.cacheNamespace),
      ("preamble", Json.ofString? put.request.preamble)]) with
  | error e =>
    rw [hv] at hk
    cases hk
  | ok json =>
    rw [hv] at hk
    cases hk
    obtain ⟨cs, hcs⟩ := hs.brace _ _ hv
    have hbrace : '{' ∈ key.toList := by
      rw [hcs]
      exact List.mem_cons_self
    have hfrom : fromBrace key = key := by
      unfold fromBrace
      rw [hcs, List.dropWhile_cons_of_neg (by decide), ← hcs, String.ofList_toList]
    obtain ⟨object, json', cs', hj, hkey, heq⟩ := decode_in_key hs hbrace hencode
    rw [heq] at hdecode
    have hread := hs.line object json' cs' e hj hdecode
    rw [← hkey, hfrom] at hread
    exact hr _ _ _ hv rfl hread

end

/-- **When durable semantic hits stay inside their namespace.**  Any history of puts, any later
`get`, any search that returns stored frames.  Under `DefaultCacheKey` a `get` for a namespace is
served only what was put under it exactly if every frame stored was put under it.  Under
`SemanticCacheKey` it always is, since nothing is served. -/
theorem namespaces_separated_iff (serde : MemvidSerde) (hs : serde.frame.Lawful)
    (hr : serde.frame.RequiresResponse) (config : MemvidSemanticCacheConfig) (store : MemvidStore) :
    (∀ (keySerde : KeySerde) puts frames request options key,
      (∀ bytes, '{' ∉ (keySerde.sha256Hex bytes).toList) →
      StoredPuts serde config (DefaultCacheKey keySerde) store puts frames →
      (DefaultCacheKey keySerde).key request options = .ok key →
      (Separated serde config (DefaultCacheKey keySerde) puts frames key options.cacheNamespace ↔
        ∀ text, ∀ put ∈ puts, put.Frame serde (DefaultCacheKey keySerde) text →
          ∃ put' ∈ puts, put'.options.cacheNamespace = options.cacheNamespace ∧
            put'.Frame serde (DefaultCacheKey keySerde) text)) ∧
    (∀ (chatHistoryToValue : OneOrMany Message → Json) puts frames request options key,
      StoredPuts serde config (SemanticCacheKey chatHistoryToValue serde.frame.valueToString) store
        puts frames →
      (SemanticCacheKey chatHistoryToValue serde.frame.valueToString).key request options = .ok key →
      Separated serde config (SemanticCacheKey chatHistoryToValue serde.frame.valueToString) puts
        frames key options.cacheNamespace) := by
  constructor
  · intro keySerde puts frames request options key hhex h _
    exact separated_iff h (readable_of_digest hs hhex h) key options.cacheNamespace
  · intro chatHistoryToValue puts frames request options key h _
    refine separated_of_unreadable (fun text hm => ?_) key options.cacheNamespace
    obtain ⟨put, -, hframe⟩ := (mem_frames_iff h text).mp hm
    exact unreadable_of_projection hs.framed hr put hframe

/-! ## two tenants -/

theorem hexDigest_noBrace (bytes : List UInt8) : '{' ∉ (hexDigest bytes).toList := by
  intro hm
  rw [hexDigest, String.toList_ofList, hexChars, List.mem_flatMap] at hm
  obtain ⟨b, -, hm⟩ := hm
  have hb := b.toNat_lt
  have hdigit : ∀ n < 16, Nat.digitChar n ≠ '{' := by decide
  rcases List.mem_pair.mp hm with h | h
  · exact hdigit _ (by omega) h.symm
  · exact hdigit _ (by omega) h.symm

def tenant (name : String) : TokudoOptions := { cacheNamespace := some name }

/-- tenant `a` has asked, and has been answered -/
def tenantPut : Put := ⟨promptRequest "hi", tenant "a", ⟨.str "secret of a", none, none, "a"⟩⟩

/-- a store that takes every frame, and finds none -/
def emptyStore : MemvidStore where
  search _ _ := .ok []
  putText _ _ _ := .ok ()

/-- it stores puts whose frames can be written -/
theorem exists_storedPuts {keyer : CacheKey} (puts : List Put)
    (h : ∀ put ∈ puts, ∃ text, put.Frame textMemvidSerde keyer text) :
    ∃ frames, StoredPuts textMemvidSerde default keyer emptyStore puts frames := by
  induction puts using List.reverseRecOn with
  | nil => exact ⟨[], .empty⟩
  | append_singleton puts put ih =>
    obtain ⟨frames, hstored⟩ := ih fun p hp => h p (List.mem_append_left _ hp)
    obtain ⟨text, key, hk, hencode⟩ := h put (List.mem_append_right _ List.mem_cons_self)
    exact ⟨frames ++ [text], .stored hstored hk (memvid_put_of_encode hencode rfl)⟩

theorem digest_frame (put : Put) :
    ∃ text, put.Frame textMemvidSerde (DefaultCacheKey textKeySerde) text := ⟨_, _, rfl, rfl⟩

abbrev textSemanticKey : CacheKey := SemanticCacheKey historyToValue jsonFrameSerde.valueToString

theorem text_frame (put : Put) : ∃ text, put.Frame textMemvidSerde textSemanticKey text :=
  ⟨_, _, rfl, rfl⟩

/-- the same request is answered again, and another one -/
def tenantPuts : List Put :=
  [tenantPut, ⟨promptRequest "hi", tenant "a", ⟨.str "newer", none, none, "a"⟩⟩,
    ⟨{ promptRequest "hi" with preamble := some "be brief" }, tenant "a",
      ⟨.str "short", none, none, "a"⟩⟩]

def otherPut : Put := ⟨promptRequest "hi", tenant "b", ⟨.str "secret of b", none, none, "b"⟩⟩

/-- one tenant alone is served its own frames; under texts, so are two -/
theorem tenants_separated :
    (∃ frames key, StoredPuts textMemvidSerde default (DefaultCacheKey textKeySerde) emptyStore
        tenantPuts frames ∧
      Separated textMemvidSerde default (DefaultCacheKey textKeySerde) tenantPuts frames key
        (some "a")) ∧
    ∃ frames key, StoredPuts textMemvidSerde default textSemanticKey emptyStore
        (tenantPuts ++ [otherPut]) frames ∧
      Separated textMemvidSerde default textSemanticKey (tenantPuts ++ [otherPut]) frames key
        (some "b") := by
  obtain ⟨hdigests, htexts⟩ := namespaces_separated_iff textMemvidSerde jsonFrameSerde_lawful
    jsonFrameSerde_requiresResponse default emptyStore
  constructor
  · obtain ⟨frames, hstored⟩ :=
      exists_storedPuts tenantPuts fun put _ => digest_frame put
    refine ⟨frames, _, hstored, (hdigests textKeySerde tenantPuts frames (promptRequest "hi")
      (tenant "a") _ hexDigest_noBrace hstored rfl).mpr fun text put hput hframe => ?_⟩
    have hnamespace : ∀ put ∈ tenantPuts, put.options.cacheNamespace = some "a" := by decide
    exact ⟨put, hput, hnamespace put hput, hframe⟩
  · obtain ⟨frames, hstored⟩ :=
      exists_storedPuts (tenantPuts ++ [otherPut]) fun put _ => text_frame put
    exact ⟨frames, _, hstored,
      htexts historyToValue _ frames (promptRequest "hi") (tenant "b") _ hstored rfl⟩

/-- **Tenant `b` is served what tenant `a` was answered.** -/
theorem tenant_leak : ∃ (store : MemvidStore) (frames : List String) (key : String) (e : CachedEntry),
    store.Lawful ∧
    StoredPuts textMemvidSerde default (DefaultCacheKey textKeySerde) emptyStore [tenantPut] frames ∧
    (DefaultCacheKey textKeySerde).key (promptRequest "hi") (tenant "b") = .ok key ∧
    ((MemvidSemanticCache textMemvidSerde default store).get key frames).1 = .ok (some e) ∧
    e.response = .str "secret of a" := by
  obtain ⟨text, hencode, hdecode⟩ := decode_of_noBrace jsonFrameSerde_lawful _ tenantPut.entry
    (hexDigest_noBrace (utf8 (projection textKeySerde tenantPut.request tenantPut.options).text))
  have hstored : StoredPuts textMemvidSerde default (DefaultCacheKey textKeySerde) emptyStore
      [tenantPut] [text] := .stored .empty rfl (memvid_put_of_encode hencode rfl)
  have hin : text ∈ [text] := List.mem_cons_self
  obtain ⟨e, hget, hresponse, -⟩ := insistentStore_get textMemvidSerde default hin hdecode _
  exact ⟨insistentStore default text, [text], _, e, insistentStore_lawful text, hstored, rfl, hget,
    hresponse⟩

end Tokudo
