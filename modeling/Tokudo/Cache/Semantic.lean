import Tokudo.Cache.Backend
import Tokudo.Cache.Memvid

/-!
# The semantic backends

`cache/semantic.rs` and `cache/memvid.rs`.  Both hand the key to an index that finds what is close
to it, and serve what comes back: `SemanticCache` the first hit, `MemvidSemanticCache` the first hit
that scores high enough and is a frame.

* `firstEntry_eq_some_iff`    which hit `MemvidSemanticCache` serves;
* `semantic_get_first_decodable_iff`  **when `SemanticCache` serves the first hit that is an entry;**
* `insistentStore_get`        some search serves any frame that can be read back;
* `semantic_gets_fresh_iff`   **neither looks at the deadline: what they serve is fresh exactly if
                              the hit they serve happens to be.**
-/

namespace Tokudo

structure SemanticCacheConfig where
  samples : Nat
  threshold : Option F64

instance : Inhabited SemanticCacheConfig := ⟨{ samples := 1, threshold := some (85 / 100) }⟩

/-! ## `SemanticCache` -/

structure VectorSearchRequest where
  query : String
  samples : Nat
  threshold : Option F64

/-- the index, `serde_json::from_value` and the cast `as f32` -/
structure SemanticIndex where
  topN : VectorSearchRequest → Except String (List (F64 × String × Json))
  entryFromValue : Json → Except String CachedEntry
  asF32 : F64 → F32

/-- the entry as it is served: with its score, and a source -/
def CachedEntry.annotate (entry : CachedEntry) (score : F32) (id : String) : CachedEntry :=
  { entry with
    similarity := some score
    sourceId := if entry.sourceId.isEmpty then id else entry.sourceId }

theorem isExpired_annotate (entry : CachedEntry) (score : F32) (id : String) (now : Nat) :
    isExpired (entry.annotate score id) now = isExpired entry now := rfl

/-- the first hit is served, if there is one -/
def SemanticIndex.firstHit (index : SemanticIndex) :
    List (F64 × String × Json) → Result (Option CachedEntry)
  | [] => .ok none
  | (score, id, value) :: _ =>
    match index.entryFromValue value with
    | .error e => .error (.cache ("semantic cache decode: " ++ e))
    | .ok entry => .ok (some (entry.annotate (index.asF32 score) id))

def vectorSearchRequest (config : SemanticCacheConfig) (key : String) : VectorSearchRequest where
  query := key
  samples := config.samples
  threshold := config.threshold

def SemanticCache (index : SemanticIndex) (config : SemanticCacheConfig) : Cache Unit where
  get key s :=
    match index.topN (vectorSearchRequest config key) with
    | .error e => (.error (.cache ("semantic cache search: " ++ e)), s)
    | .ok hits => (index.firstHit hits, s)
  put _ _ s := (.ok (), s)

theorem firstHit_eq_some_iff {index : SemanticIndex} {hits : List (F64 × String × Json)}
    {e : CachedEntry} :
    index.firstHit hits = .ok (some e) ↔ ∃ score id value rest entry,
      hits = (score, id, value) :: rest ∧ index.entryFromValue value = .ok entry ∧
        e = entry.annotate (index.asF32 score) id := by
  constructor
  · intro h
    match hits with
    | [] => cases h
    | (score, id, value) :: rest =>
      cases hd : index.entryFromValue value with
      | error err =>
        rw [SemanticIndex.firstHit, hd] at h
        cases h
      | ok entry =>
        rw [SemanticIndex.firstHit, hd] at h
        cases h
        exact ⟨score, id, value, rest, entry, rfl, hd, rfl⟩
  · rintro ⟨score, id, value, rest, entry, rfl, hd, rfl⟩
    rw [SemanticIndex.firstHit, hd]

theorem semantic_get_eq_some_iff {index : SemanticIndex} {config : SemanticCacheConfig}
    {key : String} {e : CachedEntry} :
    ((SemanticCache index config).get key ()).1 = .ok (some e) ↔
      ∃ hits, index.topN (vectorSearchRequest config key) = .ok hits ∧
        index.firstHit hits = .ok (some e) := by
  unfold SemanticCache
  dsimp only
  cases hhits : index.topN (vectorSearchRequest config key) with
  | error err => simp
  | ok hits => simp

/-! ### foreign documents among the hits -/

/-- the entry that a hit holds, if its value is one -/
def SemanticIndex.decoded (index : SemanticIndex) : F64 × String × Json → Option CachedEntry
  | (score, id, value) =>
    match index.entryFromValue value with
    | .error _ => none
    | .ok entry => some (entry.annotate (index.asF32 score) id)

/-- what `samples` promises: the first hit that is an entry wins -/
def SemanticIndex.firstDecodable (index : SemanticIndex) (hits : List (F64 × String × Json)) :
    Option CachedEntry :=
  hits.findSome? index.decoded

theorem firstHit_of_error {index : SemanticIndex} {hit : F64 × String × Json} {e : String}
    (h : index.entryFromValue hit.2.2 = .error e) (hits : List (F64 × String × Json)) :
    index.firstHit (hit :: hits) = .error (.cache ("semantic cache decode: " ++ e)) := by
  obtain ⟨score, id, value⟩ := hit
  rw [SemanticIndex.firstHit, h]

theorem firstHit_of_ok {index : SemanticIndex} {hit : F64 × String × Json} {entry : CachedEntry}
    (h : index.entryFromValue hit.2.2 = .ok entry) (hits : List (F64 × String × Json)) :
    index.firstHit (hit :: hits) = .ok (index.firstDecodable (hit :: hits)) := by
  obtain ⟨score, id, value⟩ := hit
  have hd : index.decoded (score, id, value) = some (entry.annotate (index.asF32 score) id) := by
    rw [SemanticIndex.decoded, h]
  rw [SemanticIndex.firstHit, h, SemanticIndex.firstDecodable, List.findSome?_cons, hd]

/-- **When `SemanticCache` serves the first hit that is an entry**: exactly if the first hit of all,
where there is one, is an entry.  Otherwise the lookup fails, whatever the other hits hold. -/
theorem semantic_get_first_decodable_iff (index : SemanticIndex) (config : SemanticCacheConfig)
    (key : String) (hits : List (F64 × String × Json))
    (htop : index.topN (vectorSearchRequest config key) = .ok hits) :
    ((SemanticCache index config).get key ()).1 = .ok (index.firstDecodable hits) ↔
      ∀ hit, hits.head? = some hit → ∃ entry, index.entryFromValue hit.2.2 = .ok entry := by
  have hget : ((SemanticCache index config).get key ()).1 = index.firstHit hits := by
    unfold SemanticCache
    dsimp only
    rw [htop]
  rw [hget]
  cases hits with
  | nil =>
    constructor
    · intro _ hit hhead
      cases hhead
    · intro _
      rfl
  | cons hit hits =>
    constructor
    · intro h hit' hhead
      cases hhead
      cases hd : index.entryFromValue hit.2.2 with
      | error e =>
        rw [firstHit_of_error hd] at h
        cases h
      | ok entry => exact ⟨entry, rfl⟩
    · intro h
      obtain ⟨entry, hd⟩ := h hit rfl
      exact firstHit_of_ok hd hits

/-- an index of these documents, the closest first -/
def documentIndex (hits : List (F64 × String × Json)) : SemanticIndex where
  topN request := .ok (hits.take request.samples)
  entryFromValue
    | .obj fields => entryFromFields fields
    | _ => .error "expected an entry"
  asF32 score := score

def twoSamples : SemanticCacheConfig := { (default : SemanticCacheConfig) with samples := 2 }

def storedEntry : CachedEntry := ⟨.str "stored", none, none, "k"⟩

def storedDocument (score : F64) : F64 × String × Json := (score, "k", .obj (entryFields storedEntry))

def note (score : F64) : F64 × String × Json := (score, "note", .obj [("text", .str "a note")])

/-- an entry is served although the second hit is a note -/
theorem decodable_hit_served :
    ((SemanticCache (documentIndex [storedDocument 1, note (9 / 10)]) twoSamples).get "hi" ()).1 =
      .ok (some (storedEntry.annotate 1 "k")) :=
  (semantic_get_first_decodable_iff (documentIndex [storedDocument 1, note (9 / 10)]) twoSamples
    "hi" [storedDocument 1, note (9 / 10)] rfl).mpr fun hit hhead => by
      cases hhead
      exact ⟨storedEntry, rfl⟩

/-- **A foreign document hides an entry**: of two hits the first is a note, the second an entry, and
the lookup fails. -/
theorem foreign_document_hides_entry :
    let index := documentIndex [note 1, storedDocument (9 / 10)]
    index.topN (vectorSearchRequest twoSamples "hi") = .ok [note 1, storedDocument (9 / 10)] ∧
    index.firstDecodable [note 1, storedDocument (9 / 10)] =
      some (storedEntry.annotate (9 / 10) "k") ∧
    ((SemanticCache index twoSamples).get "hi" ()).1 =
      .error (.cache "semantic cache decode: missing field") := by
  intro index
  exact ⟨rfl, rfl, rfl⟩

/-! ## `MemvidSemanticCache` -/

structure MemvidSemanticCacheConfig where
  search : SemanticCacheConfig
  uriPrefix : String
  track : String
  kind : String

instance : Inhabited MemvidSemanticCacheConfig :=
  ⟨{ search := { (default : SemanticCacheConfig) with threshold := none }
     uriPrefix := "tokudo-cache"
     track := "rig_tokudo_cache"
     kind := "cached_completion" }⟩

structure SearchRequest where
  query : String
  topK : Nat
  snippetChars : Nat
  noSketch : Bool

structure SearchHit where
  frameId : Nat
  text : String
  score : Option F32
  rank : Nat

structure PutOptions where
  uri : String
  title : String
  track : String
  kind : String

/-- the store; its state are the texts of its frames -/
structure MemvidStore where
  search : SearchRequest → List String → Except String (List SearchHit)
  putText : String → PutOptions → List String → Except String Unit

/-- a search returns stored frames -/
def MemvidStore.Lawful (store : MemvidStore) : Prop :=
  ∀ request frames hits, store.search request frames = .ok hits → ∀ hit ∈ hits, hit.text ∈ frames

def memvidCacheSnippetChars : Nat := 64 * 1024

def samplesToTopK (samples : Nat) : Nat := max 1 (min samples 1024)

def hitScore (hit : SearchHit) : F64 :=
  match hit.score with
  | some score => score
  | none => 1 / ((min hit.rank (2 ^ 32 - 1) : Nat) + 1)

/-- what the cache takes from `serde_json`, `sha2` with `hex`, and the cast `as f32` -/
structure MemvidSerde where
  frame : FrameSerde
  sha256Hex : Sha256Hex
  asF32 : F64 → F32

def stableComponent (serde : MemvidSerde) (key : String) : String := serde.sha256Hex (utf8 key)

section
variable (serde : MemvidSerde) (config : MemvidSemanticCacheConfig)

/-- the hit scores below the threshold -/
def belowThreshold (hit : SearchHit) : Bool :=
  match config.search.threshold with
  | some threshold => decide (hitScore hit < threshold)
  | none => false

/-- the loop over the hits -/
def firstEntry : List SearchHit → Option CachedEntry
  | [] => none
  | hit :: hits =>
    if belowThreshold config hit then firstEntry hits
    else match decodeCacheFrame serde.frame hit.text with
      | .error _ => firstEntry hits
      | .ok entry => some (entry.annotate (serde.asF32 (hitScore hit)) (toString hit.frameId))

def searchRequest (key : String) : SearchRequest where
  query := key
  topK := samplesToTopK config.search.samples
  snippetChars := memvidCacheSnippetChars
  noSketch := true

def putOptions (key : String) : PutOptions where
  uri := config.uriPrefix ++ "/" ++ stableComponent serde key
  title := "Tokudo cached completion"
  track := config.track
  kind := config.kind

def MemvidSemanticCache (store : MemvidStore) : Cache (List String) where
  get key frames :=
    match store.search (searchRequest config key) frames with
    | .error e => (.error (.cache ("memvid cache: " ++ e)), frames)
    | .ok hits => (.ok (firstEntry serde config hits), frames)
  put key entry frames :=
    match encodeCacheFrame serde.frame key entry with
    | .error e => (.error e, frames)
    | .ok text =>
      match store.putText text (putOptions serde config key) frames with
      | .error e => (.error (.cache ("memvid cache: " ++ e)), frames)
      | .ok () => (.ok (), frames ++ [text])

/-- the hit can be served as this entry -/
structure Serves (hit : SearchHit) (entry : CachedEntry) : Prop where
  score : belowThreshold config hit = false
  decoded : decodeCacheFrame serde.frame hit.text = .ok entry

/-- **The first hit that can be served is served.** -/
theorem firstEntry_eq_some_iff {hits : List SearchHit} {e : CachedEntry} :
    firstEntry serde config hits = some e ↔ ∃ pre hit post entry, hits = pre ++ hit :: post ∧
      (∀ h ∈ pre, ∀ entry, ¬ Serves serde config h entry) ∧ Serves serde config hit entry ∧
      e = entry.annotate (serde.asF32 (hitScore hit)) (toString hit.frameId) := by
  induction hits with
  | nil => simp [firstEntry]
  | cons hit hits ih =>
    -- a hit that cannot be served is skipped
    have hskip : (∀ entry, ¬ Serves serde config hit entry) →
        firstEntry serde config (hit :: hits) = firstEntry serde config hits := by
      intro hnot
      rw [firstEntry]
      cases hb : belowThreshold config hit with
      | true => rfl
      | false =>
        cases hd : decodeCacheFrame serde.frame hit.text with
        | error err => rfl
        | ok entry => exact absurd ⟨hb, hd⟩ (hnot entry)
    by_cases hs : ∃ entry, Serves serde config hit entry
    · obtain ⟨entry, hs⟩ := hs
      have hserved : firstEntry serde config (hit :: hits) =
          some (entry.annotate (serde.asF32 (hitScore hit)) (toString hit.frameId)) := by
        rw [firstEntry, hs.score, if_neg Bool.false_ne_true, hs.decoded]
      rw [hserved]
      constructor
      · intro h
        exact ⟨[], hit, hits, entry, rfl, fun _ hm => absurd hm List.not_mem_nil, hs,
          (Option.some.inj h).symm⟩
      · rintro ⟨pre, hit', post, entry', hsplit, hpre, hs', rfl⟩
        cases pre with
        | nil =>
          obtain ⟨rfl, rfl⟩ := List.cons.inj hsplit
          have hdec := hs.decoded.symm.trans hs'.decoded
          cases hdec
          rfl
        | cons h pre =>
          obtain ⟨rfl, -⟩ := List.cons.inj hsplit
          exact absurd hs (hpre hit List.mem_cons_self entry)
    · have hnot : ∀ entry, ¬ Serves serde config hit entry := fun entry hs' => hs ⟨entry, hs'⟩
      rw [hskip hnot, ih]
      constructor
      · rintro ⟨pre, hit', post, entry, rfl, hpre, hs', rfl⟩
        refine ⟨hit :: pre, hit', post, entry, rfl, fun h hm => ?_, hs', rfl⟩
        rcases List.mem_cons.mp hm with rfl | hm
        · exact hnot
        · exact hpre h hm
      · rintro ⟨pre, hit', post, entry, hsplit, hpre, hs', rfl⟩
        cases pre with
        | nil =>
          obtain ⟨rfl, -⟩ := List.cons.inj hsplit
          exact absurd hs' (hnot entry)
        | cons h pre =>
          obtain ⟨-, rfl⟩ := List.cons.inj hsplit
          exact ⟨pre, hit', post, entry, rfl, fun h hm => hpre h (List.mem_cons_of_mem _ hm), hs', rfl⟩

theorem memvid_get_eq_some_iff {store : MemvidStore} {key : String} {frames : List String}
    {e : CachedEntry} :
    ((MemvidSemanticCache serde config store).get key frames).1 = .ok (some e) ↔
      ∃ hits, store.search (searchRequest config key) frames = .ok hits ∧
        firstEntry serde config hits = some e := by
  unfold MemvidSemanticCache
  dsimp only
  cases hhits : store.search (searchRequest config key) frames with
  | error err => simp
  | ok hits => simp

end

/-! ## a store that insists -/

section
variable {serde : MemvidSerde} {config : MemvidSemanticCacheConfig} {frames : List String}

/-- this frame, wherever it is stored, and rated as high as it takes -/
def insistentHits (config : MemvidSemanticCacheConfig) (text : String) (frames : List String) :
    List SearchHit :=
  if text ∈ frames then [⟨0, text, some (config.search.threshold.getD 1), 0⟩] else []

def insistentStore (config : MemvidSemanticCacheConfig) (text : String) : MemvidStore where
  search _ frames := .ok (insistentHits config text frames)
  putText _ _ _ := .ok ()

theorem insistentStore_lawful (text : String) : (insistentStore config text).Lawful := by
  intro request frames hits h hit hm
  obtain rfl : insistentHits config text frames = hits := Except.ok.inj h
  unfold insistentHits at hm
  split at hm
  · rw [List.mem_singleton.mp hm]
    assumption
  · cases hm

theorem insistentStore_search {text : String} (h : text ∈ frames) (key : String) :
    (insistentStore config text).search (searchRequest config key) frames =
      .ok [⟨0, text, some (config.search.threshold.getD 1), 0⟩] := by
  show Except.ok (insistentHits config text frames) = _
  rw [insistentHits, if_pos h]

variable (serde config) in
theorem insistentStore_get {text : String} {entry : CachedEntry} (h : text ∈ frames)
    (hdecode : decodeCacheFrame serde.frame text = .ok entry) (key : String) :
    ∃ e, ((MemvidSemanticCache serde config (insistentStore config text)).get key frames).1 =
      .ok (some e) ∧ e.response = entry.response ∧ e.expiresAtSecs = entry.expiresAtSecs := by
  let hit : SearchHit := ⟨0, text, some (config.search.threshold.getD 1), 0⟩
  have hserves : Serves serde config hit entry := by
    refine ⟨?_, hdecode⟩
    unfold belowThreshold
    cases ht : config.search.threshold with
    | none => rfl
    | some threshold => simp [hit, hitScore, ht]
  exact ⟨_, (memvid_get_eq_some_iff serde config).mpr ⟨[hit], insistentStore_search h key,
    (firstEntry_eq_some_iff serde config).mpr ⟨[], hit, [], entry, rfl,
      fun _ hm => absurd hm List.not_mem_nil, hserves, rfl⟩⟩, rfl, rfl⟩

end

/-! ## deadlines -/

/-- **When the semantic backends serve no expired entry.**  `SemanticCache`: exactly if the first
hit, where it is an entry, is not expired.  `MemvidSemanticCache`: exactly if the first hit that
scores high enough and is a frame is not expired. -/
theorem semantic_gets_fresh_iff (key : String) (now : Nat) :
    (∀ (index : SemanticIndex) (config : SemanticCacheConfig),
      (∀ e, ((SemanticCache index config).get key ()).1 = .ok (some e) → isExpired e now = false) ↔
        ∀ score id value rest entry,
          index.topN (vectorSearchRequest config key) = .ok ((score, id, value) :: rest) →
          index.entryFromValue value = .ok entry → isExpired entry now = false) ∧
    (∀ (serde : MemvidSerde) (config : MemvidSemanticCacheConfig) (store : MemvidStore)
      (frames : List String),
      (∀ e, ((MemvidSemanticCache serde config store).get key frames).1 = .ok (some e) →
        isExpired e now = false) ↔
        ∀ pre hit post entry,
          store.search (searchRequest config key) frames = .ok (pre ++ hit :: post) →
          (∀ h ∈ pre, ∀ entry, ¬ Serves serde config h entry) → Serves serde config hit entry →
          isExpired entry now = false) := by
  constructor
  · intro index config
    constructor
    · intro hfresh score id value rest entry hhits hd
      rw [← isExpired_annotate entry (index.asF32 score) id]
      exact hfresh _ (semantic_get_eq_some_iff.mpr ⟨_, hhits, firstHit_eq_some_iff.mpr
        ⟨score, id, value, rest, entry, rfl, hd, rfl⟩⟩)
    · intro hfirst e hget
      obtain ⟨hits, hhits, hserved⟩ := semantic_get_eq_some_iff.mp hget
      obtain ⟨score, id, value, rest, entry, rfl, hd, rfl⟩ := firstHit_eq_some_iff.mp hserved
      exact hfirst score id value rest entry hhits hd
  · intro serde config store frames
    constructor
    · intro hfresh pre hit post entry hhits hpre hserves
      rw [← isExpired_annotate entry (serde.asF32 (hitScore hit)) (toString hit.frameId)]
      exact hfresh _ ((memvid_get_eq_some_iff serde config).mpr ⟨_, hhits,
        (firstEntry_eq_some_iff serde config).mpr ⟨pre, hit, post, entry, rfl, hpre, hserves, rfl⟩⟩)
    · intro hfirst e hget
      obtain ⟨hits, hhits, hserved⟩ := (memvid_get_eq_some_iff serde config).mp hget
      obtain ⟨pre, hit, post, entry, rfl, hpre, hserves, rfl⟩ :=
        (firstEntry_eq_some_iff serde config).mp hserved
      exact hfirst pre hit post entry hhits hpre hserves

/-! ### an old entry -/

def textMemvidSerde : MemvidSerde where
  frame := jsonFrameSerde
  sha256Hex := hexDigest
  asF32 score := score

def oldEntry : CachedEntry := ⟨.str "old", some 5, none, "k"⟩

/-- an index that has this entry only, and answers every query with it -/
def oldIndex : SemanticIndex where
  topN _ := .ok [(1, "k", .null)]
  entryFromValue _ := .ok oldEntry
  asF32 score := score

/-- **Both backends serve an entry whose deadline was `5` at the time `10`.** -/
theorem expired_entry_served :
    (∃ e, ((SemanticCache oldIndex default).get "hi" ()).1 = .ok (some e) ∧
      isExpired e 10 = true) ∧
    ∃ (store : MemvidStore) (frames : List String) (e : CachedEntry), store.Lawful ∧
      ((MemvidSemanticCache textMemvidSerde default store).get "hi" frames).1 = .ok (some e) ∧
      isExpired e 10 = true := by
  constructor
  · exact ⟨_, rfl, rfl⟩
  · obtain ⟨text, -, hdecode⟩ := decode_of_noBrace jsonFrameSerde_lawful "k" oldEntry (by decide)
    have hin : text ∈ [text] := List.mem_cons_self
    obtain ⟨e, hget, -, hdeadline⟩ := insistentStore_get textMemvidSerde default hin hdecode "hi"
    refine ⟨insistentStore default text, [text], e, insistentStore_lawful text, hget, ?_⟩
    rw [isExpired, hdeadline]
    rfl

end Tokudo
