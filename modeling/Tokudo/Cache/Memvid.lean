import Tokudo.Core.TextSerde

/-!
# The text frames of the Memvid cache

`cache/memvid.rs` stores an entry as text: the key, a line break, and the entry as a JSON object
with the key as one more field.  The decoder parses from the first opening brace of the text.

`frame_roundTrips_iff`: **a frame is decoded to its entry exactly when the key has no opening brace,
or the key from its first brace on is itself the text of this entry.**  `semanticKey_frame`: so no
frame whose key comes from `SemanticCacheKey` is read back.
-/

namespace Tokudo

/-! ## frames -/

/-- what the frames take from `serde_json`: `to_value`, `to_string`, a `Deserializer` (which does not
look at what follows the value) and `from_str` (which does) -/
structure FrameSerde where
  entryToValue : CachedEntry → Except String Json
  valueToString : Json → Except String String
  deserialize : String → Except String CachedEntry
  fromStr : String → Except String CachedEntry

def cacheFrameJson (serde : FrameSerde) (key : String) (entry : CachedEntry) : Result Json :=
  match serde.entryToValue entry with
  | .error e => .error (.cache ("memvid cache encode: " ++ e))
  | .ok (.obj object) => .ok (.obj (Json.insertField "tokudo_cache_key" (.str key) object))
  | .ok value => .ok value

def encodeCacheFrame (serde : FrameSerde) (key : String) (entry : CachedEntry) : Result String := do
  let value ← cacheFrameJson serde key entry
  match serde.valueToString value with
  | .error e => .error (.cache ("memvid cache encode: " ++ e))
  | .ok json => .ok ("tokudo_cache_key: " ++ key ++ "\n" ++ json)

/-- the text from its first opening brace on -/
def fromBrace (text : String) : String :=
  String.ofList (text.toList.dropWhile fun c => decide (c ≠ '{'))

def decodeCacheFrame (serde : FrameSerde) (text : String) : Except String CachedEntry :=
  if '{' ∈ text.toList then serde.deserialize (fromBrace text) else serde.fromStr text

def FrameRoundTrips (serde : FrameSerde) (key : String) (entry : CachedEntry) : Prop :=
  ∃ text, encodeCacheFrame serde key entry = .ok text ∧ decodeCacheFrame serde text = .ok entry

/-- an entry and a frame are JSON objects, written in braces on one line; the frame is read back,
without the field that was added; a text is not completed by an object on the next line -/
structure FrameSerde.Lawful (serde : FrameSerde) : Prop where
  entry : ∀ e, ∃ object, serde.entryToValue e = .ok (.obj object)
  text : ∀ object, ∃ json, serde.valueToString (.obj object) = .ok json
  brace : ∀ object json, serde.valueToString (.obj object) = .ok json → ∃ cs, json.toList = '{' :: cs
  roundTrip : ∀ e object key json, serde.entryToValue e = .ok (.obj object) →
    serde.valueToString (.obj (Json.insertField "tokudo_cache_key" (.str key) object)) = .ok json →
    serde.deserialize json = .ok e
  line : ∀ object json cs e, serde.valueToString (.obj object) = .ok json →
    (serde.deserialize (String.ofList ('{' :: cs ++ '\n' :: json.toList)) = .ok e ↔
      serde.deserialize (String.ofList ('{' :: cs)) = .ok e)

/-- of these laws: entries are JSON objects, written in braces, and a text is not completed by an
object on the next line; nothing about what is read back -/
structure FrameSerde.Framed (serde : FrameSerde) : Prop where
  entry : ∀ e v, serde.entryToValue e = .ok v → ∃ object, v = .obj object
  brace : ∀ object json, serde.valueToString (.obj object) = .ok json → ∃ cs, json.toList = '{' :: cs
  line : ∀ object json cs e, serde.valueToString (.obj object) = .ok json →
    serde.deserialize (String.ofList ('{' :: cs ++ '\n' :: json.toList)) = .ok e →
      serde.deserialize (String.ofList ('{' :: cs)) = .ok e

theorem FrameSerde.Lawful.framed {serde : FrameSerde} (hs : serde.Lawful) : serde.Framed where
  entry e v h := by
    obtain ⟨object, hobject⟩ := hs.entry e
    rw [h] at hobject
    exact ⟨object, Except.ok.inj hobject⟩
  brace := hs.brace
  line object json cs e h := (hs.line object json cs e h).mp

/-! ## the first brace -/

theorem dropWhile_of_notMem {xs : List Char} (h : '{' ∉ xs) (ys : List Char) :
    (xs ++ '{' :: ys).dropWhile (fun c => decide (c ≠ '{')) = '{' :: ys := by
  induction xs with
  | nil => rfl
  | cons x xs ih =>
    rw [List.mem_cons, not_or] at h
    rw [List.cons_append, List.dropWhile_cons_of_pos (by simpa using Ne.symm h.1)]
    exact ih h.2

theorem exists_first_brace {xs : List Char} (h : '{' ∈ xs) :
    ∃ ys zs, xs = ys ++ '{' :: zs ∧ '{' ∉ ys := by
  induction xs with
  | nil => cases h
  | cons x xs ih =>
    by_cases hx : x = '{'
    · subst hx
      exact ⟨[], xs, rfl, List.not_mem_nil⟩
    · obtain ⟨ys, zs, rfl, hys⟩ := ih ((List.mem_cons.mp h).resolve_left (Ne.symm hx))
      refine ⟨x :: ys, zs, rfl, fun hm => ?_⟩
      rcases List.mem_cons.mp hm with hm | hm
      · exact hx hm.symm
      · exact hys hm

/-- a frame is its key and the text of an object -/
theorem text_of_encode {serde : FrameSerde} (hs : serde.Framed) {key text : String}
    {entry : CachedEntry} (h : encodeCacheFrame serde key entry = .ok text) :
    ∃ object json, serde.valueToString (.obj object) = .ok json ∧
      text = "tokudo_cache_key: " ++ key ++ "\n" ++ json := by
  cases hv : serde.entryToValue entry with
  | error e =>
    simp only [encodeCacheFrame, cacheFrameJson, hv, bind, Except.bind] at h
    cases h
  | ok v =>
    obtain ⟨object, rfl⟩ := hs.entry entry v hv
    cases hj : serde.valueToString
        (.obj (Json.insertField "tokudo_cache_key" (.str key) object)) with
    | error e =>
      simp only [encodeCacheFrame, cacheFrameJson, hv, hj, bind, Except.bind] at h
      cases h
    | ok json =>
      simp only [encodeCacheFrame, cacheFrameJson, hv, hj, bind, Except.bind] at h
      cases h
      exact ⟨_, json, hj, rfl⟩

/-- under a key with a brace, what is parsed begins in the key -/
theorem decode_in_key {serde : FrameSerde} (hs : serde.Framed) {key text : String}
    {entry : CachedEntry} (hkey : '{' ∈ key.toList)
    (h : encodeCacheFrame serde key entry = .ok text) :
    ∃ object json cs, serde.valueToString (.obj object) = .ok json ∧
      fromBrace key = String.ofList ('{' :: cs) ∧ decodeCacheFrame serde text =
        serde.deserialize (String.ofList ('{' :: cs ++ '\n' :: json.toList)) := by
  obtain ⟨object, json, hj, rfl⟩ := text_of_encode hs h
  obtain ⟨ys, zs, hsplit, hys⟩ := exists_first_brace hkey
  have hpre : '{' ∉ "tokudo_cache_key: ".toList ++ ys := by
    rw [List.mem_append, not_or]
    exact ⟨by decide, hys⟩
  have hdrop := dropWhile_of_notMem hpre (zs ++ '\n' :: json.toList)
  simp only [List.append_assoc] at hdrop
  have htext : ("tokudo_cache_key: " ++ key ++ "\n" ++ json).toList =
      "tokudo_cache_key: ".toList ++ (ys ++ '{' :: (zs ++ '\n' :: json.toList)) := by
    simp only [String.toList_append, List.append_assoc, hsplit]
    rfl
  refine ⟨object, json, zs, hj, ?_, ?_⟩
  · unfold fromBrace
    rw [hsplit, dropWhile_of_notMem hys]
  · unfold decodeCacheFrame fromBrace
    rw [htext, if_pos (by simp), hdrop]
    rfl

section
variable {serde : FrameSerde} (hs : serde.Lawful) (key : String) (entry : CachedEntry)
include hs

theorem frame_text : ∃ object json cs text, serde.entryToValue entry = .ok (.obj object) ∧
    serde.valueToString (.obj (Json.insertField "tokudo_cache_key" (.str key) object)) = .ok json ∧
    json.toList = '{' :: cs ∧ encodeCacheFrame serde key entry = .ok text ∧
    decodeCacheFrame serde text = serde.deserialize (String.ofList
      (("tokudo_cache_key: ".toList ++ (key.toList ++ '\n' :: '{' :: cs)).dropWhile
        fun c => decide (c ≠ '{'))) := by
  obtain ⟨object, hobj⟩ := hs.entry entry
  obtain ⟨json, hjson⟩ := hs.text (Json.insertField "tokudo_cache_key" (.str key) object)
  obtain ⟨cs, hcs⟩ := hs.brace _ _ hjson
  have hencode : encodeCacheFrame serde key entry =
      .ok ("tokudo_cache_key: " ++ key ++ "\n" ++ json) := by
    unfold encodeCacheFrame cacheFrameJson
    rw [hobj]
    show (match serde.valueToString _ with
      | .error e => _
      | .ok json => _) = _
    rw [hjson]
  have htext : ("tokudo_cache_key: " ++ key ++ "\n" ++ json).toList =
      "tokudo_cache_key: ".toList ++ (key.toList ++ '\n' :: '{' :: cs) := by
    simp only [String.toList_append, List.append_assoc, hcs]
    rfl
  refine ⟨object, json, cs, _, hobj, hjson, hcs, hencode, ?_⟩
  unfold decodeCacheFrame fromBrace
  rw [htext, if_pos (by simp)]

/-- a key without a brace: the brace found is the one of the entry -/
theorem decode_of_noBrace (hkey : '{' ∉ key.toList) :
    ∃ text, encodeCacheFrame serde key entry = .ok text ∧ decodeCacheFrame serde text = .ok entry := by
  obtain ⟨object, json, cs, text, hobj, hjson, hcs, hencode, hdecode⟩ := frame_text hs key entry
  have hpre : '{' ∉ "tokudo_cache_key: ".toList ++ (key.toList ++ ['\n']) := by
    simp only [List.mem_append, not_or]
    exact ⟨by decide, hkey, by decide⟩
  have hdrop := dropWhile_of_notMem hpre cs
  simp only [List.append_assoc, List.cons_append, List.nil_append] at hdrop
  refine ⟨text, hencode, ?_⟩
  rw [hdecode, hdrop, ← hcs, String.ofList_toList]
  exact hs.roundTrip entry object key json hobj hjson

/-- a key with a brace: what is parsed begins in the key, and ends there or nowhere -/
theorem decode_of_brace (hkey : '{' ∈ key.toList) :
    ∃ text, encodeCacheFrame serde key entry = .ok text ∧ ∀ e,
      decodeCacheFrame serde text = .ok e ↔ serde.deserialize (fromBrace key) = .ok e := by
  obtain ⟨_, _, _, text, -, -, -, hencode, -⟩ := frame_text hs key entry
  obtain ⟨object, json, cs, hjson, hfromKey, hdecode⟩ := decode_in_key hs.framed hkey hencode
  refine ⟨text, hencode, fun e => ?_⟩
  rw [hdecode, hfromKey]
  exact hs.line object json cs e hjson

theorem frame_of_brace (hkey : '{' ∈ key.toList) :
    FrameRoundTrips serde key entry ↔ serde.deserialize (fromBrace key) = .ok entry := by
  obtain ⟨text, hencode, hdecode⟩ := decode_of_brace hs key entry hkey
  constructor
  · rintro ⟨text', ht, h⟩
    rw [hencode] at ht
    cases ht
    exact (hdecode entry).mp h
  · intro h
    exact ⟨text, hencode, (hdecode entry).mpr h⟩

/-- **A frame is read back exactly when its key does not get in the way**: the key has no opening
brace, or from its first brace on it is itself the text of the entry. -/
theorem frame_roundTrips_iff :
    FrameRoundTrips serde key entry ↔
      '{' ∉ key.toList ∨ serde.deserialize (fromBrace key) = .ok entry := by
  by_cases hkey : '{' ∈ key.toList
  · rw [frame_of_brace hs key entry hkey]
    constructor
    · intro h
      exact .inr h
    · rintro (h | h)
      · exact absurd hkey h
      · exact h
  · constructor
    · intro _
      exact .inl hkey
    · intro _
      exact decode_of_noBrace hs key entry hkey

end

/-! ## frames as JSON text -/

def similarityToValue : Option F32 → Json
  | none => .null
  | some q => .arr [.num ⟨q.num, 0⟩, .num ⟨q.den, 0⟩]

def similarityFromValue : Json → Option F32
  | .arr [.num n, .num d] => some (mkRat n.mantissa d.mantissa.toNat)
  | _ => none

theorem similarityFromValue_toValue (q : Option F32) :
    similarityFromValue (similarityToValue q) = q := by
  cases q with
  | none => rfl
  | some q => exact congrArg some (Rat.mkRat_self q)

def deadlineFromValue : Json → Option Nat
  | .num n => some n.mantissa.toNat
  | _ => none

/-- the fields of an entry; the optional ones may be missing, and others are ignored -/
def entryFromFields (fields : List (String × Json)) : Except String CachedEntry :=
  match Json.field? "response" fields, Json.field? "source_id" fields with
  | some response, some (.str sourceId) =>
    .ok { response := response
          expiresAtSecs := (Json.field? "expires_at_secs" fields).bind deadlineFromValue
          similarity := (Json.field? "similarity" fields).bind similarityFromValue
          sourceId := sourceId }
  | _, _ => .error "missing field"

def entryFields (e : CachedEntry) : List (String × Json) :=
  [("expires_at_secs", Json.ofOption Json.ofNat e.expiresAtSecs), ("response", e.response),
    ("similarity", similarityToValue e.similarity), ("source_id", .str e.sourceId)]

def entryFromText (text : String) : Except String CachedEntry :=
  match Json.read text.toList with
  | some (.obj fields) => entryFromFields fields
  | _ => .error "expected an entry"

def jsonFrameSerde : FrameSerde where
  entryToValue e := .ok (.obj (entryFields e))
  valueToString v := .ok (Json.text v)
  deserialize := entryFromText
  fromStr := entryFromText

/-- the frame's own field comes last and is not one of the entry -/
theorem entryFromFields_frame (e : CachedEntry) (key : String) :
    entryFromFields (Json.insertField "tokudo_cache_key" (.str key) (entryFields e)) = .ok e := by
  have hinsert : Json.insertField "tokudo_cache_key" (.str key) (entryFields e) =
      entryFields e ++ [("tokudo_cache_key", .str key)] := rfl
  rw [hinsert]
  obtain ⟨response, deadline, similarity, sourceId⟩ := e
  have hdeadline : deadlineFromValue (Json.ofOption Json.ofNat deadline) = deadline := by
    cases deadline <;> rfl
  show Except.ok (CachedEntry.mk response (deadlineFromValue (Json.ofOption Json.ofNat deadline))
    (similarityFromValue (similarityToValue similarity)) sourceId) = _
  rw [similarityFromValue_toValue, hdeadline]

theorem jsonFrameSerde_lawful : jsonFrameSerde.Lawful where
  entry e := ⟨_, rfl⟩
  text object := ⟨_, rfl⟩
  brace object json h := by
    cases h
    obtain ⟨cs, hcs⟩ := Json.chars_obj object
    exact ⟨cs, by rw [Json.text, String.toList_ofList, hcs]⟩
  roundTrip e object key json he hj := by
    cases he
    cases hj
    show entryFromText _ = _
    unfold entryFromText
    rw [Json.text, String.toList_ofList, Json.read_chars]
    exact entryFromFields_frame e key
  line object json cs e h := by
    cases h
    show entryFromText _ = _ ↔ entryFromText _ = _
    unfold entryFromText
    rw [Json.text, String.toList_ofList, String.toList_ofList, String.toList_ofList,
      Json.read_within_line]

/-- a plain key: the frame is read back -/
theorem plain_frame_roundTrips :
    FrameRoundTrips jsonFrameSerde "tokudocacheunique" ⟨.null, none, none, "entry-1"⟩ :=
  (frame_roundTrips_iff jsonFrameSerde_lawful "tokudocacheunique" _).mpr (.inl (by decide))

/-! ## keys that are JSON text -/

def SemanticCacheKey (chatHistoryToValue : OneOrMany Message → Json)
    (valueToString : Json → Except String String) : CacheKey where
  key request options :=
    match valueToString (.obj [("chat_history", chatHistoryToValue request.chatHistory),
      ("namespace", Json.ofString? options.cacheNamespace),
      ("preamble", Json.ofString? request.preamble)]) with
    | .error e => .error (.cache ("serialize semantic key: " ++ e))
    | .ok key => .ok key

theorem fromBrace_text (fields : List (String × Json)) :
    fromBrace (Json.text (.obj fields)) = Json.text (.obj fields) := by
  obtain ⟨cs, hcs⟩ := Json.chars_obj fields
  unfold fromBrace
  rw [Json.text, String.toList_ofList, hcs]
  rfl

/-- **No frame under a key of `SemanticCacheKey` is read back**: the decoder finds the key's own
object, which is no entry. -/
theorem semantic_frame_lost (chatHistoryToValue : OneOrMany Message → Json)
    (request : CompletionRequest) (options : TokudoOptions) {key : String}
    (hk : (SemanticCacheKey chatHistoryToValue jsonFrameSerde.valueToString).key request options =
      .ok key) (entry : CachedEntry) : ¬ FrameRoundTrips jsonFrameSerde key entry := by
  cases hk
  have hbrace : ∀ fields, '{' ∈ (Json.text (.obj fields)).toList := by
    intro fields
    obtain ⟨cs, hcs⟩ := Json.chars_obj fields
    rw [Json.text, String.toList_ofList, hcs]
    exact List.mem_cons_self
  rw [frame_of_brace jsonFrameSerde_lawful _ entry (hbrace _), fromBrace_text]
  show entryFromText _ ≠ _
  unfold entryFromText
  rw [Json.text, String.toList_ofList, Json.read_chars]
  intro h
  cases h

/-- one prompt: its semantic key loses every frame -/
theorem prompt_frame_lost : jsonFrameSerde.Lawful ∧
    ∃ key, (SemanticCacheKey historyToValue jsonFrameSerde.valueToString).key
      (promptRequest "hi") {} = .ok key ∧
      ¬ FrameRoundTrips jsonFrameSerde key ⟨.null, none, none, "entry-1"⟩ :=
  ⟨jsonFrameSerde_lawful, _, rfl, semantic_frame_lost historyToValue (promptRequest "hi") {} rfl _⟩

end Tokudo
