import Tokudo.Compress.JsonPruner

/-!
# What pruning keeps

`compress/json_pruner.rs`.  Positions in a value are paths.  A path that no rule cuts off leads to
the value that stood there, pruned at its depth (`at?_walk`); and what stands in a pruned value is
a mark or such a value (`at?_walk_inv`).

* `prune_prune`             **pruning twice is pruning with the tighter limits;**
* `pruneValue_pruned`       **the limits that a pruned value meets, and what it keeps;**
* `preserved_survives_iff`  **when a value under a preserved key survives.**
-/

namespace Tokudo

namespace JsonKeyPruner

/-! ## pruning twice -/

/-- no limit is larger, and no other key is preserved -/
structure Tighter (c' c : JsonKeyPrunerConfig) : Prop where
  maxDepth : c'.maxDepth ≤ c.maxDepth
  maxArrayLen : c'.maxArrayLen ≤ c.maxArrayLen
  maxStringLen : c'.maxStringLen ≤ c.maxStringLen
  preserveKeys : c'.preserveKeys ⊆ c.preserveKeys

theorem Tighter.refl (c : JsonKeyPrunerConfig) : Tighter c c :=
  ⟨Nat.le_refl _, Nat.le_refl _, Nat.le_refl _, Finset.Subset.refl _⟩

section
variable {c c' : JsonKeyPrunerConfig}

theorem truncateString_truncateString (h : Tighter c' c) (s : String) :
    truncateString c' (truncateString c s) = truncateString c' s := by
  have hle := h.maxStringLen
  unfold truncateString
  by_cases hc : c.maxStringLen < s.toList.length
  · -- the mark makes the string longer than the limit again
    have hlong : c'.maxStringLen <
        (String.ofList (s.toList.take c.maxStringLen) ++ elided).toList.length := by
      rw [String.toList_append, String.toList_ofList, List.length_append, List.length_take]
      have hmark : elided.toList.length = 3 := rfl
      omega
    have htake : (String.ofList (s.toList.take c.maxStringLen) ++ elided).toList.take
        c'.maxStringLen = s.toList.take c'.maxStringLen := by
      rw [String.toList_append, String.toList_ofList, List.take_append_of_le_length, List.take_take,
        Nat.min_eq_left hle]
      rw [List.length_take]
      omega
    rw [if_pos hc, if_pos hlong, htake, if_pos (Nat.lt_of_le_of_lt hle hc)]
  · rw [if_neg hc]

theorem truncateItems_truncateItems (h : Tighter c' c) (items : List Json) (depth : Nat) :
    truncateItems c' (walkItems c' (truncateItems c items) depth) =
      truncateItems c' (walkItems c' items depth) := by
  have hle := h.maxArrayLen
  by_cases hc : c.maxArrayLen < items.length
  · -- the mark stands behind the limit
    have hcut : truncateItems c items = items.take c.maxArrayLen ++ [.str elided] := if_pos hc
    rw [hcut, walkItems_eq_map, walkItems_eq_map, truncateItems_eq, truncateItems_eq,
      ← List.map_take, ← List.map_take, List.take_append_of_le_length, List.take_take,
      Nat.min_eq_left hle, List.length_map, List.length_map, List.length_append, List.length_take,
      List.length_singleton, if_pos (by omega), if_pos (by omega)]
    rw [List.length_take]
    omega
  · have hall : truncateItems c items = items := if_neg hc
    rw [hall]

mutual

theorem walk_walk (h : Tighter c' c) : ∀ (v : Json) (depth : Nat),
    walk c' (walk c v depth) depth = walk c' v depth := by
  intro v depth
  by_cases hc' : c'.maxDepth < depth
  · rw [walk_of_deep hc', walk_of_deep hc']
  have hd' : depth ≤ c'.maxDepth := Nat.le_of_not_lt hc'
  have hd : depth ≤ c.maxDepth := Nat.le_trans hd' h.maxDepth
  cases v with
  | null => rw [walk_null hd]
  | bool b => rw [walk_bool hd]
  | num n => rw [walk_num hd]
  | str s => rw [walk_str hd, walk_str hd', walk_str hd', truncateString_truncateString h]
  | arr items =>
    rw [walk_arr hd, walk_arr hd', walk_arr hd', truncateItems_truncateItems h,
      walkItems_walkItems h items (depth + 1)]
  | obj map => rw [walk_obj hd, walk_obj hd', walk_obj hd', walkFields_walkFields h map (depth + 1)]

theorem walkItems_walkItems (h : Tighter c' c) : ∀ (items : List Json) (depth : Nat),
    walkItems c' (walkItems c items depth) depth = walkItems c' items depth
  | [], _ => rfl
  | item :: items, depth => by
    rw [walkItems, walkItems, walkItems, walk_walk h item depth, walkItems_walkItems h items depth]

theorem walkFields_walkFields (h : Tighter c' c) :
    ∀ (map : List (String × Json)) (depth : Nat),
    walkFields c' (walkFields c map depth) depth = walkFields c' map depth
  | [], _ => rfl
  | (k, v) :: map, depth => by
    rw [walkFields, walkFields, walkFields, walkFields_walkFields h map depth]
    by_cases hk' : k ∈ c'.preserveKeys
    · rw [if_pos hk', if_pos hk', if_pos (h.preserveKeys hk')]
    · rw [if_neg hk', if_neg hk']
      by_cases hk : k ∈ c.preserveKeys
      · rw [if_pos hk]
      · rw [if_neg hk, walk_walk h v depth]

end

end

/-- **Pruning composes.**  Pruning with one configuration and then with a tighter one is pruning
with the tighter one; so pruning twice is pruning once. -/
theorem prune_prune (c c' : JsonKeyPrunerConfig) (h : Tighter c' c) (v : Json) :
    pruneValue c' (pruneValue c v) = pruneValue c' v ∧
      pruneValue c (pruneValue c v) = pruneValue c v :=
  ⟨walk_walk h v 0, walk_walk (Tighter.refl c) v 0⟩

/-- three limits that this value is beyond, and a preserved key -/
def looseLimits : JsonKeyPrunerConfig := ⟨{"id"}, 1, 2, 4⟩

def longValue : Json :=
  .obj [("id", .str "abcdefgh"), ("text", .str "abcdefgh"), ("list", .arr [.null, .null, .null]),
    ("deep", .obj [("deeper", .obj [])])]

/-- the first pass puts in marks, and they are longer than what the second allows -/
theorem prune_prune_short :
    pruneValue looseLimits longValue =
        .obj [("id", .str "abcdefgh"), ("text", .str "abcd..."),
          ("list", .arr [.str "...", .str "...", .str "..."]),
          ("deep", .obj [("deeper", .str "...")])] ∧
      pruneValue ⟨∅, 1, 0, 1⟩ (pruneValue looseLimits longValue) =
        pruneValue ⟨∅, 1, 0, 1⟩ longValue ∧
      pruneValue looseLimits (pruneValue looseLimits longValue) =
        pruneValue looseLimits longValue :=
  ⟨rfl, prune_prune looseLimits ⟨∅, 1, 0, 1⟩ ⟨by decide, by decide, by decide, by decide⟩ longValue⟩

/-! ## paths through a pruned value -/

open Json (Path Step at? child? field?)

section
variable (config : JsonKeyPrunerConfig)

/-- outside the subtrees under preserved keys -/
def Exposed (p : Path) : Prop := ∀ k, Step.key k ∈ p → k ∉ config.preserveKeys

/-- outside the tails of arrays that are cut off -/
def Uncut (p : Path) : Prop := ∀ i, Step.index i ∈ p → i < config.maxArrayLen

end

section
variable {config : JsonKeyPrunerConfig} {depth : Nat}

theorem Exposed.tail {s : Step} {p : Path} (h : Exposed config (s :: p)) : Exposed config p :=
  fun k hk => h k (List.mem_cons_of_mem _ hk)

theorem Uncut.tail {s : Step} {p : Path} (h : Uncut config (s :: p)) : Uncut config p :=
  fun i hi => h i (List.mem_cons_of_mem _ hi)

theorem getElem?_truncateItems (items : List Json) (i : Nat) :
    (truncateItems config items)[i]? =
      if i < config.maxArrayLen then items[i]?
      else if i = config.maxArrayLen ∧ config.maxArrayLen < items.length then some (.str elided)
      else none := by
  rw [truncateItems_eq]
  by_cases hi : i < config.maxArrayLen
  · rw [if_pos hi]
    by_cases hlen : i < items.length
    · rw [List.getElem?_append_left (by rw [List.length_take]; omega), List.getElem?_take_of_lt hi]
    · rw [if_neg (by omega), List.append_nil, List.getElem?_take_of_lt hi]
  · rw [if_neg hi, List.getElem?_append_right (by rw [List.length_take]; omega), List.length_take]
    by_cases hcut : config.maxArrayLen < items.length
    · rw [if_pos hcut, Nat.min_eq_left (Nat.le_of_lt hcut)]
      by_cases heq : i = config.maxArrayLen
      · rw [if_pos ⟨heq, hcut⟩, heq, Nat.sub_self]
        rfl
      · rw [if_neg fun h => heq h.1]
        apply List.getElem?_eq_none
        rw [List.length_singleton]
        omega
    · rw [if_neg hcut, if_neg fun h => hcut h.2]
      rfl

/-- a preserved key leads to the same value as before -/
theorem child?_walk_of_preserved (hd : depth ≤ config.maxDepth) {k : String}
    (hk : k ∈ config.preserveKeys) (v : Json) :
    child? (.key k) (walk config v depth) = child? (.key k) v := by
  cases v with
  | null => rw [walk_null hd]
  | bool b => rw [walk_bool hd]
  | num n => rw [walk_num hd]
  | str s => rw [walk_str hd, Json.child?_str, Json.child?_str]
  | arr items => rw [walk_arr hd]; rfl
  | obj map =>
    rw [walk_obj hd]
    show field? k (walkFields config map (depth + 1)) = field? k map
    rw [field?_walkFields]
    simp only [hk, if_true, Option.map_id']

/-- any other key leads to the value as it is pruned, one level deeper -/
theorem child?_walk_of_key (hd : depth ≤ config.maxDepth) {k : String}
    (hk : k ∉ config.preserveKeys) (v : Json) :
    child? (.key k) (walk config v depth) =
      (child? (.key k) v).map fun w => walk config w (depth + 1) := by
  cases v with
  | null => rw [walk_null hd]; rfl
  | bool b => rw [walk_bool hd]; rfl
  | num n => rw [walk_num hd]; rfl
  | str s => rw [walk_str hd]; rfl
  | arr items => rw [walk_arr hd]; rfl
  | obj map =>
    rw [walk_obj hd]
    show field? k (walkFields config map (depth + 1)) = _
    rw [field?_walkFields]
    simp only [hk, if_false]
    rfl

/-- an index leads to the element as it is pruned, to the mark, or nowhere -/
theorem child?_walk_of_index (hd : depth ≤ config.maxDepth) (i : Nat) (v : Json) :
    child? (.index i) (walk config v depth) =
      if i < config.maxArrayLen then
        (child? (.index i) v).map fun w => walk config w (depth + 1)
      else match v with
        | .arr items =>
          if i = config.maxArrayLen ∧ config.maxArrayLen < items.length then some (.str elided)
          else none
        | _ => none := by
  cases v with
  | null => rw [walk_null hd]; exact (ite_self _).symm
  | bool b => rw [walk_bool hd]; exact (ite_self _).symm
  | num n => rw [walk_num hd]; exact (ite_self _).symm
  | str s => rw [walk_str hd]; exact (ite_self _).symm
  | obj map => rw [walk_obj hd]; exact (ite_self _).symm
  | arr items =>
    rw [walk_arr hd]
    show (truncateItems config (walkItems config items (depth + 1)))[i]? = _
    rw [getElem?_truncateItems, walkItems_eq_map, List.getElem?_map, List.length_map]
    rfl

/-- **A path that no rule cuts off leads to the value there, pruned at its depth.** -/
theorem at?_walk {p : Path} (hexp : Exposed config p) (hcut : Uncut config p) (depth : Nat)
    (hdepth : depth + p.length ≤ config.maxDepth + 1) (v : Json) :
    at? (walk config v depth) p = (at? v p).map fun w => walk config w (depth + p.length) := by
  induction p generalizing v depth with
  | nil => rfl
  | cons s p ih =>
    rw [List.length_cons] at hdepth
    have hd : depth ≤ config.maxDepth := by omega
    have hchild : child? s (walk config v depth) =
        (child? s v).map fun w => walk config w (depth + 1) := by
      cases s with
      | key k => exact child?_walk_of_key hd (hexp k List.mem_cons_self) v
      | index i => rw [child?_walk_of_index hd, if_pos (hcut i List.mem_cons_self)]
    rw [Json.at?_cons, Json.at?_cons, hchild]
    cases child? s v with
    | none => rfl
    | some w =>
      have hlen : depth + (s :: p).length = depth + 1 + p.length := by
        rw [List.length_cons]
        omega
      rw [hlen]
      exact ih hexp.tail hcut.tail (depth + 1) (by omega) w

/-- **What stands in a pruned value is a mark, or stood there before and was pruned.** -/
theorem at?_walk_inv {p : Path} (hexp : Exposed config p) {depth : Nat} {v w : Json}
    (hw : at? (walk config v depth) p = some w) :
    w = .str elided ∨
      Uncut config p ∧ ∃ x, at? v p = some x ∧ w = walk config x (depth + p.length) := by
  induction p generalizing v depth with
  | nil =>
    right
    refine ⟨fun i hi => absurd hi List.not_mem_nil, v, rfl, ?_⟩
    exact (Option.some.inj hw).symm
  | cons s p ih =>
    rw [Json.at?_cons] at hw
    obtain ⟨u, hu, hwu⟩ := Option.bind_eq_some_iff.mp hw
    by_cases hd : config.maxDepth < depth
    · rw [walk_of_deep hd, Json.child?_str] at hu
      cases hu
    have hd : depth ≤ config.maxDepth := Nat.le_of_not_lt hd
    have hlen : depth + (s :: p).length = depth + 1 + p.length := by
      rw [List.length_cons]
      omega
    -- where the step leads to a value that was there before
    have hstep : (∀ i, s = .index i → i < config.maxArrayLen) → ∀ x, child? s v = some x →
        walk config x (depth + 1) = u → w = .str elided ∨ Uncut config (s :: p) ∧
          ∃ x, at? v (s :: p) = some x ∧ w = walk config x (depth + (s :: p).length) := by
      intro hs x hx hxu
      rw [← hxu] at hwu
      rcases ih hexp.tail hwu with hmark | ⟨hcut, y, hy, hwy⟩
      · exact .inl hmark
      · refine .inr ⟨fun i hi => ?_, y, ?_, ?_⟩
        · rcases List.mem_cons.mp hi with heq | hi
          · exact hs i heq.symm
          · exact hcut i hi
        · rw [Json.at?_cons, hx]
          exact hy
        · rw [hwy, hlen]
    cases s with
    | key k =>
      rw [child?_walk_of_key hd (hexp k List.mem_cons_self)] at hu
      obtain ⟨x, hx, hxu⟩ := Option.map_eq_some_iff.mp hu
      exact hstep (fun i h => by cases h) x hx hxu
    | index i =>
      rw [child?_walk_of_index hd] at hu
      by_cases hi : i < config.maxArrayLen
      · rw [if_pos hi] at hu
        obtain ⟨x, hx, hxu⟩ := Option.map_eq_some_iff.mp hu
        exact hstep (fun j h => by cases h; exact hi) x hx hxu
      · -- only the mark stands behind the limit
        rw [if_neg hi] at hu
        have hmark : u = .str elided := by
          split at hu
          · split at hu
            · exact (Option.some.inj hu).symm
            · cases hu
          · cases hu
        rw [hmark] at hwu
        cases p with
        | nil => exact .inl (Option.some.inj hwu).symm
        | cons t p =>
          rw [Json.at?_cons, Json.child?_str] at hwu
          cases hwu

theorem truncateItems_length (items : List Json) :
    (truncateItems config items).length ≤ config.maxArrayLen + 1 := by
  rw [truncateItems_eq, List.length_append, List.length_take]
  split
  · rw [List.length_singleton]
    omega
  · rw [List.length_nil]
    omega

theorem truncateItems_last {items : List Json}
    (h : (truncateItems config items).length = config.maxArrayLen + 1) :
    (truncateItems config items).getLast? = some (.str elided) := by
  rw [truncateItems_eq, List.length_append, List.length_take] at h
  rw [truncateItems_eq]
  by_cases hcut : config.maxArrayLen < items.length
  · rw [if_pos hcut]
    exact List.getLast?_concat
  · rw [if_neg hcut, List.length_nil] at h
    omega

theorem truncateString_length (s : String) :
    (truncateString config s).toList.length ≤ config.maxStringLen + 3 := by
  have hmark : elided.toList.length = 3 := rfl
  unfold truncateString
  split
  · rw [String.toList_append, String.toList_ofList, List.length_append, List.length_take]
    omega
  · omega

/-! ## what pruning guarantees -/

/-- `r` is `v` pruned: what cannot stand in `r`, and what stands in `r` where `v` has something -/
structure Pruned (config : JsonKeyPrunerConfig) (v r : Json) : Prop where
  /-- what is too deep is a mark, not a container -/
  shallow : ∀ p w, Exposed config p → at? r p = some w → config.maxDepth < p.length →
    w = .str elided
  arrays_short : ∀ p xs, Exposed config p → at? r p = some (.arr xs) →
    xs.length ≤ config.maxArrayLen + 1 ∧
      (xs.length = config.maxArrayLen + 1 → xs.getLast? = some (.str elided))
  strings_short : ∀ p s, Exposed config p → at? r p = some (.str s) →
    s.toList.length ≤ config.maxStringLen + 3
  /-- an object keeps its keys, and its values under preserved keys -/
  objects : ∀ p map, Exposed config p → Uncut config p → p.length ≤ config.maxDepth →
    at? v p = some (.obj map) → ∃ map', at? r p = some (.obj map') ∧
      map'.map Prod.fst = map.map Prod.fst ∧
      ∀ k ∈ config.preserveKeys, field? k map' = field? k map
  /-- an array keeps its first elements, each pruned one level deeper -/
  arrays : ∀ p items, Exposed config p → Uncut config p → p.length ≤ config.maxDepth →
    at? v p = some (.arr items) → at? r p = some (.arr
      (((items.take config.maxArrayLen).map fun item => walk config item (p.length + 1)) ++
        if config.maxArrayLen < items.length then [.str elided] else []))
  scalars : ∀ p x, Exposed config p → Uncut config p → p.length ≤ config.maxDepth →
    (x = .null ∨ (∃ b, x = .bool b) ∨ ∃ n, x = .num n) → at? v p = some x → at? r p = some x
  strings : ∀ p s, Exposed config p → Uncut config p → p.length ≤ config.maxDepth →
    at? v p = some (.str s) → at? r p = some (.str
      (if s.toList.length ≤ config.maxStringLen then s
      else String.ofList (s.toList.take config.maxStringLen) ++ elided))
  /-- what is one level too deep is replaced by a mark -/
  collapsed : ∀ p x, Exposed config p → Uncut config p → p.length = config.maxDepth + 1 →
    at? v p = some x → at? r p = some (.str elided)

theorem at?_pruneValue {p : Path} (hexp : Exposed config p) (hcut : Uncut config p)
    (hdepth : p.length ≤ config.maxDepth + 1) {v x : Json} (hx : at? v p = some x) :
    at? (pruneValue config v) p = some (walk config x p.length) := by
  have hwalk := at?_walk hexp hcut 0 (by omega) v
  rw [Nat.zero_add, hx] at hwalk
  exact hwalk

theorem at?_pruneValue_inv {p : Path} (hexp : Exposed config p) {v w : Json}
    (hw : at? (pruneValue config v) p = some w) :
    w = .str elided ∨ Uncut config p ∧ ∃ x, at? v p = some x ∧ w = walk config x p.length := by
  have hinv := at?_walk_inv hexp hw
  rw [Nat.zero_add] at hinv
  exact hinv

/-- an array in a pruned value is one that was cut to the limit -/
theorem truncated_of_arr {p : Path} (hexp : Exposed config p) {v : Json} {xs : List Json}
    (hxs : at? (pruneValue config v) p = some (.arr xs)) :
    ∃ items, xs = truncateItems config items := by
  rcases at?_pruneValue_inv hexp hxs with hmark | ⟨-, x, -, hx⟩
  · cases hmark
  by_cases hd : config.maxDepth < p.length
  · rw [walk_of_deep hd] at hx
    cases hx
  have hd : p.length ≤ config.maxDepth := Nat.le_of_not_lt hd
  cases x with
  | null => rw [walk_null hd] at hx; cases hx
  | bool b => rw [walk_bool hd] at hx; cases hx
  | num n => rw [walk_num hd] at hx; cases hx
  | str s => rw [walk_str hd] at hx; cases hx
  | obj map => rw [walk_obj hd] at hx; cases hx
  | arr items =>
    rw [walk_arr hd] at hx
    exact ⟨_, Json.arr.inj hx⟩

/-- a string in a pruned value is a mark, or one that was cut to the limit -/
theorem truncated_of_str {p : Path} (hexp : Exposed config p) {v : Json} {s : String}
    (hs : at? (pruneValue config v) p = some (.str s)) :
    s = elided ∨ ∃ t, s = truncateString config t := by
  rcases at?_pruneValue_inv hexp hs with hmark | ⟨-, x, -, hx⟩
  · exact .inl (Json.str.inj hmark)
  by_cases hd : config.maxDepth < p.length
  · rw [walk_of_deep hd] at hx
    exact .inl (Json.str.inj hx)
  have hd : p.length ≤ config.maxDepth := Nat.le_of_not_lt hd
  cases x with
  | null => rw [walk_null hd] at hx; cases hx
  | bool b => rw [walk_bool hd] at hx; cases hx
  | num n => rw [walk_num hd] at hx; cases hx
  | arr items => rw [walk_arr hd] at hx; cases hx
  | obj map => rw [walk_obj hd] at hx; cases hx
  | str t =>
    rw [walk_str hd] at hx
    exact .inr ⟨t, Json.str.inj hx⟩

end

/-- **What pruning guarantees**, for every value and every configuration. -/
theorem pruneValue_pruned (config : JsonKeyPrunerConfig) (v : Json) :
    Pruned config v (pruneValue config v) where
  shallow p w hexp hw hdeep := by
    rcases at?_pruneValue_inv hexp hw with hmark | ⟨-, x, -, hx⟩
    · exact hmark
    · rw [hx, walk_of_deep hdeep]
  arrays_short p xs hexp hxs := by
    obtain ⟨items, hitems⟩ := truncated_of_arr hexp hxs
    rw [hitems]
    exact ⟨truncateItems_length items, truncateItems_last⟩
  strings_short p s hexp hs := by
    rcases truncated_of_str hexp hs with hmark | ⟨t, ht⟩
    · rw [hmark]
      exact Nat.le_add_left 3 _
    · rw [ht]
      exact truncateString_length t
  objects p map hexp hcut hd hmap := by
    have hwalk := at?_pruneValue hexp hcut (Nat.le_succ_of_le hd) hmap
    rw [walk_obj hd] at hwalk
    refine ⟨_, hwalk, keys_walkFields map _, fun k hk => ?_⟩
    rw [field?_walkFields]
    simp only [hk, if_true, Option.map_id']
  arrays p items hexp hcut hd hitems := by
    have hwalk := at?_pruneValue hexp hcut (Nat.le_succ_of_le hd) hitems
    rw [walk_arr_take hd, walkItems_eq_map] at hwalk
    exact hwalk
  scalars p x hexp hcut hd hx hat := by
    have hwalk := at?_pruneValue hexp hcut (Nat.le_succ_of_le hd) hat
    rcases hx with hnull | ⟨b, hb⟩ | ⟨n, hn⟩
    · rw [hnull, walk_null hd] at hwalk
      rw [hwalk, hnull]
    · rw [hb, walk_bool hd] at hwalk
      rw [hwalk, hb]
    · rw [hn, walk_num hd] at hwalk
      rw [hwalk, hn]
  strings p s hexp hcut hd hs := by
    have hwalk := at?_pruneValue hexp hcut (Nat.le_succ_of_le hd) hs
    rw [walk_str hd, truncateString] at hwalk
    rw [hwalk]
    by_cases hlong : config.maxStringLen < s.toList.length
    · rw [if_pos hlong, if_neg (Nat.not_le.mpr hlong)]
    · rw [if_neg hlong, if_pos (Nat.le_of_not_lt hlong)]
  collapsed p x hexp hcut hd hx := by
    have hwalk := at?_pruneValue hexp hcut (Nat.le_of_eq hd) hx
    rw [walk_of_deep (by omega)] at hwalk
    exact hwalk

/-! ## what is preserved -/

section
variable (config : JsonKeyPrunerConfig)

/-- the step does not enter a preserved key -/
def exposes : Step → Bool
  | .key k => decide (k ∉ config.preserveKeys)
  | .index _ => true

/-- the path to the object that the first preserved key on the path belongs to -/
def outer (p : Path) : Path := p.takeWhile (exposes config)

theorem outer_exposed (p : Path) : Exposed config (outer config p) := by
  intro k hk
  have h := List.all_eq_true.mp List.all_takeWhile _ hk
  exact of_decide_eq_true h

end

section
variable {config : JsonKeyPrunerConfig}

/-- a path with a preserved key is the path to the first one, and what comes after -/
theorem exists_outer {p : Path} {k : String} (hmem : Step.key k ∈ p) (hk : k ∈ config.preserveKeys) :
    ∃ k₀ rest, k₀ ∈ config.preserveKeys ∧ p = outer config p ++ .key k₀ :: rest := by
  induction p with
  | nil => cases hmem
  | cons s p ih =>
    unfold outer
    rw [List.takeWhile_cons]
    cases hs : exposes config s with
    | false =>
      cases s with
      | index i => cases hs
      | key k₀ =>
        refine ⟨k₀, p, ?_, rfl⟩
        exact not_not.mp (of_decide_eq_false hs)
    | true =>
      have hne : Step.key k ≠ s := by
        intro h
        rw [← h] at hs
        exact of_decide_eq_true hs hk
      obtain ⟨k₀, rest, hk₀, hp⟩ := ih ((List.mem_cons.mp hmem).resolve_left hne)
      refine ⟨k₀, rest, hk₀, ?_⟩
      rw [if_pos rfl, List.cons_append]
      exact congrArg (s :: ·) hp

theorem preserved_kept {q : Path} (hexp : Exposed config q) (hcut : Uncut config q)
    (hd : q.length ≤ config.maxDepth) {k : String} (hk : k ∈ config.preserveKeys) (rest : Path)
    {v x : Json} (hx : at? v (q ++ .key k :: rest) = some x) :
    at? (pruneValue config v) (q ++ .key k :: rest) = some x := by
  rw [Json.at?_append] at hx
  obtain ⟨w, hw, hx⟩ := Option.bind_eq_some_iff.mp hx
  rw [Json.at?_append, at?_pruneValue hexp hcut (Nat.le_succ_of_le hd) hw, Option.bind_some,
    Json.at?_cons, child?_walk_of_preserved hd hk]
  exact hx

theorem reached_of_kept {q : Path} (hexp : Exposed config q) {k : String} {rest : Path} {v x : Json}
    (hx : at? (pruneValue config v) (q ++ .key k :: rest) = some x) :
    q.length ≤ config.maxDepth ∧ Uncut config q := by
  rw [Json.at?_append] at hx
  obtain ⟨w, hw, hx⟩ := Option.bind_eq_some_iff.mp hx
  -- a mark has no fields
  have hmark : w ≠ .str elided := by
    intro h
    rw [h, Json.at?_cons, Json.child?_str] at hx
    cases hx
  rcases at?_pruneValue_inv hexp hw with h | ⟨hcut, y, -, hy⟩
  · exact absurd h hmark
  · refine ⟨Nat.le_of_not_lt fun hd => hmark ?_, hcut⟩
    rw [hy, walk_of_deep hd]

end

/-- **When a preserved value survives.**  A path that ends in a preserved key leads to the same value
after pruning exactly if the object that its first preserved key belongs to is not too deep, and
not in the tail of an array that is cut off. -/
theorem preserved_survives_iff (config : JsonKeyPrunerConfig) (v : Json) (p : Path) (k : String)
    (x : Json) (hlast : p.getLast? = some (.key k)) (hk : k ∈ config.preserveKeys)
    (hx : at? v p = some x) :
    at? (pruneValue config v) p = some x ↔
      (outer config p).length ≤ config.maxDepth ∧ Uncut config (outer config p) := by
  obtain ⟨k₀, rest, hk₀, hp⟩ := exists_outer (List.mem_of_getLast? hlast) hk
  have hexp := outer_exposed config p
  constructor
  · intro hkept
    rw [hp] at hkept
    exact reached_of_kept hexp hkept
  · intro h
    obtain ⟨hd, hcut⟩ := h
    rw [hp] at hx
    have hkept := preserved_kept hexp hcut hd hk₀ rest hx
    rw [← hp] at hkept
    exact hkept

/-! ### an id to be preserved -/

def idConfig : JsonKeyPrunerConfig := ⟨{"id"}, 2, 3, 64⟩

theorem shallow_id_survives :
    at? (pruneValue idConfig (.obj [("blob", .obj [("id", .str "keep-me")])]))
      [.key "blob", .key "id"] = some (.str "keep-me") :=
  (preserved_survives_iff idConfig _ [.key "blob", .key "id"] "id" (.str "keep-me") rfl (by decide)
    rfl).mpr ⟨by decide, fun i hi => by
      cases List.mem_singleton.mp hi⟩

/-- **A preserved value is lost** with the object that it stands in: the object is too deep. -/
theorem deep_id_lost :
    let v : Json := .obj [("blob", .obj [("a", .obj [("b", .obj [("id", .str "keep-me")])])])]
    let p : Path := [.key "blob", .key "a", .key "b", .key "id"]
    at? v p = some (.str "keep-me") ∧ at? (pruneValue idConfig v) p = none := by
  intro v p
  constructor
  · rfl
  · rfl

end JsonKeyPruner

end Tokudo
