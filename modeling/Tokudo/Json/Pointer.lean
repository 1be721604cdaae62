import Tokudo.Json.Path
import Tokudo.Json.RoundTrip

/-!
# JSON pointers

A pointer is the text of a path: every step is written after a `/`.  In a key `~` is written `~0` and
`/` is written `~1`; an index is written in decimals.

* `pointer`               what a pointer leads to (`pointer` of a value, in the parser's library);
* `pointer_pointerText`   **the pointer that is written of a path leads to where the path does;**
* `path_of_pointer`       whatever a pointer leads to stands at some path.
-/

namespace Json

/-! ## tokens -/

/-- every `a b` is replaced by `c`, from the left -/
def replacePair (a b c : Char) : List Char → List Char
  | x :: y :: rest =>
    if x = a ∧ y = b then c :: replacePair a b c rest else x :: replacePair a b c (y :: rest)
  | l => l

/-- first `~1` and then `~0`, so that `~01` is `~1` and not `/` -/
def unescapeToken (token : List Char) : List Char :=
  replacePair '~' '0' '~' (replacePair '~' '1' '/' token)

def escapeChar (c : Char) : List Char :=
  if c = '~' then ['~', '0'] else if c = '/' then ['~', '1'] else [c]

/-- with the tildes written out, and the slashes as they are -/
def tildeChar (c : Char) : List Char := if c = '~' then ['~', '0'] else [c]

section
variable {a b c x : Char}

theorem replacePair_of_ne (h : x ≠ a) (l : List Char) :
    replacePair a b c (x :: l) = x :: replacePair a b c l := by
  cases l with
  | nil => rfl
  | cons y l => rw [replacePair, if_neg fun hxy => h hxy.1]

theorem replacePair_pair (l : List Char) :
    replacePair a b c (a :: b :: l) = c :: replacePair a b c l := by
  rw [replacePair, if_pos ⟨rfl, rfl⟩]

theorem replacePair_other {y : Char} (h : y ≠ b) (l : List Char) :
    replacePair a b c (a :: y :: l) = a :: replacePair a b c (y :: l) := by
  rw [replacePair, if_neg fun hxy => h hxy.2]

end

theorem slashes_restored (token : List Char) :
    replacePair '~' '1' '/' (token.flatMap escapeChar) = token.flatMap tildeChar := by
  induction token with
  | nil => rfl
  | cons c token ih =>
    rw [List.flatMap_cons, List.flatMap_cons, ← ih]
    generalize token.flatMap escapeChar = rest
    unfold escapeChar tildeChar
    by_cases htilde : c = '~'
    · rw [if_pos htilde, if_pos htilde]
      show replacePair '~' '1' '/' ('~' :: '0' :: rest) = '~' :: '0' :: replacePair '~' '1' '/' rest
      rw [replacePair_other (by decide), replacePair_of_ne (by decide)]
    rw [if_neg htilde, if_neg htilde]
    by_cases hslash : c = '/'
    · rw [if_pos hslash, hslash]
      exact replacePair_pair rest
    · rw [if_neg hslash]
      exact replacePair_of_ne htilde rest

theorem tildes_restored (token : List Char) :
    replacePair '~' '0' '~' (token.flatMap tildeChar) = token := by
  induction token with
  | nil => rfl
  | cons c token ih =>
    rw [List.flatMap_cons]
    unfold tildeChar
    by_cases htilde : c = '~'
    · rw [if_pos htilde, htilde]
      show replacePair '~' '0' '~' ('~' :: '0' :: token.flatMap tildeChar) = '~' :: token
      rw [replacePair_pair, ih]
    · rw [if_neg htilde]
      show replacePair '~' '0' '~' (c :: token.flatMap tildeChar) = c :: token
      rw [replacePair_of_ne htilde, ih]

theorem unescapeToken_escape (token : List Char) :
    unescapeToken (token.flatMap escapeChar) = token := by
  unfold unescapeToken
  rw [slashes_restored, tildes_restored]

theorem slash_notMem_escape (token : List Char) : '/' ∉ token.flatMap escapeChar := by
  intro h
  obtain ⟨c, -, hc⟩ := List.mem_flatMap.mp h
  unfold escapeChar at hc
  by_cases htilde : c = '~'
  · rw [if_pos htilde] at hc
    exact absurd hc (by decide)
  by_cases hslash : c = '/'
  · rw [if_neg htilde, if_pos hslash] at hc
    exact absurd hc (by decide)
  · rw [if_neg htilde, if_neg hslash] at hc
    exact hslash (List.mem_singleton.mp hc).symm

/-! ## indices -/

/-- `str::parse` of an unsigned integer without a sign -/
def parseDecimal (cs : List Char) : Option Nat :=
  if cs.isEmpty then none
  else cs.foldlM (fun n c => if c.isDigit then some (10 * n + digit c) else none) 0

/-- no sign, no leading zeros, and at most `2^64 - 1` -/
def parseIndex (cs : List Char) : Option Nat :=
  if cs.head? = some '+' ∨ (cs.head? = some '0' ∧ cs.length ≠ 1) then none
  else (parseDecimal cs).filter fun n => decide (n < 2 ^ 64)

/-- the digits of `n` are read as `n`, and start with a zero only if there is no other digit -/
theorem digits_read (n : Nat) :
    (Nat.toDigits 10 n).foldlM (fun n c => if c.isDigit then some (10 * n + digit c) else none) 0 =
        some n ∧
      ((Nat.toDigits 10 n).head? = some '0' → n = 0) := by
  let read : Nat → Char → Option Nat :=
    fun n c => if c.isDigit then some (10 * n + digit c) else none
  have hread (n d : Nat) (hd : d < 10) : read n (Nat.digitChar d) = some (10 * n + d) := by
    show (if (Nat.digitChar d).isDigit then some (10 * n + digit (Nat.digitChar d)) else none) = _
    rw [isDigit_digitChar d hd, if_pos rfl, digit_digitChar d hd]
  refine toDigits_induction
    (P := fun n cs => cs.foldlM read 0 = some n ∧ (cs.head? = some '0' → n = 0)) ?_ ?_ n
  · intro d hd
    constructor
    · show (read 0 (Nat.digitChar d)).bind some = some d
      rw [hread 0 d hd, Nat.mul_zero, Nat.zero_add]
      rfl
    · intro hhead
      have hzero := congrArg digit (Option.some.inj hhead)
      rw [digit_digitChar d hd] at hzero
      exact hzero
  · rintro m cs d hm hd ⟨hcs, hhead⟩
    constructor
    · rw [List.foldlM_append, hcs]
      show (read m (Nat.digitChar d)).bind some = some (10 * m + d)
      rw [hread m d hd]
      rfl
    · intro h
      cases cs with
      | nil =>
        -- no digits are read as zero
        exact absurd (Option.some.inj hcs).symm hm
      | cons c cs => exact absurd (hhead h) hm

theorem parseIndex_toDigits {n : Nat} (hn : n < 2 ^ 64) : parseIndex (Nat.toDigits 10 n) = some n := by
  obtain ⟨hread, hzero⟩ := digits_read n
  obtain ⟨c, cs, hdigits, hdig⟩ := digits_head n
  have hok : ¬ ((Nat.toDigits 10 n).head? = some '+' ∨
      ((Nat.toDigits 10 n).head? = some '0' ∧ (Nat.toDigits 10 n).length ≠ 1)) := by
    rintro (hplus | ⟨h0, hlength⟩)
    · rw [hdigits] at hplus
      obtain rfl := Option.some.inj hplus
      exact absurd hdig (by decide)
    · rw [hzero h0] at hlength
      exact hlength rfl
  have hne : (Nat.toDigits 10 n).isEmpty = false := by rw [hdigits]; rfl
  unfold parseIndex parseDecimal
  rw [if_neg hok, hne, if_neg Bool.false_ne_true, hread]
  exact if_pos (decide_eq_true hn)

theorem slash_notMem_digits (n : Nat) : '/' ∉ Nat.toDigits 10 n := fun h =>
  absurd (Nat.isDigit_of_mem_toDigits (by decide) (by decide) h) (by decide)

theorem tilde_notMem_digits (n : Nat) : '~' ∉ Nat.toDigits 10 n := fun h =>
  absurd (Nat.isDigit_of_mem_toDigits (by decide) (by decide) h) (by decide)

theorem replacePair_of_notMem {b c : Char} {l : List Char} (h : '~' ∉ l) :
    replacePair '~' b c l = l := by
  induction l with
  | nil => rfl
  | cons x l ih =>
    have hx : x ≠ '~' := fun hx => h (hx ▸ List.mem_cons_self)
    rw [replacePair_of_ne hx, ih fun hl => h (List.mem_cons_of_mem x hl)]

/-! ## pointers -/

/-- one token: a key of an object, or an index of an array -/
def resolve (token : List Char) : Json → Option Json
  | .obj fields => field? (String.ofList token) fields
  | .arr xs => (parseIndex token).bind fun i => xs[i]?
  | _ => none

def follow : List (List Char) → Json → Option Json
  | [], v => some v
  | token :: tokens, v => (resolve token v).bind (follow tokens)

/-- the empty pointer is the value itself; any other starts with a slash -/
def pointer (text : String) (v : Json) : Option Json :=
  match text.toList with
  | [] => some v
  | c :: cs => if c = '/' then follow ((cs.splitOn '/').map unescapeToken) v else none

def Step.token : Step → List Char
  | .key k => k.toList.flatMap escapeChar
  | .index i => Nat.toDigits 10 i

def pointerChars : Path → List Char
  | [] => []
  | s :: p => '/' :: (s.token ++ pointerChars p)

def pointerText (p : Path) : String := String.ofList (pointerChars p)

theorem slash_notMem_token (s : Step) : '/' ∉ s.token := by
  cases s with
  | key k => exact slash_notMem_escape k.toList
  | index i => exact slash_notMem_digits i

/-- the pieces between the slashes are the tokens -/
theorem splitOn_pointerChars (s : Step) (p : Path) :
    (s.token ++ pointerChars p).splitOn '/' = s.token :: p.map Step.token := by
  induction p generalizing s with
  | nil =>
    show (s.token ++ []).splitOn '/' = [s.token]
    rw [List.append_nil, List.splitOn_eq_singleton (slash_notMem_token s)]
  | cons s' p ih =>
    show (s.token ++ '/' :: (s'.token ++ pointerChars p)).splitOn '/' = _
    rw [List.splitOn_append_cons_self_of_not_mem (slash_notMem_token s), ih s']
    rfl

/-- the indices are small enough for a machine word -/
def Path.Fits (p : Path) : Prop := ∀ i, .index i ∈ p → i < 2 ^ 64

theorem resolve_token {s : Step} (hs : ∀ i, s = .index i → i < 2 ^ 64) {v w : Json}
    (h : child? s v = some w) : resolve (unescapeToken s.token) v = some w := by
  cases s with
  | key k =>
    cases v with
    | obj fields =>
      show field? (String.ofList (unescapeToken (k.toList.flatMap escapeChar))) fields = some w
      rw [unescapeToken_escape, String.ofList_toList]
      exact h
    | null => cases h
    | bool b => cases h
    | num n => cases h
    | str t => cases h
    | arr xs => cases h
  | index i =>
    cases v with
    | arr xs =>
      have htilde := tilde_notMem_digits i
      show (parseIndex (unescapeToken (Nat.toDigits 10 i))).bind (fun i => xs[i]?) = some w
      unfold unescapeToken
      rw [replacePair_of_notMem htilde, replacePair_of_notMem htilde,
        parseIndex_toDigits (hs i rfl)]
      exact h
    | null => cases h
    | bool b => cases h
    | num n => cases h
    | str t => cases h
    | obj fields => cases h

theorem follow_tokens {p : Path} (hp : Path.Fits p) {v w : Json} (h : at? v p = some w) :
    follow ((p.map Step.token).map unescapeToken) v = some w := by
  induction p generalizing v with
  | nil => exact h
  | cons s p ih =>
    rw [at?_cons] at h
    obtain ⟨u, hu, hw⟩ := Option.bind_eq_some_iff.mp h
    show (resolve (unescapeToken s.token) v).bind _ = some w
    rw [resolve_token (fun i hi => hp i (hi ▸ List.mem_cons_self)) hu]
    exact ih (fun i hi => hp i (List.mem_cons_of_mem s hi)) hw

/-- **The pointer that is written of a path leads to where the path does.** -/
theorem pointer_pointerText {p : Path} (hp : Path.Fits p) {v w : Json} (h : at? v p = some w) :
    pointer (pointerText p) v = some w := by
  unfold pointer pointerText
  rw [String.toList_ofList]
  cases p with
  | nil => exact h
  | cons s p =>
    show follow (((s.token ++ pointerChars p).splitOn '/').map unescapeToken) v = some w
    rw [splitOn_pointerChars]
    exact follow_tokens hp h

/-! ## any pointer -/

theorem child_of_resolve {token : List Char} {v w : Json} (h : resolve token v = some w) :
    ∃ s, child? s v = some w := by
  cases v with
  | obj fields => exact ⟨.key (String.ofList token), h⟩
  | arr xs =>
    obtain ⟨i, -, hi⟩ := Option.bind_eq_some_iff.mp h
    exact ⟨.index i, hi⟩
  | null => cases h
  | bool b => cases h
  | num n => cases h
  | str t => cases h

theorem path_of_follow {tokens : List (List Char)} {v w : Json} (h : follow tokens v = some w) :
    ∃ p, at? v p = some w := by
  induction tokens generalizing v with
  | nil => exact ⟨[], h⟩
  | cons token tokens ih =>
    obtain ⟨u, hu, hw⟩ := Option.bind_eq_some_iff.mp h
    obtain ⟨s, hs⟩ := child_of_resolve hu
    obtain ⟨p, hp⟩ := ih hw
    refine ⟨s :: p, ?_⟩
    rw [at?_cons, hs]
    exact hp

/-- **What a pointer leads to is part of the value.** -/
theorem path_of_pointer {text : String} {v w : Json} (h : pointer text v = some w) :
    ∃ p, at? v p = some w := by
  unfold pointer at h
  split at h
  · exact ⟨[], h⟩
  · split at h
    · exact path_of_follow h
    · cases h

end Json
