import Tokudo.Core.Pricing

/-!
# ROUGE-L

`quality.rs`: the longest common subsequence of two texts, word by word, relative to their lengths.
-/

namespace Tokudo

structure RougeLScore where
  precision : F64
  «recall» : F64
  f1 : F64
  deriving DecidableEq

/-- words in lower case; `str::to_ascii_lowercase` -/
def tokenize (text : String) : List String :=
  (splitWhitespace text).map fun word => String.ofList (word.toList.map Char.toLower)

/-- the inner loop: `previous` is what is left of the row above, `diagonal` and `left` are the
values beside the next one -/
def lcsCells (candidateToken : String) : List String → List Nat → Nat → Nat → List Nat
  | [], _, _, _ => []
  | referenceToken :: reference, previous, diagonal, left =>
    let up := previous.headD 0
    let value := if candidateToken = referenceToken then diagonal + 1 else max up left
    value :: lcsCells candidateToken reference previous.tail up value

/-- the row below `previous`; each row begins with a zero -/
def lcsRow (reference : List String) (previous : List Nat) (candidateToken : String) : List Nat :=
  0 :: lcsCells candidateToken reference previous.tail 0 0

def lcsLen (candidate reference : List String) : Nat :=
  (candidate.foldl (lcsRow reference) (List.replicate (reference.length + 1) 0)).getLastD 0

def rougeL (candidate reference : String) : RougeLScore :=
  let candidateTokens := tokenize candidate
  let referenceTokens := tokenize reference
  if candidateTokens.isEmpty ∧ referenceTokens.isEmpty then ⟨1, 1, 1⟩
  else if candidateTokens.isEmpty ∨ referenceTokens.isEmpty then ⟨0, 0, 0⟩
  else
    let lcs : F64 := lcsLen candidateTokens referenceTokens
    let precision := lcs / candidateTokens.length
    let «recall» := lcs / referenceTokens.length
    let f1 := if precision + «recall» = 0 then 0 else 2 * precision * «recall» / (precision + «recall»)
    ⟨precision, «recall», f1⟩

/-- the loop of `mean_rouge_l_f1`: the count and the sum -/
def addScore (acc : Nat × F64) (pair : String × String) : Nat × F64 :=
  (saturatingAdd acc.1 1, acc.2 + (rougeL pair.1 pair.2).f1)

def meanRougeLF1 (pairs : List (String × String)) : Option F64 :=
  let acc := pairs.foldl addScore (0, 0)
  if acc.1 = 0 then none else some (acc.2 / (acc.1 : ℚ))

end Tokudo
