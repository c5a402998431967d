import TeenyBasic.Similarity.Matching

/-!
# Ranking similar names

The similarity of two names is twice the number of their matched characters over the sum of their
lengths, an exact fraction between zero and one; two empty names have similarity one. Names with a
similarity of at least three fifths are close. Close candidates are listed from the most similar to
the least, and equally similar ones from the last in code point order to the first.
-/

namespace TeenyBasic.Similarity

/-- The similarity of two names, as a fraction with a positive denominator. -/
structure Ratio where
  numerator : Nat
  denominator : Nat
  deriving DecidableEq, Repr

/-- The similarity of a candidate to a name. -/
def ratio (name candidate : List Char) : Ratio :=
  let total := candidate.length + name.length
  if total = 0 then ⟨1, 1⟩
  else ⟨2 * matched (fun c ↦ !isPopular name c) candidate name, total⟩

/-- The order of fractions. -/
def Ratio.le (r s : Ratio) : Bool :=
  r.numerator * s.denominator ≤ s.numerator * r.denominator

/-- The least similarity of close names. -/
def threshold : Ratio := ⟨3, 5⟩

/-- A candidate with its similarity to the name asked for. -/
structure Ranked where
  ratio : Ratio
  candidate : String
  deriving DecidableEq, Repr

/-- Decides whether a ranked candidate is listed no later than another. -/
def Ranked.precedes (x y : Ranked) : Bool :=
  if x.ratio.le y.ratio then y.ratio.le x.ratio && y.candidate ≤ x.candidate else true

/-- The close candidates, from the first to be listed to the last. -/
def ranking (name : String) (candidates : List String) : List Ranked :=
  let ranked := candidates.map fun c ↦ (⟨ratio name.toList c.toList, c⟩ : Ranked)
  (ranked.filter fun r ↦ threshold.le r.ratio).mergeSort Ranked.precedes

/-- At most `limit` close candidates, the best ones. -/
def closest (limit : Nat) (name : String) (candidates : List String) : List String :=
  ((ranking name candidates).take limit).map Ranked.candidate

/-- The number of suggestions offered unless asked otherwise. -/
def defaultLimit : Nat := 3

/-- A request for suggestions that allows none. -/
structure LimitFault where
  limit : Int
  deriving DecidableEq, Repr

/-- The message for a limit that is not positive. -/
def LimitFault.message (fault : LimitFault) : String :=
  s!"n must be > 0: {fault.limit}"

/-- At most `limit` close candidates; the limit must be positive. -/
def suggest (limit : Int) (name : String) (candidates : List String) :
    Except LimitFault (List String) :=
  if limit ≤ 0 then .error ⟨limit⟩ else .ok (closest limit.toNat name candidates)

end TeenyBasic.Similarity
