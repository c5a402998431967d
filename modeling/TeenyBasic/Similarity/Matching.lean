/-!
# Matching blocks of two texts

Two texts are compared by repeatedly taking out their longest common run of characters: the run is
found, the pieces to its left and the pieces to its right are compared in the same way, and the
number of matched characters is the sum of the sizes of all runs. Of several longest runs the one
that starts earliest in the first text is taken, then the one that starts earliest in the second.

In a long second text a character that occurs very often says little. Such popular characters are
left out of the search for a run, but a run that has been found (or the empty run at the start, if
there is none) is widened over all equal neighbours, popular or not.

The main facts are that a widened run lies inside both texts, which is why the recursion ends, and
that the number of matched characters exceeds the length of neither text.
-/

namespace TeenyBasic.Similarity

/-- A run of equal characters: where it starts in either text, and how long it is. -/
structure Block where
  left : Nat
  right : Nat
  size : Nat
  deriving DecidableEq, Repr

/-- A block lies inside two texts. -/
def Block.Fits (block : Block) (a b : List Char) : Prop :=
  block.left + block.size ≤ a.length ∧ block.right + block.size ≤ b.length

/-- The number of leading places at which two texts hold the same character, and one that counts. -/
def agreement (counts : Char → Bool) : List Char → List Char → Nat
  | x :: a, y :: b => if x = y ∧ counts x then agreement counts a b + 1 else 0
  | _, _ => 0

theorem agreement_le (counts : Char → Bool) (a b : List Char) :
    agreement counts a b ≤ a.length ∧ agreement counts a b ≤ b.length := by
  fun_induction agreement counts a b <;> simp_all

/-- Improves on the best block so far by runs from the start of `a`, which has the given offset, to
every place of `b`, of which the first has the given offset. -/
def longestAgainst (counts : Char → Bool) (left : Nat) (a : List Char) :
    Nat → List Char → Block → Block
  | _, [], best => best
  | right, y :: b, best =>
    let size := agreement counts a (y :: b)
    longestAgainst counts left a (right + 1) b
      (if best.size < size then ⟨left, right, size⟩ else best)

/-- Improves on the best block so far by runs from every place of `a`, of which the first has the
given offset. -/
def longestFrom (counts : Char → Bool) (b : List Char) : Nat → List Char → Block → Block
  | _, [], best => best
  | left, x :: a, best =>
    longestFrom counts b (left + 1) a (longestAgainst counts left (x :: a) 0 b best)

/-- The longest run of characters that count, the earliest of several, and the empty run at the
start if there is none. -/
def longest (counts : Char → Bool) (a b : List Char) : Block :=
  longestFrom counts b 0 a ⟨0, 0, 0⟩

theorem longestAgainst_fits (counts : Char → Bool) (left right : Nat)
    (suffix b whole whole' : List Char) (best : Block) (hbest : best.Fits whole whole')
    (ha : left + suffix.length = whole.length) (hb : right + b.length = whole'.length) :
    (longestAgainst counts left suffix right b best).Fits whole whole' := by
  induction b generalizing right best with
  | nil => exact hbest
  | cons y b ih =>
    have hle := agreement_le counts suffix (y :: b)
    simp only [List.length_cons] at hb hle
    refine ih (right + 1) _ ?_ (by omega)
    split
    · exact ⟨by simp only; omega, by simp only; omega⟩
    · exact hbest

theorem longestFrom_fits (counts : Char → Bool) (left : Nat) (suffix whole b : List Char)
    (best : Block) (hbest : best.Fits whole b) (ha : left + suffix.length = whole.length) :
    (longestFrom counts b left suffix best).Fits whole b := by
  induction suffix generalizing left best with
  | nil => exact hbest
  | cons x suffix ih =>
    have hstep := longestAgainst_fits counts left 0 (x :: suffix) b whole b best hbest ha (by simp)
    simp only [List.length_cons] at ha
    exact ih (left + 1) _ hstep (by omega)

theorem longest_fits (counts : Char → Bool) (a b : List Char) : (longest counts a b).Fits a b :=
  longestFrom_fits counts 0 a a b _ ⟨by simp, by simp⟩ (by simp)

/-- Widens a block to the left and to the right over all equal characters. -/
def Block.widen (block : Block) (a b : List Char) : Block :=
  let back := agreement (fun _ ↦ true) (a.take block.left).reverse (b.take block.right).reverse
  let ahead := agreement (fun _ ↦ true) (a.drop (block.left + block.size))
    (b.drop (block.right + block.size))
  ⟨block.left - back, block.right - back, back + block.size + ahead⟩

theorem Block.widen_fits (block : Block) (a b : List Char) (h : block.Fits a b) :
    (block.widen a b).Fits a b := by
  have hback := agreement_le (fun _ ↦ true) (a.take block.left).reverse (b.take block.right).reverse
  have hahead := agreement_le (fun _ ↦ true) (a.drop (block.left + block.size))
    (b.drop (block.right + block.size))
  simp only [List.length_reverse, List.length_take, List.length_drop] at hback hahead
  obtain ⟨hleft, hright⟩ := h
  constructor <;> simp only [Block.widen] <;> omega

/-- The number of characters matched by longest runs, with runs searched among the characters that
count. -/
def matched (counts : Char → Bool) (a b : List Char) : Nat :=
  let block := (longest counts a b).widen a b
  if _ : 0 < block.size then
    block.size + matched counts (a.take block.left) (b.take block.right) +
      matched counts (a.drop (block.left + block.size)) (b.drop (block.right + block.size))
  else 0
termination_by a.length
decreasing_by
  all_goals
    have hfits := Block.widen_fits _ a b (longest_fits counts a b)
    simp only [Block.Fits] at hfits
    simp only [List.length_take, List.length_drop, block] at *
    omega

theorem matched_le (counts : Char → Bool) (a b : List Char) :
    matched counts a b ≤ a.length ∧ matched counts a b ≤ b.length := by
  fun_induction matched counts a b with
  | case1 a b block _ ihleft ihright =>
    have hfits : block.Fits a b := Block.widen_fits _ a b (longest_fits counts a b)
    simp only [Block.Fits, List.length_take, List.length_drop] at hfits ihleft ihright
    omega
  | case2 => simp

/-- Decides whether a character is popular in a text: the text has at least 200 characters, and the
character makes up more than a hundredth of them, one occurrence more being granted. -/
def isPopular (text : List Char) (c : Char) : Bool :=
  200 ≤ text.length && text.length / 100 + 1 < text.count c

end TeenyBasic.Similarity
