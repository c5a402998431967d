import TeenyBasic.Similarity.Matching

/-!
# Matched characters

The longest run is found by trying all pairs of places in order, so that of several longest runs the
first one is kept. Whatever the characters are that count, a run that has been found and widened is
the same in both texts. The runs to its left and to its right are taken from what remains there, so
all runs together make a common subsequence, as long as the number of matched characters.

In two equal texts the first longest run stands at the same place, and widening it takes up the
whole text, popular characters or not. Hence all characters of two texts are matched exactly if the
texts are equal.

The main statements are `exists_sublist_of_matched` and `two_mul_matched_eq_iff`.
-/

namespace TeenyBasic.Similarity

section

variable (counts : Char → Bool) (a b : List Char)

theorem exists_front_of_agreement : ∃ front restA restB,
    a = front ++ restA ∧ b = front ++ restB ∧ front.length = agreement counts a b := by
  fun_induction agreement counts a b with
  | case1 x a y b h ih =>
    obtain ⟨front, restA, restB, rfl, rfl, hlength⟩ := ih
    obtain ⟨rfl, -⟩ := h
    exact ⟨x :: front, restA, restB, rfl, rfl, by rw [List.length_cons, hlength]⟩
  | case2 x a y b h => exact ⟨[], _, _, rfl, rfl, rfl⟩
  | case3 a b => exact ⟨[], _, _, rfl, rfl, rfl⟩

theorem agreement_comm : agreement counts a b = agreement counts b a := by
  fun_induction agreement counts a b with
  | case1 x a y b h ih =>
    obtain ⟨rfl, hcounts⟩ := h
    rw [agreement, if_pos ⟨rfl, hcounts⟩, ih]
  | case2 x a y b h =>
    have hother : ¬(y = x ∧ counts y = true) := by
      rintro ⟨rfl, hcounts⟩
      exact h ⟨rfl, hcounts⟩
    rw [agreement, if_neg hother]
  | case3 a b h =>
    unfold agreement
    split
    · exact absurd rfl (h _ _ _ _ rfl)
    · rfl

theorem agreement_le_self : agreement counts a b ≤ agreement counts a a := by
  fun_induction agreement counts a b with
  | case1 x a y b h ih =>
    rw [agreement, if_pos ⟨rfl, h.2⟩]
    omega
  | case2 x a y b h => exact Nat.zero_le _
  | case3 a b h => exact Nat.zero_le _

theorem agreement_self_eq_length : agreement (fun _ ↦ true) a a = a.length := by
  induction a with
  | nil => rfl
  | cons x a ih => rw [agreement, if_pos ⟨rfl, rfl⟩, ih, List.length_cons]

/-- The length of the run that starts at the given places of two texts. -/
def runAt (left right : Nat) : Nat :=
  agreement counts (a.drop left) (b.drop right)

theorem runAt_of_length_le_left {left : Nat} (h : a.length ≤ left) (right : Nat) :
    runAt counts a b left right = 0 := by
  rw [runAt, List.drop_eq_nil_of_le h]
  rfl

theorem runAt_of_length_le_right (left : Nat) {right : Nat} (h : b.length ≤ right) :
    runAt counts a b left right = 0 := by
  rw [runAt, agreement_comm, List.drop_eq_nil_of_le h]
  rfl

end

/-- A block that starts no later than the given places, in the order in which they are tried. -/
def Block.StartsBy (block : Block) (left right : Nat) : Prop :=
  block.left < left ∨ block.left = left ∧ block.right ≤ right

/-- The best block when all places before the given ones have been tried: a run, longer than those
that start there earlier and no shorter than those that start there later. -/
structure Block.Leads (best : Block) (counts : Char → Bool) (a b : List Char)
    (left right : Nat) : Prop where
  attained : best.size ≤ runAt counts a b best.left best.right
  startsBy : best.StartsBy left right
  longest : ∀ i j, i < left ∨ i = left ∧ j < right → runAt counts a b i j ≤ best.size
  earliest : ∀ i j, i < left ∨ i = left ∧ j < right → runAt counts a b i j = best.size →
    best.StartsBy i j

section

variable {counts : Char → Bool} {a b : List Char} {best : Block} {left right : Nat}

theorem Block.Leads.step (h : best.Leads counts a b left right) :
    (if best.size < runAt counts a b left right then ⟨left, right, runAt counts a b left right⟩
      else best : Block).Leads counts a b left (right + 1) := by
  have hcases : ∀ i j, i < left ∨ i = left ∧ j < right + 1 →
      (i < left ∨ i = left ∧ j < right) ∨ i = left ∧ j = right := by
    intros
    omega
  split
  · rename_i hbetter
    refine ⟨Nat.le_refl _, .inr ⟨rfl, Nat.le_succ _⟩, fun i j hij ↦ ?_, fun i j hij heq ↦ ?_⟩
    · rcases hcases i j hij with hbefore | ⟨rfl, rfl⟩
      · exact Nat.le_trans (h.longest i j hbefore) (Nat.le_of_lt hbetter)
      · exact Nat.le_refl _
    · rcases hcases i j hij with hbefore | ⟨rfl, rfl⟩
      · have hle := h.longest i j hbefore
        dsimp only at heq
        omega
      · exact .inr ⟨rfl, Nat.le_refl _⟩
  · rename_i hworse
    have hstarts := h.startsBy
    refine ⟨h.attained, ?_, fun i j hij ↦ ?_, fun i j hij heq ↦ ?_⟩
    · unfold StartsBy at hstarts ⊢
      omega
    · rcases hcases i j hij with hbefore | ⟨rfl, rfl⟩
      · exact h.longest i j hbefore
      · exact Nat.le_of_not_lt hworse
    · rcases hcases i j hij with hbefore | ⟨rfl, rfl⟩
      · exact h.earliest i j hbefore heq
      · exact hstarts

theorem Block.Leads.nextLeft (h : best.Leads counts a b left right) (hright : b.length ≤ right) :
    best.Leads counts a b (left + 1) 0 := by
  have hstarts := h.startsBy
  have hcases : ∀ i j, i < left + 1 ∨ i = left + 1 ∧ j < 0 →
      (i < left ∨ i = left ∧ j < right) ∨ i = left ∧ right ≤ j := by
    intros
    omega
  refine ⟨h.attained, ?_, fun i j hij ↦ ?_, fun i j hij heq ↦ ?_⟩
  · unfold StartsBy at hstarts ⊢
    omega
  · rcases hcases i j hij with hbefore | ⟨rfl, hj⟩
    · exact h.longest i j hbefore
    · rw [runAt_of_length_le_right counts a b i (Nat.le_trans hright hj)]
      exact Nat.zero_le _
  · rcases hcases i j hij with hbefore | ⟨rfl, hj⟩
    · exact h.earliest i j hbefore heq
    · unfold StartsBy at hstarts ⊢
      omega

theorem leads_longestAgainst (h : best.Leads counts a b left right) {rest : List Char}
    (hrest : b.drop right = rest) :
    (longestAgainst counts left (a.drop left) right rest best).Leads counts a b left
      (right + rest.length) := by
  induction rest generalizing right best with
  | nil => exact h
  | cons y rest ih =>
    have hsize : agreement counts (a.drop left) (y :: rest) = runAt counts a b left right := by
      rw [runAt, hrest]
    have hdrop : b.drop (right + 1) = rest := by
      rw [← List.drop_drop, hrest, List.drop_succ_cons, List.drop_zero]
    rw [longestAgainst, hsize, List.length_cons, Nat.add_comm rest.length, ← Nat.add_assoc]
    exact ih h.step hdrop

theorem leads_longestFrom (h : best.Leads counts a b left 0) {rest : List Char}
    (hrest : a.drop left = rest) :
    (longestFrom counts b left rest best).Leads counts a b (left + rest.length) 0 := by
  induction rest generalizing left best with
  | nil => exact h
  | cons x rest ih =>
    have hrow := leads_longestAgainst h (List.drop_zero (l := b))
    have hdrop : a.drop (left + 1) = rest := by
      rw [← List.drop_drop, hrest, List.drop_succ_cons, List.drop_zero]
    rw [hrest, Nat.zero_add] at hrow
    rw [longestFrom, List.length_cons, Nat.add_comm rest.length, ← Nat.add_assoc]
    exact ih (hrow.nextLeft (Nat.le_refl _)) hdrop

/-- The longest run of all, and the first of those. -/
structure Block.IsFirstLongest (block : Block) (counts : Char → Bool) (a b : List Char) :
    Prop where
  attained : block.size = runAt counts a b block.left block.right
  longest : ∀ i j, runAt counts a b i j ≤ block.size
  earliest : ∀ i j, runAt counts a b i j = block.size → block.StartsBy i j

theorem isFirstLongest_longest (counts : Char → Bool) (a b : List Char) :
    (longest counts a b).IsFirstLongest counts a b := by
  have hstart : (⟨0, 0, 0⟩ : Block).Leads counts a b 0 0 :=
    ⟨Nat.zero_le _, .inr ⟨rfl, Nat.le_refl _⟩, by omega, by omega⟩
  have hleads : (longest counts a b).Leads counts a b a.length 0 := by
    have hall := leads_longestFrom hstart (List.drop_zero (l := a))
    rwa [Nat.zero_add] at hall
  have hstarts := hleads.startsBy
  have hlongest : ∀ i j, runAt counts a b i j ≤ (longest counts a b).size := by
    intro i j
    by_cases hi : i < a.length
    · exact hleads.longest i j (.inl hi)
    · rw [runAt_of_length_le_left counts a b (Nat.le_of_not_lt hi)]
      exact Nat.zero_le _
  refine ⟨Nat.le_antisymm hleads.attained (hlongest _ _), hlongest, fun i j heq ↦ ?_⟩
  by_cases hi : i < a.length
  · exact hleads.earliest i j (.inl hi) heq
  · unfold Block.StartsBy at hstarts ⊢
    omega

end

/-- A block that cuts the same run out of two texts. -/
def Block.Matches (block : Block) (a b : List Char) : Prop :=
  ∃ run frontA frontB restA restB, a = frontA ++ (run ++ restA) ∧ b = frontB ++ (run ++ restB) ∧
    frontA.length = block.left ∧ frontB.length = block.right ∧ run.length = block.size

theorem take_drop_of_run {text front run rest : List Char} {start size : Nat}
    (htext : text = front ++ (run ++ rest)) (hstart : front.length = start)
    (hsize : run.length = size) : text.take start = front ∧ text.drop (start + size) = rest := by
  subst htext
  exact ⟨List.take_left' hstart,
    by rw [← List.drop_drop, List.drop_left' hstart, List.drop_left' hsize]⟩

theorem longest_matches (counts : Char → Bool) (a b : List Char) :
    (longest counts a b).Matches a b := by
  obtain ⟨hleft, hright⟩ := longest_fits counts a b
  have hsize := (isFirstLongest_longest counts a b).attained
  generalize longest counts a b = block at hleft hright hsize
  obtain ⟨run, restA, restB, ha, hb, hrun⟩ :=
    exists_front_of_agreement counts (a.drop block.left) (b.drop block.right)
  refine ⟨run, a.take block.left, b.take block.right, restA, restB, ?_, ?_, ?_, ?_, ?_⟩
  · rw [← ha, List.take_append_drop]
  · rw [← hb, List.take_append_drop]
  · rw [List.length_take]
    omega
  · rw [List.length_take]
    omega
  · rw [hrun, hsize, runAt]

theorem Block.Matches.widen {block : Block} {a b : List Char} (h : block.Matches a b) :
    (block.widen a b).Matches a b := by
  obtain ⟨run, frontA, frontB, restA, restB, rfl, rfl, hleft, hright, hsize⟩ := h
  obtain ⟨back, beforeA, beforeB, hbackA, hbackB, hback⟩ :=
    exists_front_of_agreement (fun _ ↦ true) frontA.reverse frontB.reverse
  obtain ⟨ahead, behindA, behindB, rfl, rfl, hahead⟩ :=
    exists_front_of_agreement (fun _ ↦ true) restA restB
  rw [List.reverse_eq_iff, List.reverse_append] at hbackA hbackB
  have hlengthA : frontA.length = beforeA.length + back.length := by simp [hbackA]
  have hlengthB : frontB.length = beforeB.length + back.length := by simp [hbackB]
  obtain ⟨htakeA, hdropA⟩ :=
    take_drop_of_run (rfl : _ = frontA ++ (run ++ (ahead ++ behindA))) hleft hsize
  obtain ⟨htakeB, hdropB⟩ :=
    take_drop_of_run (rfl : _ = frontB ++ (run ++ (ahead ++ behindB))) hright hsize
  refine ⟨back.reverse ++ run ++ ahead, beforeA.reverse, beforeB.reverse, behindA, behindB,
    ?_, ?_, ?_, ?_, ?_⟩
  · simp [hbackA]
  · simp [hbackB]
  · simp only [Block.widen, htakeA, htakeB, ← hback, List.length_reverse]
    omega
  · simp only [Block.widen, htakeA, htakeB, ← hback, List.length_reverse]
    omega
  · simp only [Block.widen, htakeA, htakeB, hdropA, hdropB, ← hback, ← hahead, hsize,
      List.length_append, List.length_reverse]

/-- The matched characters are a common subsequence of the two texts. -/
theorem exists_sublist_of_matched (counts : Char → Bool) (a b : List Char) :
    ∃ common : List Char, common.Sublist a ∧ common.Sublist b ∧
      common.length = matched counts a b := by
  fun_induction matched counts a b with
  | case1 a b block _ ihleft ihright =>
    obtain ⟨first, hfirstA, hfirstB, hfirst⟩ := ihleft
    obtain ⟨last, hlastA, hlastB, hlast⟩ := ihright
    have hmatches : block.Matches a b := (longest_matches counts a b).widen
    obtain ⟨run, frontA, frontB, restA, restB, ha, hb, hleft, hright, hsize⟩ := hmatches
    obtain ⟨htakeA, hdropA⟩ := take_drop_of_run ha hleft hsize
    obtain ⟨htakeB, hdropB⟩ := take_drop_of_run hb hright hsize
    rw [htakeA] at hfirstA
    rw [htakeB] at hfirstB
    rw [hdropA] at hlastA
    rw [hdropB] at hlastB
    refine ⟨first ++ (run ++ last), ?_, ?_, ?_⟩
    · rw [ha]
      exact hfirstA.append ((List.Sublist.refl run).append hlastA)
    · rw [hb]
      exact hfirstB.append ((List.Sublist.refl run).append hlastB)
    · rw [List.length_append, List.length_append, hfirst, hlast, hsize]
      omega
  | case2 a b block _ => exact ⟨[], List.nil_sublist a, List.nil_sublist b, rfl⟩

theorem left_longest_self (counts : Char → Bool) (a : List Char) :
    (longest counts a a).left = (longest counts a a).right := by
  obtain ⟨hattained, hlongest, hearliest⟩ := isFirstLongest_longest counts a a
  generalize longest counts a a = block at hattained hlongest hearliest
  -- The run is found with the two texts exchanged, and where it starts in the first it goes with
  -- itself, so it can start neither earlier nor later in the second.
  have hexchanged : block.StartsBy block.right block.left := by
    apply hearliest
    rw [hattained, runAt, runAt, agreement_comm]
  have hdiagonal : block.StartsBy block.left block.left := by
    apply hearliest
    apply Nat.le_antisymm (hlongest _ _)
    rw [hattained]
    exact agreement_le_self counts _ _
  unfold Block.StartsBy at hexchanged hdiagonal
  omega

theorem widen_longest_self (counts : Char → Bool) (a : List Char) :
    (longest counts a a).widen a a = ⟨0, 0, a.length⟩ := by
  have hsame := left_longest_self counts a
  obtain ⟨hfits, -⟩ := longest_fits counts a a
  generalize longest counts a a = block at hsame hfits
  simp only [Block.widen, ← hsame, agreement_self_eq_length, List.length_reverse, List.length_take,
    List.length_drop, Block.mk.injEq]
  omega

theorem matched_self (counts : Char → Bool) (a : List Char) :
    matched counts a a = a.length := by
  have hle := matched_le counts a a
  rw [matched, widen_longest_self]
  dsimp only
  split
  · have hfront := matched_le counts (a.take 0) (a.take 0)
    have hback := matched_le counts (a.drop (0 + a.length)) (a.drop (0 + a.length))
    simp only [List.length_take, List.length_drop] at hfront hback
    omega
  · omega

/-- All characters of two texts are matched exactly if the texts are equal. -/
theorem two_mul_matched_eq_iff (counts : Char → Bool) (a b : List Char) :
    2 * matched counts a b = a.length + b.length ↔ a = b := by
  constructor
  · intro h
    have hle := matched_le counts a b
    obtain ⟨common, hA, hB, hlength⟩ := exists_sublist_of_matched counts a b
    have hcommonA : common = a := hA.eq_of_length (by omega)
    have hcommonB : common = b := hB.eq_of_length (by omega)
    rw [← hcommonA, hcommonB]
  · rintro rfl
    rw [matched_self]
    omega

end TeenyBasic.Similarity
