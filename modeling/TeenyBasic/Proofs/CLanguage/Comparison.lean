import TeenyBasic.Proofs.CLanguage.Expression

/-!
# Comparisons of C

Comparisons of order bind tighter than comparisons for equality, and each of the two kinds groups
from left to right. Reading from left to right therefore keeps two things besides the sum that is
being read: what the next comparison of order becomes part of, and what the next comparison for
equality becomes part of.

The main statement is `tree_eq_of_derives_comparing`: tokens of arithmetic and comparisons have at
most one tree.
-/

namespace TeenyBasic.C

/-- The comparisons for equality. -/
def equalitySigns : List String := ["==", "!="]

/-- The comparisons of order. -/
def orderSigns : List String := ["<", "<=", ">", ">="]

/-- The tokens of arithmetic and comparisons without parentheses. -/
def IsComparing : Token → Prop
  | .word _ | .number _ => True
  | .literal _ _ _ => False
  | .mark symbol => IsPlain (.mark symbol) ∨ symbol ∈ equalitySigns ∨ symbol ∈ orderSigns

instance : DecidablePred IsComparing
  | .word _ | .number _ => .isTrue trivial
  | .literal _ _ _ => .isFalse id
  | .mark symbol => inferInstanceAs
      (Decidable (IsPlain (.mark symbol) ∨ symbol ∈ equalitySigns ∨ symbol ∈ orderSigns))

theorem isComparing_of_isPlain {token : Token} (h : IsPlain token) : IsComparing token := by
  cases token with
  | mark symbol => exact Or.inl h
  | word _ | number _ | literal _ _ _ => exact h

theorem binaryLevel?_equalitySigns :
    ∀ sign ∈ equalitySigns, binaryLevel? sign = some Level.equality := by
  decide

theorem binaryLevel?_orderSigns :
    ∀ sign ∈ orderSigns, binaryLevel? sign = some Level.relational := by
  decide

/-- Tokens without comparisons, or tokens that a comparison divides, which is not looser than the
level. -/
inductive Compares (level : Nat) : List Token → Tree → Prop
  | plain {tokens : List Token} {tree : Tree} (h : ∀ token ∈ tokens, IsPlain token) :
    Compares level tokens tree
  | equality {sign : String} {front back : List Token} {left right : Tree}
    (hlevel : level ≤ Level.equality) (hsign : sign ∈ equalitySigns)
    (hleft : Derives Level.equality front left) (hright : Derives Level.relational back right) :
    Compares level (front ++ .mark sign :: back) (.binary sign left right)
  | order {sign : String} {front back : List Token} {left right : Tree}
    (hlevel : level ≤ Level.relational) (hsign : sign ∈ orderSigns)
    (hleft : Derives Level.relational front left)
    (hright : Derives (Level.relational + 1) back right) :
    Compares level (front ++ .mark sign :: back) (.binary sign left right)

theorem Compares.lower {level : Nat} {tokens : List Token} {tree : Tree}
    (h : Compares (level + 1) tokens tree) : Compares level tokens tree := by
  cases h with
  | plain h => exact .plain h
  | equality hlevel hsign hleft hright => exact .equality (by omega) hsign hleft hright
  | order hlevel hsign hleft hright => exact .order (by omega) hsign hleft hright

theorem Compares.isPlain {level : Nat} {tokens : List Token} {tree : Tree}
    (h : Compares level tokens tree) (hlevel : Level.relational < level) :
    ∀ token ∈ tokens, IsPlain token := by
  cases h with
  | plain h => exact h
  | equality hle _ _ _ => exact absurd (Nat.lt_of_lt_of_le hlevel hle) (by decide)
  | order hle _ _ _ => exact absurd (Nat.lt_of_lt_of_le hlevel hle) (by decide)

theorem Derives.compares {level : Nat} {tokens : List Token} {tree : Tree}
    (h : Derives level tokens tree) (hcomparing : ∀ token ∈ tokens, IsComparing token) :
    Compares level tokens tree := by
  induction h with
  | higher _ _ ih => exact (ih hcomparing).lower
  | @binary level operator front back left right hoperator hleft hright ihleft ihright =>
    rcases hcomparing (.mark operator) (by simp) with hplain | hsign | hsign
    · -- An arithmetic operator has no comparison on either side of it.
      have hlevel : Level.relational < level := by
        rcases binaryLevel?_of_isPlain hplain hoperator with ⟨rfl, _⟩ | ⟨rfl, _⟩ <;> decide
      have hfront := (ihleft fun token ht ↦ hcomparing token (by simp [ht])).isPlain hlevel
      have hback := (ihright fun token ht ↦ hcomparing token (by simp [ht])).isPlain (by omega)
      apply Compares.plain
      intro token htoken
      rcases List.mem_append.mp htoken with hmem | hmem
      · exact hfront token hmem
      · rcases List.mem_cons.mp hmem with rfl | hmem
        · exact hplain
        · exact hback token hmem
    · rw [binaryLevel?_equalitySigns operator hsign] at hoperator
      cases hoperator
      exact .equality (Nat.le_refl _) hsign hleft hright
    · rw [binaryLevel?_orderSigns operator hsign] at hoperator
      cases hoperator
      exact .order (Nat.le_refl _) hsign hleft hright
  | assign _ _ _ _ => exact absurd (hcomparing (.mark "=") (by simp)) (by decide)
  | cast _ _ _ | call _ _ _ _ | parenthesised _ _ =>
    exact absurd (hcomparing (.mark "(") (by simp)) (by decide)
  | @unary operator tokens operand hoperator _ ih =>
    have hsigns : ∀ sign ∈ unaryOperators, IsComparing (.mark sign) → IsPlain (.mark sign) := by
      decide
    have hsign := hsigns operator hoperator (hcomparing _ List.mem_cons_self)
    have hrest := (ih fun token ht ↦ hcomparing token (List.mem_cons_of_mem _ ht)).isPlain
      (by decide)
    apply Compares.plain
    intro token htoken
    rcases List.mem_cons.mp htoken with rfl | hmem
    · exact hsign
    · exact hrest token hmem
  | named _ | constant _ => exact .plain (by simp [IsPlain])
  | text => exact absurd (hcomparing _ List.mem_cons_self) id

/-- How far tokens of arithmetic and comparisons have been read: what the next comparison of order
and the next sum become part of, and how far the sum has been read. -/
structure Comparing where
  equal : Tree → Tree
  order : Tree → Tree
  sum : Progress

/-- The tree of a sum, if it does not end with an operator. -/
def Progress.tree? (progress : Progress) : Option Tree :=
  progress.factor.map fun factor ↦ progress.sum (progress.term factor)

/-- Reads one more token. A comparison ends the sum before it. -/
def Comparing.step (comparing : Comparing) (token : Token) : Comparing :=
  match token, comparing.sum.tree? with
  | .mark symbol, some sum =>
    if symbol ∈ equalitySigns then
      ⟨.binary symbol (comparing.equal (comparing.order sum)), id, .start⟩
    else if symbol ∈ orderSigns then
      ⟨comparing.equal, .binary symbol (comparing.order sum), .start⟩
    else { comparing with sum := comparing.sum.step token }
  | _, _ => { comparing with sum := comparing.sum.step token }

def Comparing.run (comparing : Comparing) (tokens : List Token) : Comparing :=
  tokens.foldl Comparing.step comparing

theorem Comparing.run_append (comparing : Comparing) (a b : List Token) :
    comparing.run (a ++ b) = (comparing.run a).run b :=
  List.foldl_append

theorem Comparing.run_cons (comparing : Comparing) (token : Token) (tokens : List Token) :
    comparing.run (token :: tokens) = (comparing.step token).run tokens := rfl

theorem Comparing.run_plain {tokens : List Token} (h : ∀ token ∈ tokens, IsPlain token)
    (comparing : Comparing) :
    comparing.run tokens = { comparing with sum := comparing.sum.run tokens } := by
  induction tokens generalizing comparing with
  | nil => rfl
  | cons token tokens ih =>
    have hstep : comparing.step token = { comparing with sum := comparing.sum.step token } := by
      have hsigns : ∀ symbol ∈ ["+", "-", "*", "/"],
          symbol ∉ equalitySigns ∧ symbol ∉ orderSigns := by
        decide
      unfold Comparing.step
      split
      · obtain ⟨hequality, horder⟩ := hsigns _ (h _ List.mem_cons_self)
        rw [if_neg hequality, if_neg horder]
      · rfl
    rw [Comparing.run_cons, hstep, ih fun other hother ↦ h other (List.mem_cons_of_mem _ hother)]
    rfl

theorem Comparing.step_equality {comparing : Comparing} {sign : String} {sum : Tree}
    (hsign : sign ∈ equalitySigns) (hsum : comparing.sum.tree? = some sum) :
    comparing.step (.mark sign) =
      ⟨.binary sign (comparing.equal (comparing.order sum)), id, .start⟩ := by
  simp only [Comparing.step, hsum, if_pos hsign]

theorem Comparing.step_order {comparing : Comparing} {sign : String} {sum : Tree}
    (hsign : sign ∈ orderSigns) (hsum : comparing.sum.tree? = some sum) :
    comparing.step (.mark sign) =
      ⟨comparing.equal, .binary sign (comparing.order sum), .start⟩ := by
  have hother : sign ∉ equalitySigns := by
    have hsigns : ∀ sign ∈ orderSigns, sign ∉ equalitySigns := by decide
    exact hsigns sign hsign
  simp only [Comparing.step, hsum, if_neg hother, if_pos hsign]

/-- Reading a sum changes nothing else. -/
theorem run_comparing_sum {level : Nat} {tokens : List Token} {tree : Tree}
    (h : Derives level tokens tree) (hplain : ∀ token ∈ tokens, IsPlain token)
    (equal order : Tree → Tree) :
    ∃ sum : Progress, (Comparing.mk equal order .start).run tokens = ⟨equal, order, sum⟩ ∧
      sum.tree? = some tree := by
  obtain ⟨sum, term, factor, hrun, htree⟩ := run_sum h hplain
  refine ⟨⟨sum, term, id, some factor⟩, ?_, congrArg some htree⟩
  rw [Comparing.run_plain hplain, hrun]

/-- Reading a phrase from the level of order on leaves what it is part of unchanged. -/
theorem run_order {level : Nat} {tokens : List Token} {tree : Tree}
    (h : Derives level tokens tree) (hlevel : Level.equality < level)
    (hcomparing : ∀ token ∈ tokens, IsComparing token) (equal : Tree → Tree) :
    ∃ order sum value, (Comparing.mk equal id .start).run tokens = ⟨equal, order, sum⟩ ∧
      sum.tree? = some value ∧ order value = tree := by
  cases h.compares hcomparing with
  | plain hplain =>
    obtain ⟨sum, hrun, hsum⟩ := run_comparing_sum h hplain equal id
    exact ⟨id, sum, tree, hrun, hsum, rfl⟩
  | equality hle _ _ _ => exact absurd hle (by omega)
  | @order sign front back left right _ hsign hleft hright =>
    have hfront : ∀ token ∈ front, IsComparing token :=
      fun token ht ↦ hcomparing token (by simp [ht])
    have hback := (hright.compares fun token ht ↦ hcomparing token (by simp [ht])).isPlain
      (by decide)
    obtain ⟨order, sum, value, hrun, hsum, hvalue⟩ := run_order hleft (by decide) hfront equal
    obtain ⟨sum', hrun', hsum'⟩ := run_comparing_sum hright hback equal (.binary sign left)
    refine ⟨.binary sign left, sum', right, ?_, hsum', rfl⟩
    rw [Comparing.run_append, hrun, Comparing.run_cons, Comparing.step_order hsign hsum]
    dsimp only
    rw [hvalue, hrun']
termination_by tokens.length

/-- The tree of arithmetic and comparisons is what reading from left to right gives. -/
theorem run_equality {level : Nat} {tokens : List Token} {tree : Tree}
    (h : Derives level tokens tree) (hcomparing : ∀ token ∈ tokens, IsComparing token) :
    ∃ equal order sum value, (Comparing.mk id id .start).run tokens = ⟨equal, order, sum⟩ ∧
      sum.tree? = some value ∧ equal (order value) = tree := by
  cases h.compares hcomparing with
  | plain hplain =>
    obtain ⟨sum, hrun, hsum⟩ := run_comparing_sum h hplain id id
    exact ⟨id, id, sum, tree, hrun, hsum, rfl⟩
  | @equality sign front back left right _ hsign hleft hright =>
    have hfront : ∀ token ∈ front, IsComparing token :=
      fun token ht ↦ hcomparing token (by simp [ht])
    have hback : ∀ token ∈ back, IsComparing token :=
      fun token ht ↦ hcomparing token (by simp [ht])
    obtain ⟨equal, order, sum, value, hrun, hsum, hvalue⟩ := run_equality hleft hfront
    obtain ⟨order', sum', value', hrun', hsum', hvalue'⟩ :=
      run_order hright (by decide) hback (.binary sign left)
    refine ⟨.binary sign left, order', sum', value', ?_, hsum', by rw [hvalue']⟩
    rw [Comparing.run_append, hrun, Comparing.run_cons, Comparing.step_equality hsign hsum]
    dsimp only
    rw [hvalue, hrun']
  | order hlevel hsign hleft hright =>
    have hwhole := Derives.binary (binaryLevel?_orderSigns _ hsign) hleft hright
    obtain ⟨order, sum, value, hrun, hsum, hvalue⟩ := run_order hwhole (by decide) hcomparing id
    exact ⟨id, order, sum, value, hrun, hsum, hvalue⟩
termination_by tokens.length

/-- Arithmetic and comparisons stand for at most one tree, on whatever levels. -/
theorem tree_eq_of_derives_comparing {level level' : Nat} {tokens : List Token}
    {tree tree' : Tree} (h : Derives level tokens tree) (h' : Derives level' tokens tree')
    (hcomparing : ∀ token ∈ tokens, IsComparing token) : tree = tree' := by
  obtain ⟨equal, order, sum, value, hrun, hsum, rfl⟩ := run_equality h hcomparing
  obtain ⟨equal', order', sum', value', hrun', hsum', rfl⟩ := run_equality h' hcomparing
  rw [hrun] at hrun'
  cases hrun'
  rw [hsum] at hsum'
  cases hsum'
  rfl

end TeenyBasic.C
