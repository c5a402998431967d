import TeenyBasic.Proofs.CLanguage.Comparison
import TeenyBasic.Proofs.Reading.Expression

/-!
# How C groups comparisons

In the source, comparisons in a row group from left to right. They are written to C as they stand,
and C lets comparisons of order bind tighter than those for equality. It therefore reads a row of
comparisons as equalities between rows of comparisons of order.

The main statement is `Condition.cTree_eq_leftTree_iff`: the two groupings are the same exactly when
no comparison of order stands behind one for equality.
-/

namespace TeenyBasic

/-- Whether a comparison is one of order, and not for equality. -/
def Comparison.isOrder : Comparison → Bool
  | .equal | .notEqual => false
  | .less | .lessOrEqual | .greater | .greaterOrEqual => true

theorem Comparison.symbol_mem_orderSigns {comparison : Comparison}
    (h : comparison.isOrder = true) : comparison.symbol ∈ C.orderSigns := by
  cases comparison <;> first | decide | cases h

theorem Comparison.symbol_mem_equalitySigns {comparison : Comparison}
    (h : comparison.isOrder = false) : comparison.symbol ∈ C.equalitySigns := by
  cases comparison <;> first | decide | cases h

theorem Comparison.symbol_ne {a b : Comparison} (ha : a.isOrder = false) (hb : b.isOrder = true) :
    a.symbol ≠ b.symbol := by
  intro h
  have hboth := Comparison.symbol_mem_orderSigns hb
  rw [← h] at hboth
  have hapart : ∀ sign ∈ C.equalitySigns, sign ∉ C.orderSigns := by decide
  exact hapart _ (Comparison.symbol_mem_equalitySigns ha) hboth

namespace Source

/-- How far C has grouped comparisons: the last equality with what stands before it, if there is
one, and the row of comparisons of order behind it. -/
structure Grouping where
  equality : Option (Comparison × C.Tree)
  row : C.Tree

def Grouping.tree : Grouping → C.Tree
  | ⟨none, row⟩ => row
  | ⟨some (sign, left), row⟩ => .binary sign.symbol left row

/-- Adds a comparison. One of order becomes part of the row, and an equality closes it. -/
def Grouping.add (grouping : Grouping) (link : Comparison × Expression) : Grouping :=
  if link.1.isOrder then
    { grouping with row := .binary link.1.symbol grouping.row (Expression.cTree link.2) }
  else ⟨some (link.1, grouping.tree), Expression.cTree link.2⟩

def Grouping.of (first : Expression) (links : List (Comparison × Expression)) : Grouping :=
  links.foldl Grouping.add ⟨none, Expression.cTree first⟩

/-- The tree that C gives to a condition. -/
def Condition.cTree (condition : Condition) : C.Tree :=
  (Grouping.of condition.chain.first condition.chain.rest).tree

/-- The tree of a condition that groups all comparisons from left to right. -/
def Condition.leftTree (condition : Condition) : C.Tree :=
  condition.chain.cTreeBy (·.symbol) Expression.cTree

/-- No comparison of order stands behind one for equality. -/
def OrdersFirst (links : List (Comparison × Expression)) : Prop :=
  (links.map Prod.fst).Pairwise fun earlier later ↦ later.isOrder = true → earlier.isOrder = true

instance : DecidablePred OrdersFirst := fun _ ↦ inferInstanceAs (Decidable (List.Pairwise _ _))

theorem Grouping.of_append_singleton (first : Expression) (links : List (Comparison × Expression))
    (link : Comparison × Expression) :
    Grouping.of first (links ++ [link]) = (Grouping.of first links).add link :=
  List.foldl_append

theorem ordersFirst_append_singleton {links : List (Comparison × Expression)}
    {link : Comparison × Expression} :
    OrdersFirst (links ++ [link]) ↔ OrdersFirst links ∧
      (link.1.isOrder = true → ∀ other ∈ links, other.1.isOrder = true) := by
  rw [OrdersFirst, List.map_append, List.pairwise_append]
  have hsingle : (List.map Prod.fst [link]).Pairwise
      fun earlier later ↦ later.isOrder = true → earlier.isOrder = true :=
    List.pairwise_singleton _ _
  rw [and_iff_right hsingle]
  apply and_congr_right
  intro _
  constructor
  · intro h horder other hother
    exact h other.1 (List.mem_map_of_mem hother) link.1 (by simp) horder
  · intro h earlier hearlier later hlater horder
    obtain ⟨other, hother, rfl⟩ := List.mem_map.mp hearlier
    obtain rfl : later = link.1 := by simpa using hlater
    exact h horder other hother

/-- Tokens of comparisons that C has grouped. -/
inductive IsGrouped : List C.Token → Grouping → Prop
  | row {tokens : List C.Token} {tree : C.Tree} (h : C.Derives C.Level.relational tokens tree) :
    IsGrouped tokens ⟨none, tree⟩
  | equality {sign : Comparison} {front back : List C.Token} {left right : C.Tree}
    (hsign : sign.isOrder = false) (hfront : C.Derives C.Level.equality front left)
    (hback : C.Derives C.Level.relational back right) :
    IsGrouped (front ++ .mark sign.symbol :: back) ⟨some (sign, left), right⟩

theorem IsGrouped.derives {tokens : List C.Token} {grouping : Grouping}
    (h : IsGrouped tokens grouping) : C.Derives C.Level.equality tokens grouping.tree := by
  cases h with
  | row h => exact h.lower (by decide) (by decide)
  | equality hsign hfront hback =>
    have hlevel := C.binaryLevel?_equalitySigns _ (Comparison.symbol_mem_equalitySigns hsign)
    exact .binary hlevel hfront hback

theorem IsGrouped.add {tokens : List C.Token} {grouping : Grouping} (h : IsGrouped tokens grouping)
    (link : Comparison × Expression)
    (hitem : C.Derives C.Level.additive (Expression.cTokens link.2) (Expression.cTree link.2)) :
    IsGrouped (tokens ++ .mark link.1.symbol :: Expression.cTokens link.2) (grouping.add link) := by
  cases hsign : link.1.isOrder with
  | true =>
    have hlevel := C.binaryLevel?_orderSigns _ (Comparison.symbol_mem_orderSigns hsign)
    have hright : C.Derives (C.Level.relational + 1) (Expression.cTokens link.2)
        (Expression.cTree link.2) := hitem.lower (by decide) (by decide)
    rw [Grouping.add, if_pos hsign]
    cases h with
    | row h => exact .row (.binary hlevel h hright)
    | equality hother hfront hback =>
      rw [List.append_assoc]
      exact .equality hother hfront (.binary hlevel hback hright)
  | false =>
    rw [Grouping.add, if_neg (by simp [hsign])]
    exact .equality hsign h.derives (hitem.lower (by decide) (by decide))

theorem isGrouped_of (first : Expression) (links : List (Comparison × Expression))
    (hitem : ∀ expression ∈ (Chain.mk first links).items, C.Derives C.Level.additive
      (Expression.cTokens expression) (Expression.cTree expression)) :
    IsGrouped ((Chain.mk first links).cTokensBy (·.symbol) Expression.cTokens)
      (Grouping.of first links) := by
  induction links using List.reverseRecOn with
  | nil =>
    have hfirst : C.Derives C.Level.relational (Expression.cTokens first)
        (Expression.cTree first) :=
      (hitem first List.mem_cons_self).lower (by decide) (by decide)
    simpa [Chain.cTokensBy, Grouping.of] using IsGrouped.row hfirst
  | append_singleton links link ih =>
    have hlinks := ih fun expression hexpression ↦ hitem expression (by
      simp only [Chain.items, List.map_append, List.mem_cons, List.mem_append] at hexpression ⊢
      tauto)
    have hlink := hlinks.add link (hitem link.2 (by simp [Chain.items]))
    rw [Grouping.of_append_singleton]
    simpa [Chain.cTokensBy] using hlink

section

variable {condition : Condition}

theorem Condition.cDerives (h : condition.IsSpelled) (hnames : Unreserved condition.mentions) :
    C.Derives C.Level.expression condition.cTokens condition.cTree := by
  have hgrouped := isGrouped_of condition.chain.first condition.chain.rest fun expression hmem ↦
    Expression.cDerives (h expression hmem) (Chain.unreserved hnames expression hmem)
  exact hgrouped.derives.lower (by decide) (by decide)

theorem Condition.isComparing (condition : Condition) :
    ∀ token ∈ condition.cTokens, C.IsComparing token := by
  have hitem : ∀ (expression : Expression), ∀ token ∈ Expression.cTokens expression,
      C.IsComparing token :=
    fun expression token htoken ↦
      C.isComparing_of_isPlain (Expression.isPlain expression token htoken)
  intro token htoken
  rw [Condition.cTokens, Chain.cTokensBy, List.mem_append, List.mem_flatMap] at htoken
  rcases htoken with hfirst | ⟨link, _, hlink⟩
  · exact hitem _ token hfirst
  · rcases List.mem_cons.mp hlink with rfl | hlink
    · cases link.1 <;> decide
    · exact hitem _ token hlink

/-- C reads a condition as its tree and in no other way. -/
theorem Condition.cDerives_iff (h : condition.IsSpelled) (hnames : Unreserved condition.mentions)
    (tree : C.Tree) :
    C.Derives C.Level.expression condition.cTokens tree ↔ tree = condition.cTree := by
  have hderives := Condition.cDerives h hnames
  constructor
  · intro htree
    exact C.tree_eq_of_derives_comparing htree hderives condition.isComparing
  · intro htree
    rw [htree]
    exact hderives

end

theorem Grouping.equality_of_eq_none_iff (first : Expression)
    (links : List (Comparison × Expression)) :
    (Grouping.of first links).equality = none ↔ ∀ link ∈ links, link.1.isOrder = true := by
  induction links using List.reverseRecOn with
  | nil => simp [Grouping.of]
  | append_singleton links link ih =>
    rw [Grouping.of_append_singleton, Grouping.add]
    cases hsign : link.1.isOrder with
    | true =>
      rw [if_pos rfl, ih]
      simp [or_imp, forall_and, hsign]
    | false => simp [or_imp, forall_and, hsign]

theorem Grouping.isOrder_equality {first : Expression} {links : List (Comparison × Expression)}
    {sign : Comparison} {left : C.Tree}
    (h : (Grouping.of first links).equality = some (sign, left)) : sign.isOrder = false := by
  induction links using List.reverseRecOn with
  | nil => cases h
  | append_singleton links link ih =>
    rw [Grouping.of_append_singleton, Grouping.add] at h
    cases hsign : link.1.isOrder with
    | true =>
      rw [if_pos hsign] at h
      exact ih h
    | false =>
      rw [if_neg (by simp [hsign])] at h
      cases h
      exact hsign

theorem Grouping.tree_of_eq_iff (first : Expression) (links : List (Comparison × Expression)) :
    (Grouping.of first links).tree =
        (Chain.mk first links).cTreeBy (·.symbol) Expression.cTree ↔ OrdersFirst links := by
  induction links using List.reverseRecOn with
  | nil => simp [Grouping.of, Grouping.tree, Chain.cTreeBy, OrdersFirst]
  | append_singleton links link ih =>
    have hleft : (Chain.mk first (links ++ [link])).cTreeBy (·.symbol) Expression.cTree =
        .binary link.1.symbol ((Chain.mk first links).cTreeBy (·.symbol) Expression.cTree)
          (Expression.cTree link.2) := by
      simp [Chain.cTreeBy]
    have hnone := Grouping.equality_of_eq_none_iff first links
    rw [Grouping.of_append_singleton, ordersFirst_append_singleton, hleft, Grouping.add, ← ih]
    cases hsign : link.1.isOrder with
    | false => simp [Grouping.tree]
    | true =>
      cases hgrouping : Grouping.of first links with
      | mk equality row =>
        rw [hgrouping] at hnone
        cases equality with
        | none =>
          rw [and_iff_left fun _ ↦ hnone.mp rfl]
          simp [Grouping.tree]
        | some pair =>
          have hother := Grouping.isOrder_equality (congrArg Grouping.equality hgrouping)
          have hne := Comparison.symbol_ne hother hsign
          have hsome : ¬ ∀ other ∈ links, other.1.isOrder = true :=
            fun hall ↦ absurd (hnone.mpr hall) (by simp)
          simp only [Grouping.tree, if_pos, C.Tree.binary.injEq, hne, false_and, true_implies,
            hsome, and_false]

/-- C groups a condition from left to right exactly when no comparison of order stands behind one
for equality. -/
theorem Condition.cTree_eq_leftTree_iff (condition : Condition) :
    condition.cTree = condition.leftTree ↔ OrdersFirst condition.chain.rest :=
  Grouping.tree_of_eq_iff condition.chain.first condition.chain.rest

end Source

end TeenyBasic
