import TeenyBasic.Proofs.CLanguage.Constant

/-!
# Expressions of C

The grammar of expressions, by levels of precedence. Each level holds the phrases of the next one,
and a level of binary operators joins a phrase of its own on the left to a phrase of the next level
on the right, so that operators of equal precedence group from left to right. Conditional
expressions, compound assignments and the less common suffixes are left out.

The main statement is `tree_eq_of_derives`: tokens that are only words, numbers and the four
arithmetic operators have at most one tree.
-/

namespace TeenyBasic.C

/-- An expression. Arguments of a call are joined by the comma as a binary operator. -/
inductive Tree where
  | named (name : String)
  | constant (spelling : String)
  | text (body : String)
  | unary (operator : String) (operand : Tree)
  | binary (operator : String) (left right : Tree)
  | assign (target value : Tree)
  | cast (type : String) (operand : Tree)
  | call (function arguments : Tree)
  deriving DecidableEq, Repr

/-- The keywords of C. -/
def keywords : List String :=
  ["auto", "break", "case", "char", "const", "continue", "default", "do", "double", "else", "enum",
   "extern", "float", "for", "goto", "if", "inline", "int", "long", "register", "restrict",
   "return", "short", "signed", "sizeof", "static", "struct", "switch", "typedef", "union",
   "unsigned", "void", "volatile", "while", "_Bool", "_Complex", "_Imaginary"]

/-- The keywords that name an arithmetic type on their own. -/
def typeNames : List String :=
  ["char", "short", "int", "long", "float", "double", "signed", "unsigned", "_Bool"]

/-- The operators that stand before their operand. -/
def unaryOperators : List String := ["&", "*", "+", "-", "~", "!"]

/-- The level of a binary operator, from the loosest to the tightest. -/
def binaryLevel? : String → Option Nat
  | "," => some 0
  | "||" => some 2
  | "&&" => some 3
  | "|" => some 4
  | "^" => some 5
  | "&" => some 6
  | "==" | "!=" => some 7
  | "<" | ">" | "<=" | ">=" => some 8
  | "<<" | ">>" => some 9
  | "+" | "-" => some 10
  | "*" | "/" | "%" => some 11
  | _ => none

namespace Level

abbrev expression : Nat := 0

abbrev assignment : Nat := 1

/-- Comparisons for equality. -/
abbrev equality : Nat := 7

/-- Comparisons of order, which bind tighter than those for equality. -/
abbrev relational : Nat := 8

abbrev additive : Nat := 10

abbrev multiplicative : Nat := 11

/-- Operands with a type in parentheses before them. -/
abbrev cast : Nat := 12

/-- Operands with an operator before them. -/
abbrev unary : Nat := 13

/-- Operands with arguments behind them. -/
abbrev suffixed : Nat := 14

/-- Single tokens and parenthesised expressions. -/
abbrev primary : Nat := 15

end Level

/-- The tokens of a level and the tree they stand for. -/
inductive Derives : Nat → List Token → Tree → Prop
  | higher {level : Nat} {tokens : List Token} {tree : Tree} (hlevel : level < Level.primary)
    (h : Derives (level + 1) tokens tree) : Derives level tokens tree
  | binary {level : Nat} {operator : String} {front back : List Token} {left right : Tree}
    (hoperator : binaryLevel? operator = some level) (hleft : Derives level front left)
    (hright : Derives (level + 1) back right) :
    Derives level (front ++ .mark operator :: back) (.binary operator left right)
  | assign {front back : List Token} {target value : Tree}
    (htarget : Derives Level.unary front target) (hvalue : Derives Level.assignment back value) :
    Derives Level.assignment (front ++ .mark "=" :: back) (.assign target value)
  | cast {type : String} {tokens : List Token} {operand : Tree} (htype : type ∈ typeNames)
    (h : Derives Level.cast tokens operand) :
    Derives Level.cast (.mark "(" :: .word type :: .mark ")" :: tokens) (.cast type operand)
  | unary {operator : String} {tokens : List Token} {operand : Tree}
    (hoperator : operator ∈ unaryOperators) (h : Derives Level.cast tokens operand) :
    Derives Level.unary (.mark operator :: tokens) (.unary operator operand)
  | call {front arguments : List Token} {function argument : Tree}
    (hfunction : Derives Level.suffixed front function)
    (hargument : Derives Level.expression arguments argument) :
    Derives Level.suffixed (front ++ .mark "(" :: (arguments ++ [.mark ")"]))
      (.call function argument)
  | named {name : String} (hname : name ∉ keywords) :
    Derives Level.primary [.word name] (.named name)
  | constant {spelling : String} (hkind : (constantKind? spelling.toList).isSome = true) :
    Derives Level.primary [.number spelling] (.constant spelling)
  | text {body : String} :
    Derives Level.primary [.literal false Text.Quoted.doubleQuote body] (.text body)
  | parenthesised {tokens : List Token} {tree : Tree} (h : Derives Level.expression tokens tree) :
    Derives Level.primary (.mark "(" :: (tokens ++ [.mark ")"])) tree

theorem Derives.lower {level level' : Nat} {tokens : List Token} {tree : Tree}
    (h : Derives level tokens tree) (hle : level' ≤ level) (hprimary : level ≤ Level.primary) :
    Derives level' tokens tree := by
  obtain ⟨difference, hlevel⟩ := Nat.exists_eq_add_of_le hle
  induction difference generalizing level' with
  | zero =>
    rw [hlevel] at h
    exact h
  | succ difference ih =>
    have hnext : Derives (level' + 1) tokens tree := ih (by omega) (by omega)
    exact Derives.higher (by omega) hnext

/-- The tokens of arithmetic without parentheses. -/
def IsPlain : Token → Prop
  | .word _ | .number _ => True
  | .literal _ _ _ => False
  | .mark symbol => symbol ∈ ["+", "-", "*", "/"]

instance : DecidablePred IsPlain
  | .word _ | .number _ => .isTrue trivial
  | .literal _ _ _ => .isFalse id
  | .mark symbol => inferInstanceAs (Decidable (symbol ∈ ["+", "-", "*", "/"]))

/-- How far plain tokens have been read: what the next term and the next factor become part of, the
signs before the next factor, and the factor that has just been read. -/
structure Progress where
  sum : Tree → Tree
  term : Tree → Tree
  signs : Tree → Tree
  factor : Option Tree

def Progress.start : Progress := ⟨id, id, id, none⟩

/-- Reads one more token. Behind a factor an operator is binary, elsewhere it is a sign. -/
def Progress.step (progress : Progress) : Token → Progress
  | .word name => { progress with factor := some (progress.signs (.named name)), signs := id }
  | .number spelling =>
    { progress with factor := some (progress.signs (.constant spelling)), signs := id }
  | .literal _ _ body =>
    { progress with factor := some (progress.signs (.text body)), signs := id }
  | .mark symbol =>
    match progress.factor with
    | none => { progress with signs := fun tree ↦ progress.signs (.unary symbol tree) }
    | some factor =>
      if symbol = "*" ∨ symbol = "/" then
        { progress with term := .binary symbol (progress.term factor), factor := none }
      else
        { progress with
          sum := .binary symbol (progress.sum (progress.term factor)), term := id, factor := none }

def Progress.run (progress : Progress) (tokens : List Token) : Progress :=
  tokens.foldl Progress.step progress

theorem Progress.run_append (progress : Progress) (a b : List Token) :
    progress.run (a ++ b) = (progress.run a).run b :=
  List.foldl_append

theorem Progress.run_cons (progress : Progress) (token : Token) (tokens : List Token) :
    progress.run (token :: tokens) = (progress.step token).run tokens := rfl

theorem binaryLevel?_of_isPlain {operator : String} {level : Nat} (h : IsPlain (.mark operator))
    (hlevel : binaryLevel? operator = some level) :
    (level = Level.additive ∧ ¬ (operator = "*" ∨ operator = "/")) ∨
      (level = Level.multiplicative ∧ (operator = "*" ∨ operator = "/")) := by
  simp only [IsPlain, List.mem_cons, List.not_mem_nil, or_false] at h
  rcases h with rfl | rfl | rfl | rfl
  · left
    exact ⟨(Option.some.inj hlevel).symm, by decide⟩
  · left
    exact ⟨(Option.some.inj hlevel).symm, by decide⟩
  · right
    exact ⟨(Option.some.inj hlevel).symm, by decide⟩
  · right
    exact ⟨(Option.some.inj hlevel).symm, by decide⟩

/-- Reading a phrase from the level of casts on gives one factor, with the signs before it. -/
theorem run_factor {level : Nat} {tokens : List Token} {tree : Tree}
    (h : Derives level tokens tree) (hlevel : Level.cast ≤ level)
    (hplain : ∀ token ∈ tokens, IsPlain token) {progress : Progress}
    (hstart : progress.factor = none) :
    progress.run tokens = { progress with factor := some (progress.signs tree), signs := id } := by
  induction h generalizing progress with
  | higher _ _ ih => exact ih (by omega) hplain hstart
  | @binary level operator front back left right hoperator _ _ _ _ =>
    have hmark := hplain (.mark operator) (by simp)
    rcases binaryLevel?_of_isPlain hmark hoperator with ⟨rfl, _⟩ | ⟨rfl, _⟩ <;>
      exact absurd hlevel (by decide)
  | assign _ _ _ _ => exact absurd hlevel (by decide)
  | cast _ _ _ =>
    have hmark := hplain (.mark "(") (by simp)
    exact absurd hmark (by simp [IsPlain])
  | @unary operator tokens operand _ _ ih =>
    have hrest : ∀ token ∈ tokens, IsPlain token :=
      fun token htoken ↦ hplain token (List.mem_cons_of_mem _ htoken)
    have hstep : progress.step (.mark operator) =
        { progress with signs := fun tree ↦ progress.signs (.unary operator tree) } := by
      simp only [Progress.step, hstart]
    rw [Progress.run_cons, hstep]
    exact ih (by decide) hrest hstart
  | call _ _ _ _ =>
    have hmark := hplain (.mark "(") (by simp)
    exact absurd hmark (by simp [IsPlain])
  | named _ => rfl
  | constant _ => rfl
  | text => rfl
  | parenthesised _ _ =>
    have hmark := hplain (.mark "(") (by simp)
    exact absurd hmark (by simp [IsPlain])

/-- Reading a phrase from the level of products on leaves what it is part of unchanged. -/
theorem run_term {level : Nat} {tokens : List Token} {tree : Tree}
    (h : Derives level tokens tree) (hlevel : Level.multiplicative ≤ level)
    (hplain : ∀ token ∈ tokens, IsPlain token) (sum : Tree → Tree) :
    ∃ term factor, (Progress.mk sum id id none).run tokens = ⟨sum, term, id, some factor⟩ ∧
      term factor = tree := by
  rcases Nat.lt_or_ge level Level.cast with hlow | hhigh
  · induction h with
    | @higher level tokens tree _ h ih =>
      rcases Nat.lt_or_ge (level + 1) Level.cast with hlow' | hhigh
      · exact ih (by omega) hplain hlow'
      · exact ⟨id, tree, run_factor h hhigh hplain rfl, rfl⟩
    | @binary level operator front back left right hoperator _ hright ih _ =>
      have hmark := hplain (.mark operator) (by simp)
      rcases binaryLevel?_of_isPlain hmark hoperator with ⟨rfl, _⟩ | ⟨rfl, htimes⟩
      · exact absurd hlevel (by decide)
      have hfront : ∀ token ∈ front, IsPlain token := fun token ht ↦ hplain token (by simp [ht])
      have hback : ∀ token ∈ back, IsPlain token := fun token ht ↦ hplain token (by simp [ht])
      obtain ⟨term, factor, hrun, hterm⟩ := ih hlevel hfront hlow
      have hstep : (Progress.mk sum term id (some factor)).step (.mark operator) =
          ⟨sum, .binary operator left, id, none⟩ := by
        simp only [Progress.step, if_pos htimes, hterm]
      have hrest : (Progress.mk sum (.binary operator left) id none).run back =
          ⟨sum, .binary operator left, id, some right⟩ := run_factor hright (by decide) hback rfl
      refine ⟨.binary operator left, right, ?_, rfl⟩
      calc
        _ = ((Progress.mk sum term id (some factor)).step (.mark operator)).run back := by
          rw [Progress.run_append, hrun, Progress.run_cons]
        _ = (Progress.mk sum (.binary operator left) id none).run back := by rw [hstep]
        _ = _ := hrest
    | assign _ _ _ _ => exact absurd hlevel (by decide)
    | cast _ _ _ | unary _ _ _ | call _ _ _ _ | named _ | constant _ | text | parenthesised _ _ =>
      exact absurd hlow (by decide)
  · exact ⟨id, tree, run_factor h hhigh hplain rfl, rfl⟩

theorem run_sum {level : Nat} {tokens : List Token} {tree : Tree} (h : Derives level tokens tree)
    (hplain : ∀ token ∈ tokens, IsPlain token) :
    ∃ sum term factor, Progress.start.run tokens = ⟨sum, term, id, some factor⟩ ∧
      sum (term factor) = tree := by
  have hterm : ∀ {level tokens tree}, Derives level tokens tree → Level.multiplicative ≤ level →
      (∀ token ∈ tokens, IsPlain token) → ∃ sum term factor,
        Progress.start.run tokens = ⟨sum, term, id, some factor⟩ ∧ sum (term factor) = tree := by
    intro level tokens tree h hlevel hplain
    obtain ⟨term, factor, hrun, rfl⟩ := run_term h hlevel hplain id
    exact ⟨id, term, factor, hrun, rfl⟩
  induction h with
  | higher _ _ ih => exact ih hplain
  | @binary level operator front back left right hoperator hleft hright ih _ =>
    have hmark := hplain (.mark operator) (by simp)
    rcases binaryLevel?_of_isPlain hmark hoperator with ⟨rfl, hplus⟩ | ⟨rfl, _⟩
    · have hfront : ∀ token ∈ front, IsPlain token := fun token ht ↦ hplain token (by simp [ht])
      have hback : ∀ token ∈ back, IsPlain token := fun token ht ↦ hplain token (by simp [ht])
      obtain ⟨sum, term, factor, hrun, hsum⟩ := ih hfront
      have hstep : (Progress.mk sum term id (some factor)).step (.mark operator) =
          ⟨.binary operator left, id, id, none⟩ := by
        simp only [Progress.step, if_neg hplus, hsum]
      obtain ⟨term', factor', hrun', hterm'⟩ :=
        run_term hright (by decide) hback (.binary operator left)
      refine ⟨.binary operator left, term', factor', ?_, by rw [hterm']⟩
      calc
        _ = ((Progress.mk sum term id (some factor)).step (.mark operator)).run back := by
          rw [Progress.run_append, hrun, Progress.run_cons]
        _ = (Progress.mk (.binary operator left) id id none).run back := by rw [hstep]
        _ = _ := hrun'
    · exact hterm (.binary hoperator hleft hright) (by decide) hplain
  | assign _ _ _ _ =>
    have hmark := hplain (.mark "=") (by simp)
    exact absurd hmark (by simp [IsPlain])
  | cast htype h _ => exact hterm (.cast htype h) (by decide) hplain
  | unary hoperator h _ => exact hterm (.unary hoperator h) (by decide) hplain
  | call hfunction hargument _ _ => exact hterm (.call hfunction hargument) (by decide) hplain
  | named hname => exact hterm (.named hname) (by decide) hplain
  | constant hkind => exact hterm (.constant hkind) (by decide) hplain
  | text => exact hterm .text (by decide) hplain
  | parenthesised h _ => exact hterm (.parenthesised h) (by decide) hplain

/-- Plain tokens stand for at most one tree, on whatever levels. -/
theorem tree_eq_of_derives {level level' : Nat} {tokens : List Token} {tree tree' : Tree}
    (h : Derives level tokens tree) (h' : Derives level' tokens tree')
    (hplain : ∀ token ∈ tokens, IsPlain token) : tree = tree' := by
  obtain ⟨sum, term, factor, hrun, rfl⟩ := run_sum h hplain
  obtain ⟨sum', term', factor', hrun', rfl⟩ := run_sum h' hplain
  rw [hrun] at hrun'
  cases hrun'
  rfl

end TeenyBasic.C
