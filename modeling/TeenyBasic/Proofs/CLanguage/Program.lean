import Mathlib.Data.List.Chain
import TeenyBasic.Proofs.CLanguage.Expression
import TeenyBasic.Proofs.CLanguage.Literal

/-!
# Programs of C

The grammar of a program that consists of an include line and a main function. The body of the
function starts with declarations of variables, and statements follow: expressions, branches and
loops with a compound statement, jumps, returns and labels. A label always has a statement behind
it. Lines that end with a backslash, which C would join with the next one, are left out.

The main statement is `IsMain.isChain`: in such a program no label stands directly before a closing
brace.
-/

namespace TeenyBasic.C

mutual

/-- A statement. Branches and loops have a compound statement. -/
inductive IsStatement : List Token → Prop
  | expression {tokens : List Token} {tree : Tree} (h : Derives Level.expression tokens tree) :
    IsStatement (tokens ++ [.mark ";"])
  | empty : IsStatement [.mark ";"]
  | block {word : String} {test body : List Token} {tree : Tree} (hword : word ∈ ["if", "while"])
    (htest : Derives Level.expression test tree) (hbody : AreStatements body) :
    IsStatement (.word word :: .mark "(" ::
      (test ++ .mark ")" :: .mark "\x7b" :: (body ++ [.mark "\x7d"])))
  | jump {name : String} (hname : name ∉ keywords) :
    IsStatement [.word "goto", .word name, .mark ";"]
  | result {tokens : List Token} {tree : Tree} (h : Derives Level.expression tokens tree) :
    IsStatement (.word "return" :: (tokens ++ [.mark ";"]))
  | labelled {name : String} {tokens : List Token} (hname : name ∉ keywords)
    (h : IsStatement tokens) : IsStatement (.word name :: .mark ":" :: tokens)

/-- Statements in a row. -/
inductive AreStatements : List Token → Prop
  | nil : AreStatements []
  | cons {front back : List Token} (hfront : IsStatement front) (hback : AreStatements back) :
    AreStatements (front ++ back)

end

theorem AreStatements.label {name : String} {tokens : List Token} (h : AreStatements tokens)
    (hname : name ∉ keywords) (hne : tokens ≠ []) :
    AreStatements (.word name :: .mark ":" :: tokens) := by
  cases h with
  | nil => exact absurd rfl hne
  | cons hfront hback => exact .cons (.labelled hname hfront) hback

/-- Declarations of variables. -/
inductive AreDeclarations : List Token → Prop
  | nil : AreDeclarations []
  | cons {name : String} {rest : List Token} (hname : name ∉ keywords)
    (hrest : AreDeclarations rest) :
    AreDeclarations (.word "float" :: .word name :: .mark ";" :: rest)

/-- The head of the main function, with the brace that opens its body. -/
def mainHead : List Token :=
  [.word "int", .word "main", .mark "(", .word "int", .word "argc", .mark ",", .word "char",
   .mark "*", .word "argv", .mark "[", .mark "]", .mark ")", .mark "\x7b"]

def IsMain (tokens : List Token) : Prop :=
  ∃ declarations statements, tokens = mainHead ++ declarations ++ statements ++ [.mark "\x7d"] ∧
    AreDeclarations declarations ∧ AreStatements statements

/-- A line that includes a header. -/
def IsIncludeLine (line : List Char) : Prop :=
  ∃ header, line = "#include <".toList ++ (header ++ ['>']) ∧ header ≠ [] ∧
    ∀ c ∈ header, c ≠ '>' ∧ c ≠ '\n'

/-- A program: an include line and the main function. -/
def IsProgram (text : List Char) : Prop :=
  IsIncludeLine ((withoutTrigraphs text).takeWhile (· ≠ '\n')) ∧
    ∃ tokens, split ((withoutTrigraphs text).dropWhile (· ≠ '\n')) = some tokens ∧ IsMain tokens

/-- Two tokens that may stand next to each other, as far as labels go. -/
def MayFollow (first second : Token) : Prop :=
  ¬ (first = .mark ":" ∧ second = .mark "\x7d")

/-- Tokens that start with no closing brace, hold no label before one and end with no label. -/
structure Guarded (tokens : List Token) : Prop where
  chain : tokens.IsChain MayFollow
  head : .mark "\x7d" ∉ tokens.head?
  last : .mark ":" ∉ tokens.getLast?

theorem guarded_nil : Guarded [] where
  chain := List.isChain_nil
  head := by simp
  last := by simp

theorem Guarded.append {a b : List Token} (ha : Guarded a) (hb : Guarded b) : Guarded (a ++ b) where
  chain := by
    rw [List.isChain_append]
    have hjoint : ∀ x ∈ a.getLast?, ∀ y ∈ b.head?, MayFollow x y := by
      rintro x hx y _ ⟨rfl, _⟩
      exact ha.last hx
    exact ⟨ha.chain, hb.chain, hjoint⟩
  head := by
    cases a with
    | nil => exact hb.head
    | cons token a => exact ha.head
  last := by
    rw [List.getLast?_append]
    cases hlast : b.getLast? with
    | none => simpa using ha.last
    | some token =>
      have htoken := hb.last
      rw [hlast] at htoken
      simpa using htoken

theorem guarded_of_forall_ne {tokens : List Token}
    (h : ∀ token ∈ tokens, token ≠ .mark ":" ∧ token ≠ .mark "\x7d") : Guarded tokens where
  chain := by
    apply List.Pairwise.isChain
    rw [List.pairwise_iff_forall_sublist]
    rintro a b hsub ⟨rfl, _⟩
    exact (h _ (hsub.subset List.mem_cons_self)).1 rfl
  head := fun hmem ↦ (h _ (List.mem_of_mem_head? hmem)).2 rfl
  last := fun hmem ↦ (h _ (List.mem_of_mem_getLast? hmem)).1 rfl

theorem guarded_word (word : String) : Guarded [.word word] :=
  guarded_of_forall_ne (by simp)

theorem guarded_mark (mark : String) (hcolon : mark ≠ ":") (hbrace : mark ≠ "\x7d") :
    Guarded [.mark mark] :=
  guarded_of_forall_ne (by simp [hcolon, hbrace])

theorem Guarded.close {tokens : List Token} (h : Guarded tokens) (hne : tokens ≠ []) :
    Guarded (tokens ++ [.mark "\x7d"]) where
  chain := by
    rw [List.isChain_append]
    have hjoint : ∀ x ∈ tokens.getLast?, ∀ y ∈ [Token.mark "\x7d"].head?, MayFollow x y := by
      rintro x hx y _ ⟨rfl, _⟩
      exact h.last hx
    exact ⟨h.chain, List.isChain_singleton _, hjoint⟩
  head := by
    obtain ⟨token, rest, rfl⟩ := List.exists_cons_of_ne_nil hne
    exact h.head
  last := by simp

theorem Derives.forall_ne {level : Nat} {tokens : List Token} {tree : Tree}
    (h : Derives level tokens tree) :
    ∀ token ∈ tokens, token ≠ .mark ":" ∧ token ≠ .mark "\x7d" := by
  have hbinary : ∀ {operator : String} {level : Nat}, binaryLevel? operator = some level →
      operator ≠ ":" ∧ operator ≠ "\x7d" := by
    intro operator level hlevel
    constructor <;> rintro rfl <;> cases hlevel
  have hunary : ∀ operator ∈ unaryOperators, operator ≠ ":" ∧ operator ≠ "\x7d" := by
    decide
  induction h with
  | higher _ _ ih => exact ih
  | binary hoperator _ _ ihleft ihright =>
    have hmark := hbinary hoperator
    intro token htoken
    rcases List.mem_append.mp htoken with htoken | htoken
    · exact ihleft token htoken
    · rcases List.mem_cons.mp htoken with rfl | htoken
      · simpa using hmark
      · exact ihright token htoken
  | assign _ _ ihtarget ihvalue =>
    intro token htoken
    rcases List.mem_append.mp htoken with htoken | htoken
    · exact ihtarget token htoken
    · rcases List.mem_cons.mp htoken with rfl | htoken
      · decide
      · exact ihvalue token htoken
  | cast _ _ ih =>
    intro token htoken
    simp only [List.mem_cons] at htoken
    rcases htoken with rfl | rfl | rfl | htoken
    · decide
    · simp
    · decide
    · exact ih token htoken
  | unary hoperator _ ih =>
    have hmark := hunary _ hoperator
    intro token htoken
    rcases List.mem_cons.mp htoken with rfl | htoken
    · simpa using hmark
    · exact ih token htoken
  | call _ _ ihfunction ihargument =>
    intro token htoken
    simp only [List.mem_append, List.mem_cons, List.not_mem_nil, or_false] at htoken
    rcases htoken with htoken | rfl | htoken | rfl
    · exact ihfunction token htoken
    · decide
    · exact ihargument token htoken
    · decide
  | named _ => simp
  | constant _ => simp
  | text => simp
  | parenthesised _ ih =>
    intro token htoken
    simp only [List.mem_append, List.mem_cons, List.not_mem_nil, or_false] at htoken
    rcases htoken with rfl | htoken | rfl
    · decide
    · exact ih token htoken
    · decide

theorem Derives.guarded {level : Nat} {tokens : List Token} {tree : Tree}
    (h : Derives level tokens tree) : Guarded tokens :=
  guarded_of_forall_ne h.forall_ne

theorem Guarded.label {tokens : List Token} (h : Guarded tokens) (hne : tokens ≠ [])
    (name : String) : Guarded (.word name :: .mark ":" :: tokens) where
  chain := by
    have hfirst : ∀ token ∈ tokens.head?, MayFollow (.mark ":") token := by
      rintro token htoken ⟨_, rfl⟩
      exact h.head htoken
    rw [List.isChain_cons_cons, List.isChain_cons]
    exact ⟨by simp [MayFollow], hfirst, h.chain⟩
  head := by simp
  last := by
    obtain ⟨token, rest, rfl⟩ := List.exists_cons_of_ne_nil hne
    exact h.last

mutual

/-- A statement holds no label before a closing brace. -/
theorem IsStatement.guarded : {tokens : List Token} → IsStatement tokens →
    Guarded tokens ∧ tokens ≠ []
  | _, .expression h =>
    ⟨h.guarded.append (guarded_mark ";" (by decide) (by decide)), by simp⟩
  | _, .empty => ⟨guarded_mark ";" (by decide) (by decide), by simp⟩
  | _, @IsStatement.block word _ _ _ _ htest hbody => by
    have hhead := (guarded_word word).append (guarded_mark "(" (by decide) (by decide))
    have hbrace := (guarded_mark ")" (by decide) (by decide)).append
      (guarded_mark "\x7b" (by decide) (by decide))
    have hall := (hhead.append (htest.guarded.append (hbrace.append hbody.guarded))).close (by simp)
    constructor
    · simpa using hall
    · simp
  | _, @IsStatement.jump name _ =>
    ⟨((guarded_word "goto").append (guarded_word name)).append
      (guarded_mark ";" (by decide) (by decide)), by simp⟩
  | _, .result h =>
    ⟨(guarded_word "return").append (h.guarded.append (guarded_mark ";" (by decide) (by decide))),
      by simp⟩
  | _, @IsStatement.labelled name _ _ h => ⟨h.guarded.1.label h.guarded.2 name, by simp⟩

theorem AreStatements.guarded : {tokens : List Token} → AreStatements tokens → Guarded tokens
  | _, .nil => guarded_nil
  | _, .cons hfront hback => hfront.guarded.1.append hback.guarded

end

theorem AreDeclarations.guarded {tokens : List Token} (h : AreDeclarations tokens) :
    Guarded tokens := by
  induction h with
  | nil => exact guarded_nil
  | @cons name rest _ _ ih =>
    have hdeclaration : Guarded [.word "float", .word name, .mark ";"] :=
      guarded_of_forall_ne (by simp)
    exact hdeclaration.append ih

/-- In the main function no label stands directly before a closing brace. -/
theorem IsMain.isChain {tokens : List Token} (h : IsMain tokens) : tokens.IsChain MayFollow := by
  obtain ⟨declarations, statements, rfl, hdeclarations, hstatements⟩ := h
  have hhead : Guarded mainHead := guarded_of_forall_ne (by decide)
  exact (((hhead.append hdeclarations.guarded).append hstatements.guarded).close
    (by simp [mainHead])).chain

end TeenyBasic.C
