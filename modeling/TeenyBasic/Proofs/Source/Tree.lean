import TeenyBasic.Location
import TeenyBasic.Numeral
import TeenyBasic.Token

/-!
# Source programs as trees

A program is a list of statements, and a statement may hold a block of further statements.
Expressions are chains: terms joined by signs, and within a term signed primaries joined by
multiplications and divisions. A condition is a chain of at least two expressions joined by
comparisons. Names keep the place where they are written.

A tree determines the C text that stands for it, line by line, and the list of all places where it
mentions a name, from left to right. Both are defined by recursion on the tree.
-/

namespace TeenyBasic.Source

/-- A name and the place where it is written. -/
structure Name where
  spelling : String
  location : Location
  deriving DecidableEq, Repr

/-- The two signs, which also join terms. -/
inductive Sign where
  | plus | minus
  deriving DecidableEq, Repr

def Sign.operator : Sign → Operator
  | .plus => .plus
  | .minus => .minus

/-- The two operators that join the factors of a term. -/
inductive Scaling where
  | times | divide
  deriving DecidableEq, Repr

def Scaling.operator : Scaling → Operator
  | .times => .times
  | .divide => .divide

/-- A number as it is spelled, or the name of a variable. -/
inductive Primary where
  | number (spelling : String)
  | named (name : Name)
  deriving DecidableEq, Repr

/-- A primary with at most one sign before it. -/
structure Signed where
  sign : Option Sign
  primary : Primary
  deriving DecidableEq, Repr

/-- Items joined by operators. -/
structure Chain (ω α : Type) where
  first : α
  rest : List (ω × α)
  deriving DecidableEq, Repr

/-- Signed primaries joined by multiplications and divisions. -/
abbrev Term := Chain Scaling Signed

/-- Terms joined by additions and subtractions. -/
abbrev Expression := Chain Sign Term

/-- Expressions joined by at least one comparison. -/
structure Condition where
  chain : Chain Comparison Expression
  compares : chain.rest ≠ []
  deriving DecidableEq, Repr

/-- The two forms of a block: one that runs at most once and one that is repeated. -/
inductive BlockForm where
  | conditional | loop
  deriving DecidableEq, Repr

namespace BlockForm

/-- The keyword before the condition of a block. -/
def opening : BlockForm → Keyword
  | .conditional => .IF
  | .loop => .WHILE

/-- The keyword behind the condition of a block. -/
def middle : BlockForm → Keyword
  | .conditional => .THEN
  | .loop => .REPEAT

/-- The keyword that ends a block. -/
def closing : BlockForm → Keyword
  | .conditional => .ENDIF
  | .loop => .ENDWHILE

/-- The word of C before the condition of a block. -/
def word : BlockForm → String
  | .conditional => "if"
  | .loop => "while"

end BlockForm

/-- A statement. -/
inductive Statement where
  | printText (text : String)
  | print (value : Expression)
  | block (form : BlockForm) (condition : Condition) (body : List Statement)
  | label (name : Name)
  | jump (target : Name)
  | assign (target : Name) (value : Expression)
  | input (target : Name)

abbrev Program := List Statement

mutual

/-- The number of blocks around the innermost statement of a statement. -/
def Statement.depth : Statement → Nat
  | .block _ _ body => Program.depth body + 1
  | _ => 0

def Program.depth : Program → Nat
  | [] => 0
  | statement :: rest => max statement.depth (Program.depth rest)

end

/-- What a name is mentioned for: to give a variable a value, to read it, to declare a label or to
jump to it. -/
inductive Role where
  | target | reading | label | jump
  deriving DecidableEq, Repr

/-- A name and what it is mentioned for. -/
structure Mention where
  role : Role
  name : Name
  deriving DecidableEq, Repr

/-- The mentions in a chain. -/
def Chain.mentionsBy {ω α : Type} (item : α → List Mention) (chain : Chain ω α) : List Mention :=
  item chain.first ++ chain.rest.flatMap fun link ↦ item link.2

def Primary.mentions : Primary → List Mention
  | .number _ => []
  | .named name => [⟨.reading, name⟩]

def Signed.mentions (signed : Signed) : List Mention :=
  signed.primary.mentions

def Term.mentions (term : Term) : List Mention :=
  term.mentionsBy Signed.mentions

def Expression.mentions (expression : Expression) : List Mention :=
  expression.mentionsBy Term.mentions

def Condition.mentions (condition : Condition) : List Mention :=
  condition.chain.mentionsBy Expression.mentions

mutual

/-- The mentions in a statement, from left to right. -/
def Statement.mentions : Statement → List Mention
  | .printText _ => []
  | .print value => Expression.mentions value
  | .block _ condition body => condition.mentions ++ Program.mentions body
  | .label name => [⟨.label, name⟩]
  | .jump target => [⟨.jump, target⟩]
  | .assign target value => ⟨.target, target⟩ :: Expression.mentions value
  | .input target => [⟨.target, target⟩]

def Program.mentions : Program → List Mention
  | [] => []
  | statement :: rest => statement.mentions ++ Program.mentions rest

end

/-- The names mentioned in a role, in the order of the mentions. -/
def namesInRole (role : Role) (mentions : List Mention) : List String :=
  (mentions.filter (·.role = role)).map (·.name.spelling)

@[simp] theorem namesInRole_nil (role : Role) : namesInRole role [] = [] := rfl

theorem namesInRole_append (role : Role) (a b : List Mention) :
    namesInRole role (a ++ b) = namesInRole role a ++ namesInRole role b := by
  simp [namesInRole]

/-- The variables of a program, in the order in which a statement first gives them a value. -/
def Program.variableNames (program : Program) : List String :=
  (namesInRole .target program.mentions).eraseDups

/-- The names of all label statements of a program, in order. -/
def Program.labelNames (program : Program) : List String :=
  namesInRole .label program.mentions

def Primary.text : Primary → String
  | .number spelling => Numeral.decimal spelling
  | .named name => name.spelling

def Signed.text : Signed → String
  | ⟨none, primary⟩ => primary.text
  | ⟨some sign, primary⟩ => sign.operator.symbol ++ primary.text

/-- The text of a chain, given the text of an operator before an item. -/
def Chain.textBy {ω α : Type} (item : α → String) (operator : ω → α → String)
    (chain : Chain ω α) : String :=
  item chain.first ++ String.join (chain.rest.map fun link ↦ operator link.1 link.2 ++ item link.2)

def Term.text (term : Term) : String :=
  term.textBy Signed.text fun scaling _ ↦ scaling.operator.symbol

/-- A sign between two terms; a space keeps it apart from an equal sign that the second term starts
with. -/
def Sign.textBefore (sign : Sign) (term : Term) : String :=
  sign.operator.symbol ++ if term.first.sign = some sign then " " else ""

def Expression.text (expression : Expression) : String :=
  expression.textBy Term.text Sign.textBefore

def Condition.text (condition : Condition) : String :=
  condition.chain.textBy Expression.text fun comparison _ ↦ comparison.symbol

mutual

/-- The lines of C that stand for a statement, given the format in which numbers are printed. -/
def Statement.lines (format : String) : Statement → List String
  | .printText text => [s!"printf(\"{text}\\n\");"]
  | .print value => [s!"printf(\"{format}\\n\", (float)({Expression.text value}));"]
  | .block form condition body =>
    s!"{form.word} ({condition.text}) \x7b" :: Program.lines format body ++ ["\x7d"]
  | .label name => [s!"{name.spelling}:"]
  | .jump target => [s!"goto {target.spelling};"]
  | .assign target value => [s!"{target.spelling} = {Expression.text value};"]
  | .input target =>
    [s!"if (0 == scanf(\"%f\", &{target.spelling})) \x7b", s!"{target.spelling} = 0;",
     "scanf(\"%*s\");", "\x7d"]

def Program.lines (format : String) : Program → List String
  | [] => []
  | statement :: rest => statement.lines format ++ Program.lines format rest

end

/-- The line that declares a variable. -/
def declarationLine (name : String) : String :=
  s!"float {name};"

/-- Lines as a text in which every line is closed by a line feed. -/
def closedLines (lines : List String) : String :=
  String.join (lines.map (· ++ "\n"))

@[simp] theorem closedLines_nil : closedLines [] = "" := by
  simp [closedLines]

@[simp] theorem closedLines_cons (line : String) (lines : List String) :
    closedLines (line :: lines) = line ++ "\n" ++ closedLines lines := by
  simp [closedLines]

@[simp] theorem closedLines_append (a b : List String) :
    closedLines (a ++ b) = closedLines a ++ closedLines b := by
  simp [closedLines]

end TeenyBasic.Source
