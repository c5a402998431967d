import TeenyBasic.Location
import TeenyBasic.Text.Quoted

/-!
# Tokens

The vocabulary of the language: eleven keywords, which are written in upper case only, five
operators, six comparisons, and the open classes of numbers, identifiers and strings. Line ends are
tokens because statements end with their line, and the end of the input is a token too.

Every kind has a tag, under which token listings show it, and a description, by which messages
refer to it.
-/

namespace TeenyBasic

/-- The keywords, named as they are spelled. -/
inductive Keyword where
  | LABEL | GOTO | PRINT | INPUT | LET | IF | THEN | ENDIF | WHILE | REPEAT | ENDWHILE
  deriving DecidableEq, Repr

/-- The spelling of a keyword. -/
def Keyword.spelling : Keyword → String
  | .LABEL => "LABEL"
  | .GOTO => "GOTO"
  | .PRINT => "PRINT"
  | .INPUT => "INPUT"
  | .LET => "LET"
  | .IF => "IF"
  | .THEN => "THEN"
  | .ENDIF => "ENDIF"
  | .WHILE => "WHILE"
  | .REPEAT => "REPEAT"
  | .ENDWHILE => "ENDWHILE"

/-- All keywords. -/
def Keyword.all : List Keyword :=
  [.LABEL, .GOTO, .PRINT, .INPUT, .LET, .IF, .THEN, .ENDIF, .WHILE, .REPEAT, .ENDWHILE]

/-- The keyword with a given spelling. -/
def Keyword.ofSpelling? (word : String) : Option Keyword :=
  Keyword.all.find? fun keyword ↦ keyword.spelling = word

theorem Keyword.ofSpelling?_eq_some_iff (word : String) (keyword : Keyword) :
    Keyword.ofSpelling? word = some keyword ↔ keyword.spelling = word := by
  constructor
  · intro h
    simpa using List.find?_some h
  · rintro rfl
    cases keyword <;> decide

/-- The operators that build expressions and assignments. -/
inductive Operator where
  | assign | plus | minus | times | divide
  deriving DecidableEq, Repr

/-- The spelling of an operator. -/
def Operator.symbol : Operator → String
  | .assign => "="
  | .plus => "+"
  | .minus => "-"
  | .times => "*"
  | .divide => "/"

/-- The comparisons. -/
inductive Comparison where
  | equal | notEqual | less | lessOrEqual | greater | greaterOrEqual
  deriving DecidableEq, Repr

/-- The spelling of a comparison. -/
def Comparison.symbol : Comparison → String
  | .equal => "=="
  | .notEqual => "!="
  | .less => "<"
  | .lessOrEqual => "<="
  | .greater => ">"
  | .greaterOrEqual => ">="

/-- The kinds of tokens. -/
inductive Kind where
  | endOfInput
  | newline
  | number
  | identifier
  | string
  | keyword (word : Keyword)
  | operator (sign : Operator)
  | comparison (sign : Comparison)
  deriving DecidableEq, Repr

instance : Inhabited Kind := ⟨.endOfInput⟩

namespace Kind

/-- All kinds. -/
def all : List Kind :=
  [.endOfInput, .newline, .number, .identifier, .string] ++ Keyword.all.map .keyword ++
    [.operator .assign, .operator .plus, .operator .minus, .operator .times, .operator .divide,
     .comparison .equal, .comparison .notEqual, .comparison .less, .comparison .lessOrEqual,
     .comparison .greater, .comparison .greaterOrEqual]

/-- The tag of a kind in token listings. -/
def tag : Kind → String
  | .endOfInput => "EOF"
  | .newline => "NEWLINE"
  | .number => "NUMBER"
  | .identifier => "IDENT"
  | .string => "STRING"
  | .keyword word => word.spelling
  | .operator .assign => "EQ"
  | .operator .plus => "PLUS"
  | .operator .minus => "MINUS"
  | .operator .times => "ASTERISK"
  | .operator .divide => "SLASH"
  | .comparison .equal => "EQEQ"
  | .comparison .notEqual => "NOTEQ"
  | .comparison .less => "LT"
  | .comparison .lessOrEqual => "LTEQ"
  | .comparison .greater => "GT"
  | .comparison .greaterOrEqual => "GTEQ"

/-- The kind with a given tag. -/
def ofTag? (name : String) : Option Kind :=
  all.find? fun kind ↦ kind.tag = name

theorem ofTag?_tag (kind : Kind) : ofTag? kind.tag = some kind := by
  cases kind with
  | keyword k => cases k <;> decide
  | operator o => cases o <;> decide
  | comparison c => cases c <;> decide
  | _ => decide

/-- The words by which messages refer to a kind. -/
def description : Kind → String
  | .endOfInput => "end of input"
  | .newline => "newline"
  | .number => "number"
  | .identifier => "identifier"
  | .string => "string"
  | .keyword word => s!"'{word.spelling}'"
  | .operator sign => s!"'{sign.symbol}'"
  | .comparison sign => s!"'{sign.symbol}'"

/-- Decides whether a kind is a comparison. -/
def isComparison : Kind → Bool
  | .comparison _ => true
  | _ => false

/-- Decides whether a kind is a sign or, between terms, an additive operator. -/
def isAdditive : Kind → Bool
  | .operator .plus | .operator .minus => true
  | _ => false

/-- Decides whether a kind is a multiplicative operator. -/
def isMultiplicative : Kind → Bool
  | .operator .times | .operator .divide => true
  | _ => false

end Kind

/-- A token: its kind, its spelling (that of a string is the text between the quotes), and the
place where it starts. -/
structure Token where
  kind : Kind
  spelling : String
  location : Location
  deriving DecidableEq, Repr, Inhabited

namespace Token

/-- The words by which messages refer to a token. -/
def description (token : Token) : String :=
  match token.kind with
  | .identifier | .number => s!"{token.kind.description} '{token.spelling}'"
  | .string => s!"string \"{token.spelling}\""
  | kind => kind.description

/-- The line of a token listing that shows a token. -/
def listing (token : Token) : String :=
  let place := s!"{token.location.line}:{token.location.column}"
  s!"Token({token.kind.tag}, {Text.quoted token.spelling}, {place})"

end Token

end TeenyBasic
