import TeenyBasic.Diagnostic
import TeenyBasic.Token

/-!
# Lexemes

What stands at the front of a text. Before a lexeme there may be a gap: blanks, and then a comment
that runs up to the end of its line. The lexeme itself is the longest one that starts there; its
reading gives the kind of token, the spelling and the number of characters it takes up. Where no
lexeme can be read, the reading names the cause and how far the text was acceptable.

The main facts are that a reading never reaches beyond the text, and that every lexeme but the end
of the input takes up at least one character.
-/

namespace TeenyBasic.Lexeme

/-- Decides whether a character is a blank: a space, a tab or a carriage return. -/
def isBlank (c : Char) : Bool :=
  c = ' ' || c = '\t' || c = '\r'

/-- Decides whether a character may not stand inside a string. Strings become part of a format, so
directives and escapes are forbidden as well as the characters that would break the line. -/
def isForbidden (c : Char) : Bool :=
  c = '%' || c = '\r' || c = '\n' || c = Text.Quoted.backslash || c = '\t'

/-- Decides whether a character is part of the text of a string. -/
def isStringText (c : Char) : Bool :=
  c ≠ Text.Quoted.doubleQuote && !isForbidden c

/-- The comment that a text starts with. -/
def comment : List Char → List Char
  | '#' :: rest => '#' :: rest.takeWhile (· ≠ '\n')
  | _ => []

/-- The blanks and the comment that a text starts with. -/
def gap (text : List Char) : List Char :=
  text.takeWhile isBlank ++ comment (text.dropWhile isBlank)

/-- What stands at the front of a text. -/
inductive Reading where
  /-- A lexeme that takes up the given number of characters. -/
  | lexeme (kind : Kind) (spelling : List Char) (length : Nat)
  /-- No lexeme: the text cannot be continued after the given number of characters. -/
  | fault (cause : Cause) (offset : Nat)
  deriving DecidableEq, Repr

/-- The advice for an exclamation mark that stands alone. -/
def exclamationHint : String :=
  "'!' must be followed by '=' ('!=' is not-equal)"

/-- Reads a string behind its opening quote. There are no escapes. -/
def scanString (rest : List Char) : Reading :=
  let text := rest.takeWhile isStringText
  match rest.dropWhile isStringText with
  | [] => .fault (.forbiddenInString "\n") (text.length + 1)
  | c :: _ =>
    if c = Text.Quoted.doubleQuote then .lexeme .string text (text.length + 2)
    else .fault (.forbiddenInString (String.singleton c)) (text.length + 1)

/-- Reads a number: digits, and perhaps a point with further digits. -/
def scanNumber (text : List Char) : Reading :=
  let whole := text.takeWhile Char.isDigit
  match text.dropWhile Char.isDigit with
  | '.' :: rest =>
    let fraction := rest.takeWhile Char.isDigit
    if fraction.isEmpty then .fault .missingFraction (whole.length + 1)
    else .lexeme .number (whole ++ '.' :: fraction) (whole.length + 1 + fraction.length)
  | _ => .lexeme .number whole whole.length

/-- The kind of a word: a keyword or an identifier. -/
def wordKind (word : List Char) : Kind :=
  match Keyword.ofSpelling? (String.ofList word) with
  | some keyword => .keyword keyword
  | none => .identifier

/-- Reads a word: letters and digits. -/
def scanWord (text : List Char) : Reading :=
  let word := text.takeWhile Char.isAlphanum
  .lexeme (wordKind word) word word.length

/-- Reads an operator or a comparison that starts with the given character. -/
def scanSymbol : Char → List Char → Reading
  | '+', _ => .lexeme (.operator .plus) ['+'] 1
  | '-', _ => .lexeme (.operator .minus) ['-'] 1
  | '*', _ => .lexeme (.operator .times) ['*'] 1
  | '/', _ => .lexeme (.operator .divide) ['/'] 1
  | '=', '=' :: _ => .lexeme (.comparison .equal) ['=', '='] 2
  | '=', _ => .lexeme (.operator .assign) ['='] 1
  | '<', '=' :: _ => .lexeme (.comparison .lessOrEqual) ['<', '='] 2
  | '<', _ => .lexeme (.comparison .less) ['<'] 1
  | '>', '=' :: _ => .lexeme (.comparison .greaterOrEqual) ['>', '='] 2
  | '>', _ => .lexeme (.comparison .greater) ['>'] 1
  | '!', '=' :: _ => .lexeme (.comparison .notEqual) ['!', '='] 2
  | '!', _ => .fault (.unsupportedCharacter "!" (some exclamationHint)) 0
  | c, _ => .fault (.unsupportedCharacter (String.singleton c) none) 0

/-- Reads the lexeme at the front of a text. -/
def scan : List Char → Reading
  | [] => .lexeme .endOfInput [] 0
  | c :: rest =>
    if c = '\n' then .lexeme .newline ['\n'] 1
    else if c = Text.Quoted.doubleQuote then scanString rest
    else if c.isDigit then scanNumber (c :: rest)
    else if c.isAlpha then scanWord (c :: rest)
    else scanSymbol c rest

theorem length_takeWhile_add_length_dropWhile (p : Char → Bool) (text : List Char) :
    (text.takeWhile p).length + (text.dropWhile p).length = text.length := by
  rw [← List.length_append, List.takeWhile_append_dropWhile]

theorem length_takeWhile_le (p : Char → Bool) (text : List Char) :
    (text.takeWhile p).length ≤ text.length :=
  Nat.le.intro (length_takeWhile_add_length_dropWhile p text)

theorem length_comment_le (text : List Char) : (comment text).length ≤ text.length := by
  unfold comment
  split
  · simpa using length_takeWhile_le _ _
  · simp

theorem length_gap_le (text : List Char) : (gap text).length ≤ text.length := by
  have hcomment := length_comment_le (text.dropWhile isBlank)
  have hsplit := length_takeWhile_add_length_dropWhile isBlank text
  simp only [gap, List.length_append]
  omega

/-- The number of characters that a reading takes up or accepts. -/
def Reading.extent : Reading → Nat
  | .lexeme _ _ length => length
  | .fault _ offset => offset

theorem extent_scanString_le (rest : List Char) :
    (scanString rest).extent ≤ rest.length + 1 := by
  have hsplit := length_takeWhile_add_length_dropWhile isStringText rest
  unfold scanString
  cases h : rest.dropWhile isStringText with
  | nil =>
    simp only [h, List.length_nil] at hsplit
    simp only [Reading.extent]
    omega
  | cons c tail =>
    simp only [h, List.length_cons] at hsplit
    simp only
    split <;> simp only [Reading.extent] <;> omega

theorem extent_scanNumber_le (text : List Char) : (scanNumber text).extent ≤ text.length := by
  have hsplit := length_takeWhile_add_length_dropWhile Char.isDigit text
  unfold scanNumber
  simp only
  split
  · rename_i rest h
    have hfraction := length_takeWhile_le Char.isDigit rest
    simp only [h, List.length_cons] at hsplit
    split <;> simp only [Reading.extent] <;> omega
  · simp only [Reading.extent]
    omega

theorem extent_scanSymbol_le (c : Char) (rest : List Char) :
    (scanSymbol c rest).extent ≤ rest.length + 1 := by
  unfold scanSymbol
  split <;> simp [Reading.extent]

theorem extent_scan_le (text : List Char) : (scan text).extent ≤ text.length := by
  unfold scan
  split
  · simp [Reading.extent]
  · rename_i c rest
    split
    · simp [Reading.extent]
    split
    · exact extent_scanString_le rest
    split
    · exact extent_scanNumber_le (c :: rest)
    split
    · exact length_takeWhile_le _ (c :: rest)
    · exact extent_scanSymbol_le c rest

theorem length_takeWhile_pos (p : Char → Bool) (c : Char) (rest : List Char) (h : p c = true) :
    0 < ((c :: rest).takeWhile p).length := by
  simp [h]

theorem length_pos_of_scan {text spelling : List Char} {kind : Kind} {length : Nat}
    (h : scan text = .lexeme kind spelling length) (hkind : kind ≠ .endOfInput) : 0 < length := by
  unfold scan at h
  split at h
  · simp_all
  · rename_i c rest
    split at h
    · simp only [Reading.lexeme.injEq] at h
      omega
    split at h
    · simp only [scanString] at h
      split at h <;> try split at h
      all_goals simp_all
      omega
    split at h
    · rename_i hdigit
      have hpos := length_takeWhile_pos Char.isDigit c rest hdigit
      simp only [scanNumber] at h
      split at h <;> try split at h
      all_goals simp only [Reading.lexeme.injEq, reduceCtorEq] at h
      all_goals omega
    split at h
    · rename_i halpha
      have hword : c.isAlphanum = true := by simp [Char.isAlphanum, halpha]
      have hpos := length_takeWhile_pos Char.isAlphanum c rest hword
      simp only [scanWord, Reading.lexeme.injEq] at h
      omega
    · unfold scanSymbol at h
      split at h <;> simp_all <;> omega

end TeenyBasic.Lexeme
