import TeenyBasic.Lexeme

/-!
# Cursors

A cursor stands between two characters of a source text, or at its end. It keeps what is still to
be read, the number of characters read, the line and the column, and the text from the start of the
current line, which messages quote. A line feed is added to every source text, so that the last
line is always closed.

Tokens are pulled from a cursor one at a time. A pull that fails leaves the cursor where reading
stopped: on an unsupported or forbidden character, or behind a decimal point without fraction. At
the end of the text every pull gives the end of the input and the cursor stays.

The main fact is that a pull that gives any other token leaves less text to be read, so that the
tokens of a text are finitely many.
-/

namespace TeenyBasic

/-- A place in a source text together with the text around it. -/
structure Cursor where
  file : String
  rest : List Char
  position : Nat
  line : Nat
  column : Nat
  lineText : List Char
  deriving DecidableEq, Repr

namespace Cursor

/-- The text that is read for a given source text: the source text and a line feed. -/
def closed (source : String) : List Char :=
  source.toList ++ ['\n']

/-- The cursor at the start of a source text. -/
def start (file source : String) : Cursor where
  file := file
  rest := closed source
  position := 0
  line := 1
  column := 1
  lineText := closed source

/-- Moves over one character; at the end of the text the cursor stays. -/
def advance (c : Cursor) : Cursor :=
  match c.rest with
  | [] => c
  | '\n' :: rest =>
    { c with rest, position := c.position + 1, line := c.line + 1, column := 1, lineText := rest }
  | _ :: rest => { c with rest, position := c.position + 1, column := c.column + 1 }

/-- Moves over a number of characters. -/
def advanceBy : Nat → Cursor → Cursor
  | 0, c => c
  | n + 1, c => advanceBy n c.advance

/-- The character a number of places ahead. -/
def peek? (c : Cursor) (ahead : Nat) : Option Char :=
  c.rest[ahead]?

/-- Decides whether the whole text has been read. -/
def atEnd (c : Cursor) : Bool :=
  c.rest.isEmpty

/-- The place of a cursor. -/
def location (c : Cursor) : Location :=
  ⟨c.file, c.line, c.column⟩

/-- The line a cursor stands in, without its line feed. -/
def currentLine (c : Cursor) : String :=
  String.ofList (c.lineText.takeWhile (· ≠ '\n'))

/-- Moves over blanks and a comment. -/
def skipGap (c : Cursor) : Cursor :=
  c.advanceBy (Lexeme.gap c.rest).length

/-- Pulls a token from a cursor that stands at the start of a lexeme. -/
def take (c : Cursor) : EStateM.Result Diagnostic Cursor Token :=
  match Lexeme.scan c.rest with
  | .lexeme kind spelling length =>
    .ok ⟨kind, String.ofList spelling, c.location⟩ (c.advanceBy length)
  | .fault cause offset =>
    let stop := c.advanceBy offset
    .error ⟨cause, some stop.location, some stop.currentLine⟩ stop

/-- Pulls the next token. -/
def next : EStateM Diagnostic Cursor Token :=
  fun c ↦ c.skipGap.take

@[simp] theorem rest_advance (c : Cursor) : c.advance.rest = c.rest.tail := by
  unfold advance
  split <;> simp_all

@[simp] theorem rest_advanceBy (n : Nat) (c : Cursor) : (c.advanceBy n).rest = c.rest.drop n := by
  induction n generalizing c with
  | zero => rfl
  | succ n ih => simp [advanceBy, ih]

@[simp] theorem file_advance (c : Cursor) : c.advance.file = c.file := by
  unfold advance
  split <;> rfl

@[simp] theorem file_advanceBy (n : Nat) (c : Cursor) : (c.advanceBy n).file = c.file := by
  induction n generalizing c with
  | zero => rfl
  | succ n ih => simp [advanceBy, ih]

theorem advanceBy_add (m n : Nat) (c : Cursor) :
    c.advanceBy (m + n) = (c.advanceBy m).advanceBy n := by
  induction m generalizing c with
  | zero => simp [advanceBy]
  | succ m ih => rw [Nat.succ_add]; exact ih c.advance

@[simp] theorem rest_skipGap (c : Cursor) :
    c.skipGap.rest = c.rest.drop (Lexeme.gap c.rest).length := by
  simp [skipGap]

theorem next_shortens {c c' : Cursor} {token : Token} (h : next c = .ok token c')
    (hkind : token.kind ≠ .endOfInput) : c'.rest.length < c.rest.length := by
  simp only [next, take] at h
  split at h
  · rename_i kind spelling length hscan
    have hle : length ≤ c.skipGap.rest.length := by
      have hextent := Lexeme.extent_scan_le c.skipGap.rest
      rw [hscan] at hextent
      exact hextent
    injection h with htoken hcursor
    subst htoken hcursor
    have hpos := Lexeme.length_pos_of_scan hscan hkind
    simp only [rest_skipGap, List.length_drop] at hle
    simp only [rest_advanceBy, rest_skipGap, List.length_drop]
    omega
  · cases h

theorem length_rest_next_le {c c' : Cursor} {token : Token} (h : next c = .ok token c') :
    c'.rest.length ≤ c.rest.length := by
  simp only [next, take] at h
  split at h
  · injection h with _ hcursor
    subst hcursor
    simp only [rest_advanceBy, rest_skipGap, List.length_drop]
    omega
  · cases h

theorem location_ne_none_of_next {c c' : Cursor} {fault : Diagnostic}
    (h : next c = .error fault c') : fault.location ≠ none := by
  simp only [next, take] at h
  split at h
  · cases h
  · injection h with hfault
    subst hfault
    simp

/-- All that can be pulled from a cursor: the tokens up to the end of the input or up to a fault,
the fault if there is one, and where the cursor stops. -/
structure Stream where
  tokens : List Token
  fault : Option Diagnostic
  stop : Cursor
  deriving DecidableEq, Repr

/-- Pulls all tokens up to the end of the input or a fault. -/
def stream (c : Cursor) : Stream :=
  match _h : next c with
  | .error fault stop => ⟨[], some fault, stop⟩
  | .ok token c' =>
    if _ : token.kind = .endOfInput then ⟨[token], none, c'⟩
    else
      let later := stream c'
      { later with tokens := token :: later.tokens }
termination_by c.rest.length
decreasing_by
  exact next_shortens (by assumption) (by assumption)

end Cursor

end TeenyBasic
