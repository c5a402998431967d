import TeenyBasic.Text.Quoted
import TeenyBasic.Proofs.Lexing.Spelling

/-!
# Splitting C texts

How C divides a text into preprocessing tokens. Going from left to right, it skips blanks and
comments and takes the longest token that stands in front: a word, a preprocessing number, a
literal or one of the punctuators. Trigraphs have been replaced before that. Universal character
names outside literals are left out.

The lemmas below say under which conditions a piece of text is read on its own, whatever follows:
the first character behind it must not continue it.
-/

namespace TeenyBasic.C

open Text.Quoted
open Lexeme (takeWhile_append_of_stops isAlphanum_of_isAlpha ne_of_isAlphanum isAlpha_of_isDigit
  exists_digit_of_isNumeral)

/-- A preprocessing token. Keywords are words; a literal has a mark of width, a quotation mark and
the characters between the marks. -/
inductive Token where
  | word (spelling : String)
  | number (spelling : String)
  | literal (wide : Bool) (quote : Char) (body : String)
  | mark (symbol : String)
  deriving DecidableEq, Repr

def isBlank (c : Char) : Bool :=
  c = ' ' || c = '\t' || c = '\n' || c = '\x0b' || c = '\x0c'

def isWordStart (c : Char) : Bool :=
  c.isAlpha || c = '_'

def isWordPart (c : Char) : Bool :=
  c.isAlphanum || c = '_'

def isQuote (c : Char) : Bool :=
  c = doubleQuote || c = apostrophe

/-- Decides whether a sign behind a character belongs to the number that the character is in. -/
def isExponentMark (c : Char) : Bool :=
  c = 'e' || c = 'E' || c = 'p' || c = 'P'

/-- How a preprocessing number goes on: with digits, letters, points, and signs behind the mark of
an exponent. -/
def numberTail : List Char → List Char
  | [] => []
  | [c] => if isWordPart c || c = '.' then [c] else []
  | c :: d :: rest =>
    if isExponentMark c && (d = '+' || d = '-') then c :: d :: numberTail rest
    else if isWordPart c || c = '.' then c :: numberTail (d :: rest)
    else []

/-- Decides whether a preprocessing number starts with a character and the text behind it. -/
def startsNumber (c : Char) (rest : List Char) : Bool :=
  c.isDigit || (c = '.' && rest.head?.any Char.isDigit)

/-- The punctuators, longer ones first. -/
def marks : List String :=
  ["%:%:", "...", "<<=", ">>=",
   "->", "++", "--", "<<", ">>", "<=", ">=", "==", "!=", "&&", "||", "*=", "/=", "%=", "+=", "-=",
   "&=", "^=", "|=", "##", "<:", ":>", "<%", "%>", "%:",
   "[", "]", "(", ")", "\x7b", "\x7d", ".", "&", "*", "+", "-", "~", "!", "/", "%", "<", ">", "^",
   "|", "?", ":", ";", "=", ",", "#"]

/-- The longest punctuator that a text starts with. -/
def markAt (text : List Char) : Option String :=
  marks.find? fun mark ↦ mark.toList.isPrefixOf text

def isOctal (c : Char) : Bool :=
  '0' ≤ c && c ≤ '7'

def isHexadecimal (c : Char) : Bool :=
  c.isDigit || ('a' ≤ c && c ≤ 'f') || ('A' ≤ c && c ≤ 'F')

/-- Decides whether a text starts with what may stand behind a backslash in a literal: a simple
escape, an octal digit, or a letter with the hexadecimal digits that it asks for. -/
def isEscape : List Char → Bool
  | [] => false
  | c :: rest =>
    isQuote c || c = '?' || c = backslash ||
    ['a', 'b', 'f', 'n', 'r', 't', 'v'].contains c ||
    isOctal c ||
    (c = 'x' && rest.head?.any isHexadecimal) ||
    (c = 'u' && (rest.take 4).length = 4 && (rest.take 4).all isHexadecimal) ||
    (c = 'U' && (rest.take 8).length = 8 && (rest.take 8).all isHexadecimal)

/-- The characters of a literal behind its first quotation mark, up to the second one. -/
def literalBody (quote : Char) : List Char → Option (List Char)
  | [] => none
  | c :: rest =>
    if c = quote then some []
    else if c = '\n' then none
    else if c = backslash then
      match rest with
      | [] => none
      | d :: tail =>
        if isEscape rest then (literalBody quote tail).map fun body ↦ c :: d :: body else none
    else (literalBody quote rest).map (c :: ·)

/-- The number of characters up to the end of a comment that may span lines. -/
def commentLength : List Char → Option Nat
  | [] => none
  | [_] => none
  | c :: d :: rest =>
    if c = '*' && d = '/' then some 2 else (commentLength (d :: rest)).map (· + 1)

/-! ## Splitting -/

/-- What stands in front of a text that starts with a character: a token or something to skip, and
how many characters it takes up behind the first one. -/
def front (c : Char) (rest : List Char) : Option (Option Token × Nat) :=
  if isBlank c then some (none, 0)
  else if c = '/' && rest.head? = some '*' then
    (commentLength rest.tail).map fun length ↦ (none, length + 1)
  else if c = '/' && rest.head? = some '/' then
    some (none, (rest.takeWhile (· ≠ '\n')).length)
  else if isQuote c then
    (literalBody c rest).map fun body ↦
      (some (.literal false c (String.ofList body)), body.length + 1)
  else if c = 'L' && rest.head?.any isQuote then
    (literalBody (rest.headD doubleQuote) rest.tail).map fun body ↦
      (some (.literal true (rest.headD doubleQuote) (String.ofList body)), body.length + 2)
  else if isWordStart c then
    let tail := rest.takeWhile isWordPart
    some (some (.word (String.ofList (c :: tail))), tail.length)
  else if startsNumber c rest then
    let tail := numberTail rest
    some (some (.number (String.ofList (c :: tail))), tail.length)
  else (markAt (c :: rest)).map fun mark ↦ (some (.mark mark), mark.length - 1)

/-- The tokens of a text, if it can be divided into tokens. -/
def split : List Char → Option (List Token)
  | [] => some []
  | c :: rest =>
    match front c rest with
    | none => none
    | some (none, extra) => split (rest.drop extra)
    | some (some token, extra) => (split (rest.drop extra)).map (token :: ·)
termination_by text => text.length
decreasing_by
  all_goals
    simp only [List.length_drop, List.length_cons]
    omega

theorem split_nil : split [] = some [] := by
  rw [split]

theorem split_of_skip {c : Char} {rest : List Char} {extra : Nat}
    (h : front c rest = some (none, extra)) : split (c :: rest) = split (rest.drop extra) := by
  rw [split, h]

theorem split_of_token {c : Char} {rest : List Char} {token : Token} {extra : Nat}
    (h : front c rest = some (some token, extra)) :
    split (c :: rest) = (split (rest.drop extra)).map (token :: ·) := by
  rw [split, h]

theorem split_of_none {c : Char} {rest : List Char} (h : front c rest = none) :
    split (c :: rest) = none := by
  rw [split, h]

/-! ## Pieces of text -/

/-- A piece of text in front of another is read as tokens of its own. -/
def Reads (text : List Char) (tokens : List Token) (rest : List Char) : Prop :=
  split (text ++ rest) = (split rest).map (tokens ++ ·)

theorem reads_nil (rest : List Char) : Reads [] [] rest := by
  simp [Reads]

theorem Reads.append {a b rest : List Char} {tokens tokens' : List Token}
    (ha : Reads a tokens (b ++ rest)) (hb : Reads b tokens' rest) :
    Reads (a ++ b) (tokens ++ tokens') rest := by
  unfold Reads at ha hb ⊢
  rw [List.append_assoc, ha, hb, Option.map_map]
  simp [Function.comp_def, List.append_assoc]

theorem Reads.split_eq {text : List Char} {tokens : List Token} (h : Reads text tokens []) :
    split text = some tokens := by
  unfold Reads at h
  rw [List.append_nil, split_nil] at h
  simpa using h

theorem reads_of_token {c : Char} {tail rest : List Char} {token : Token}
    (h : front c (tail ++ rest) = some (some token, tail.length)) :
    Reads (c :: tail) [token] rest := by
  unfold Reads
  rw [List.cons_append, split_of_token h, List.drop_left]
  rfl

theorem reads_blank {c : Char} (h : isBlank c = true) (rest : List Char) : Reads [c] [] rest := by
  have hfront : front c rest = some (none, 0) := by rw [front, if_pos h]
  unfold Reads
  rw [List.singleton_append, split_of_skip hfront]
  simp

/-- A text that is not continued as a word, a number or a literal. -/
def Stops (rest : List Char) : Prop :=
  ∀ c ∈ rest.head?, isWordPart c = false ∧ c ≠ '.' ∧ isQuote c = false

theorem stops_nil : Stops [] := by
  simp [Stops]

theorem stops_cons {c : Char} {rest : List Char} :
    Stops (c :: rest) ↔ isWordPart c = false ∧ c ≠ '.' ∧ isQuote c = false := by
  simp [Stops]

theorem isWordPart_of_isAlphanum {c : Char} (h : c.isAlphanum = true) : isWordPart c = true := by
  simp [isWordPart, h]

theorem isBlank_of_isAlphanum {c : Char} (h : c.isAlphanum = true) : isBlank c = false := by
  have hspace := ne_of_isAlphanum h (d := ' ') rfl
  have htab := ne_of_isAlphanum h (d := '\t') rfl
  have hline := ne_of_isAlphanum h (d := '\n') rfl
  have hvertical := ne_of_isAlphanum h (d := '\x0b') rfl
  have hform := ne_of_isAlphanum h (d := '\x0c') rfl
  simp [isBlank, hspace, htab, hline, hvertical, hform]

theorem isQuote_of_isAlphanum {c : Char} (h : c.isAlphanum = true) : isQuote c = false := by
  have hdouble := ne_of_isAlphanum h (d := doubleQuote) rfl
  have hsingle := ne_of_isAlphanum h (d := apostrophe) rfl
  simp [isQuote, hdouble, hsingle]

theorem front_of_isAlpha {c : Char} {rest : List Char} (h : c.isAlpha = true)
    (hrest : rest.head?.any isQuote = false) :
    front c rest = some (some (.word (String.ofList (c :: rest.takeWhile isWordPart))),
      (rest.takeWhile isWordPart).length) := by
  have halphanum := isAlphanum_of_isAlpha h
  have hslash := ne_of_isAlphanum halphanum (d := '/') rfl
  have hstart : isWordStart c = true := by simp [isWordStart, h]
  simp [front, isBlank_of_isAlphanum halphanum, hslash, isQuote_of_isAlphanum halphanum, hrest,
    hstart]

theorem reads_word {text rest : List Char} (h : Lexeme.IsWord text) (hrest : Stops rest) :
    Reads text [.word (String.ofList text)] rest := by
  obtain ⟨first, tail, rfl, hfirst, htail⟩ := h
  have hparts : ∀ c ∈ tail, isWordPart c = true :=
    fun c hc ↦ isWordPart_of_isAlphanum (htail c hc)
  have htake : (tail ++ rest).takeWhile isWordPart = tail :=
    takeWhile_append_of_stops hparts fun c hc ↦ (hrest c hc).1
  have hquote : (tail ++ rest).head?.any isQuote = false := by
    cases tail with
    | nil =>
      cases rest with
      | nil => rfl
      | cons c rest => exact (stops_cons.mp hrest).2.2
    | cons c tail => exact isQuote_of_isAlphanum (htail c List.mem_cons_self)
  apply reads_of_token
  rw [front_of_isAlpha hfirst hquote, htake]

theorem isWordPart_of_isExponentMark {c : Char} (h : isExponentMark c = true) :
    isWordPart c = true := by
  simp only [isExponentMark, Bool.or_eq_true, decide_eq_true_eq] at h
  rcases h with ((rfl | rfl) | rfl) | rfl <;> rfl

theorem numberTail_of_stops {rest : List Char} (h : Stops rest) : numberTail rest = [] := by
  match rest, h with
  | [], _ => rfl
  | [c], h =>
    obtain ⟨hpart, hpoint, _⟩ := stops_cons.mp h
    simp [numberTail, hpart, hpoint]
  | c :: d :: rest, h =>
    obtain ⟨hpart, hpoint, _⟩ := stops_cons.mp h
    have hmark : isExponentMark c = false := by
      rw [Bool.eq_false_iff]
      intro htrue
      rw [isWordPart_of_isExponentMark htrue] at hpart
      cases hpart
    simp [numberTail, hpart, hpoint, hmark]

theorem numberTail_cons {c : Char} {rest : List Char} (hpart : isWordPart c = true ∨ c = '.')
    (hmark : isExponentMark c = false) : numberTail (c :: rest) = c :: numberTail rest := by
  cases rest with
  | nil => simp [numberTail, hpart]
  | cons d rest => simp [numberTail, hmark, hpart]

/-- The characters that numbers are spelled with: digits and points. -/
def IsNumberPart (c : Char) : Prop := c.isDigit = true ∨ c = '.'

theorem IsNumberPart.isExponentMark {c : Char} (h : IsNumberPart c) : isExponentMark c = false := by
  rw [Bool.eq_false_iff]
  intro hmark
  simp only [C.isExponentMark, Bool.or_eq_true, decide_eq_true_eq] at hmark
  rcases hmark with ((rfl | rfl) | rfl) | rfl <;> rcases h with h | h <;> revert h <;> decide

theorem IsNumberPart.isWordPart {c : Char} (h : IsNumberPart c) :
    isWordPart c = true ∨ c = '.' := by
  rcases h with h | h
  · left
    exact isWordPart_of_isAlphanum (by simp [Char.isAlphanum, h])
  · right
    exact h

theorem numberTail_append {text rest : List Char} (h : ∀ c ∈ text, IsNumberPart c)
    (hrest : Stops rest) : numberTail (text ++ rest) = text := by
  induction text with
  | nil => exact numberTail_of_stops hrest
  | cons c tail ih =>
    have hpart := h c List.mem_cons_self
    have htail := ih fun d hd ↦ h d (List.mem_cons_of_mem _ hd)
    rw [List.cons_append, numberTail_cons hpart.isWordPart hpart.isExponentMark, htail]

theorem front_of_isDigit {c : Char} {rest : List Char} (h : c.isDigit = true) :
    front c rest = some (some (.number (String.ofList (c :: numberTail rest))),
      (numberTail rest).length) := by
  have halphanum : c.isAlphanum = true := by simp [Char.isAlphanum, h]
  have hslash := ne_of_isAlphanum halphanum (d := '/') rfl
  have hne : ∀ d : Char, d.isDigit = false → c ≠ d := by
    rintro d hd rfl
    rw [h] at hd
    cases hd
  have hstart : isWordStart c = false := by
    simp [isWordStart, isAlpha_of_isDigit h, hne '_' rfl]
  simp [front, isBlank_of_isAlphanum halphanum, hslash, isQuote_of_isAlphanum halphanum,
    hne 'L' rfl, hstart, startsNumber, h]

theorem reads_number {text rest : List Char} (h : Lexeme.IsNumeral text) (hrest : Stops rest) :
    Reads text [.number (String.ofList text)] rest := by
  obtain ⟨first, tail, rfl, hfirst, htail⟩ := exists_digit_of_isNumeral h
  apply reads_of_token
  rw [front_of_isDigit hfirst, numberTail_append htail hrest]

/-- Decides whether a punctuator stays what it is in front of a character: no other punctuator and
no comment starts with the two. -/
def isApart (mark : String) (c : Char) : Bool :=
  (marks.all fun other ↦ !(mark.toList ++ [c]).isPrefixOf other.toList) &&
    !(mark = "/" && (c = '*' || c = '/'))

/-- The first character of a punctuator starts neither a word nor a literal, and only two of them
start with a slash as comments do. -/
theorem marks_plain : ∀ mark ∈ marks, let c := mark.toList.headD ' '
    isBlank c = false ∧ isQuote c = false ∧ isWordStart c = false ∧ c.isDigit = false ∧
      c ≠ 'L' ∧ (c = '/' → mark = "/" ∨ mark = "/=") := by
  decide

theorem marks_sorted : marks.Pairwise fun a b ↦ b.length ≤ a.length := by
  decide

theorem marks_ne_empty : ∀ mark ∈ marks, mark.toList ≠ [] := by
  decide

theorem marks_no_alphanum : ∀ mark ∈ marks, mark.toList.any Char.isAlphanum = false := by
  decide

theorem marks_stop : ∀ mark ∈ marks, mark.toList.head? ≠ some '.' →
    let c := mark.toList.headD ' '
    isWordPart c = false ∧ c ≠ '.' ∧ isQuote c = false := by
  decide

theorem stops_mark {mark : String} (hmark : mark ∈ marks) (hpoint : mark.toList.head? ≠ some '.')
    (rest : List Char) : Stops (mark.toList ++ rest) := by
  obtain ⟨c, tail, hchars⟩ := List.exists_cons_of_ne_nil (marks_ne_empty mark hmark)
  have hstop := marks_stop mark hmark hpoint
  rw [hchars] at hstop ⊢
  rw [List.cons_append, stops_cons]
  exact hstop

/-- The longest punctuator in front of a text is the one that stands apart from what follows. -/
theorem markAt_of_isApart {mark : String} {rest : List Char} (hmark : mark ∈ marks)
    (hrest : ∀ c ∈ rest.head?, isApart mark c = true) :
    markAt (mark.toList ++ rest) = some mark := by
  have hfits : mark.toList.isPrefixOf (mark.toList ++ rest) = true := by
    rw [ List.isPrefixOf_iff_prefix]
    exact List.prefix_append _ _
  obtain ⟨other, hother⟩ : ∃ other, markAt (mark.toList ++ rest) = some other := by
    rw [← Option.isSome_iff_exists, markAt, List.find?_isSome]
    exact ⟨mark, hmark, hfits⟩
  obtain ⟨hpasses, before, behind, hmarks, hbefore⟩ := List.find?_eq_some_iff_append.mp hother
  rw [ List.isPrefixOf_iff_prefix] at hpasses
  have hplace : mark = other ∨ mark ∈ behind := by
    rw [hmarks] at hmark
    rcases List.mem_append.mp hmark with hmem | hmem
    · have hfalse := hbefore mark hmem
      rw [hfits] at hfalse
      cases hfalse
    · exact List.mem_cons.mp hmem
  rcases hplace with rfl | hbehind
  · exact hother
  have hlength : mark.toList.length ≤ other.toList.length := by
    have hsorted := marks_sorted
    rw [hmarks, List.pairwise_append] at hsorted
    exact (List.pairwise_cons.mp hsorted.2.1).1 mark hbehind
  have hextends : mark.toList <+: other.toList :=
    List.prefix_of_prefix_length_le (List.prefix_append _ _) hpasses hlength
  obtain ⟨more, hmore⟩ := hextends
  rw [← hmore, List.prefix_append_right_inj] at hpasses
  cases more with
  | nil =>
    have heq : mark = other := by
      rw [List.append_nil] at hmore
      exact String.toList_injective hmore
    rw [heq]
    rw [heq] at hother
    exact hother
  | cons c more =>
    exfalso
    obtain ⟨tail, rfl⟩ : ∃ tail, rest = c :: tail := by
      obtain ⟨tail, htail⟩ := hpasses
      exact ⟨more ++ tail, htail.symm⟩
    have hapart := hrest c (by simp)
    have hmem : other ∈ marks := by rw [hmarks]; simp
    simp only [isApart, Bool.and_eq_true, List.all_eq_true] at hapart
    have hnot := hapart.1 other hmem
    have hlonger : (mark.toList ++ [c]).isPrefixOf other.toList = true := by
      rw [ List.isPrefixOf_iff_prefix, ← hmore, List.prefix_append_right_inj]
      exact ⟨more, rfl⟩
    rw [hlonger] at hnot
    cases hnot

theorem front_of_markAt {c : Char} {following : List Char} {mark : String}
    (hblank : isBlank c = false) (hquote : isQuote c = false) (hword : isWordStart c = false)
    (hwide : c ≠ 'L') (hnumber : startsNumber c following = false)
    (hcomment : c = '/' → following.head? ≠ some '*' ∧ following.head? ≠ some '/')
    (hat : markAt (c :: following) = some mark) :
    front c following = some (some (.mark mark), mark.length - 1) := by
  have hblock : ¬ (c = '/' && decide (following.head? = some '*')) = true := by
    rw [Bool.and_eq_true, decide_eq_true_eq, decide_eq_true_eq]
    exact fun h ↦ (hcomment h.1).1 h.2
  have hline : ¬ (c = '/' && decide (following.head? = some '/')) = true := by
    rw [Bool.and_eq_true, decide_eq_true_eq, decide_eq_true_eq]
    exact fun h ↦ (hcomment h.1).2 h.2
  rw [front, if_neg (by simp [hblank]), if_neg hblock, if_neg hline, if_neg (by simp [hquote]),
    if_neg (by simp [hwide]), if_neg (by simp [hword]), if_neg (by simp [hnumber]), hat]
  rfl

/-- A punctuator is read on its own if it stands apart from the next character. Points are left out
because a number may start with one. -/
theorem reads_mark {mark : String} {rest : List Char} (hmark : mark ∈ marks)
    (hpoint : mark.toList.head? ≠ some '.') (hrest : ∀ c ∈ rest.head?, isApart mark c = true) :
    Reads mark.toList [.mark mark] rest := by
  obtain ⟨c, tail, hchars⟩ := List.exists_cons_of_ne_nil (marks_ne_empty mark hmark)
  have hplain := marks_plain mark hmark
  simp only [hchars, List.headD_cons] at hplain
  obtain ⟨hblank, hquote, hword, hdigit, hwide, hslash⟩ := hplain
  have hne : c ≠ '.' := by
    rintro rfl
    simp [hchars] at hpoint
  have hlength : mark.length - 1 = tail.length := by
    rw [← String.length_toList, hchars]
    rfl
  have hcomment : c = '/' → (tail ++ rest).head? ≠ some '*' ∧ (tail ++ rest).head? ≠ some '/' := by
    intro hc
    rcases hslash hc with rfl | rfl
    · obtain ⟨_, rfl⟩ : c = '/' ∧ tail = [] := by simpa using hchars.symm
      cases rest with
      | nil => simp
      | cons d rest =>
        have hapart := hrest d (by simp)
        simp only [isApart, Bool.and_eq_true] at hapart
        simpa using hapart.2
    · obtain ⟨_, rfl⟩ : c = '/' ∧ tail = ['='] := by simpa using hchars.symm
      simp
  have hat := markAt_of_isApart hmark hrest
  rw [hchars] at hat ⊢
  apply reads_of_token
  rw [← hlength]
  exact front_of_markAt hblank hquote hword hwide (by simp [startsNumber, hdigit, hne]) hcomment hat

theorem isApart_of_isAlphanum {mark : String} {c : Char} (h : c.isAlphanum = true) :
    isApart mark c = true := by
  have hstar := ne_of_isAlphanum h (d := '*') rfl
  have hslash := ne_of_isAlphanum h (d := '/') rfl
  have hall : ∀ other ∈ marks, (mark.toList ++ [c]).isPrefixOf other.toList = false := by
    intro other hother
    rw [Bool.eq_false_iff, ne_eq, List.isPrefixOf_iff_prefix]
    intro hlonger
    have hmem : c ∈ other.toList := hlonger.subset (by simp)
    have hnone := marks_no_alphanum other hother
    rw [List.any_eq_false] at hnone
    exact hnone c hmem h
  simp only [isApart, Bool.and_eq_true, List.all_eq_true]
  exact ⟨fun other hother ↦ by rw [hall other hother]; rfl, by simp [hstar, hslash]⟩

/-- The punctuators that are the start of no other one. -/
def closedMarks : List String := ["(", ")", "[", "]", "\x7b", "\x7d", ",", ";"]

theorem closedMarks_closed : ∀ mark ∈ closedMarks, mark ∈ marks ∧ mark.toList.head? ≠ some '.' ∧
    mark ≠ "/" ∧ ∀ other ∈ marks, mark.toList.isPrefixOf other.toList = true → other = mark := by
  decide

theorem isApart_of_mem_closedMarks {mark : String} (h : mark ∈ closedMarks) (c : Char) :
    isApart mark c = true := by
  obtain ⟨_, _, hslash, hclosed⟩ := closedMarks_closed mark h
  have hall : ∀ other ∈ marks, (mark.toList ++ [c]).isPrefixOf other.toList = false := by
    intro other hother
    rw [Bool.eq_false_iff, ne_eq, List.isPrefixOf_iff_prefix]
    intro hlonger
    have hshorter : mark.toList.isPrefixOf other.toList = true := by
      rw [ List.isPrefixOf_iff_prefix]
      exact (List.prefix_append _ _).trans hlonger
    have hlength := hlonger.length_le
    rw [hclosed other hother hshorter, List.length_append, List.length_singleton] at hlength
    omega
  simp only [isApart, Bool.and_eq_true, List.all_eq_true]
  exact ⟨fun other hother ↦ by rw [hall other hother]; rfl, by simp [hslash]⟩

section

variable {text rest : List Char} {tokens : List Token}

theorem Reads.blank_cons {c : Char} (hc : isBlank c = true) (h : Reads text tokens rest) :
    Reads (c :: text) tokens rest :=
  (reads_blank hc _).append h

theorem Reads.word_append {word : String} (hword : Lexeme.IsWord word.toList)
    (hstops : Stops (text ++ rest)) (h : Reads text tokens rest) :
    Reads (word.toList ++ text) (.word word :: tokens) rest := by
  have hfirst := (reads_word hword hstops).append h
  rw [String.ofList_toList] at hfirst
  exact hfirst

theorem Reads.number_append {number : String} (hnumber : Lexeme.IsNumeral number.toList)
    (hstops : Stops (text ++ rest)) (h : Reads text tokens rest) :
    Reads (number.toList ++ text) (.number number :: tokens) rest := by
  have hfirst := (reads_number hnumber hstops).append h
  rw [String.ofList_toList] at hfirst
  exact hfirst

theorem Reads.mark_append_cons {mark : String} {c : Char}
    (hmark : mark ∈ marks ∧ mark.toList.head? ≠ some '.' ∧ isApart mark c = true)
    (h : Reads (c :: text) tokens rest) :
    Reads (mark.toList ++ c :: text) (.mark mark :: tokens) rest := by
  apply Reads.append (reads_mark hmark.1 hmark.2.1 _) h
  intro d hd
  obtain rfl : c = d := by simpa using hd
  exact hmark.2.2

theorem Reads.mark_append_word {mark word : String}
    (hmark : mark ∈ marks ∧ mark.toList.head? ≠ some '.') (hword : Lexeme.IsWord word.toList)
    (h : Reads (word.toList ++ text) tokens rest) :
    Reads (mark.toList ++ (word.toList ++ text)) (.mark mark :: tokens) rest := by
  obtain ⟨c, tail, hchars, hc, _⟩ := hword
  rw [hchars] at h ⊢
  have hapart : isApart mark c = true := isApart_of_isAlphanum (isAlphanum_of_isAlpha hc)
  exact h.mark_append_cons ⟨hmark.1, hmark.2, hapart⟩

theorem Reads.closed_append {mark : String} (hmark : mark ∈ closedMarks)
    (h : Reads text tokens rest) : Reads (mark.toList ++ text) (.mark mark :: tokens) rest := by
  obtain ⟨hmem, hpoint, _⟩ := closedMarks_closed mark hmark
  exact (reads_mark hmem hpoint fun c _ ↦ isApart_of_mem_closedMarks hmark c).append h

end

end TeenyBasic.C
