import Mathlib.Data.List.Chain
import TeenyBasic.Proofs.Lexing.Layout

/-!
# Rendering tokens

A list of items is rendered by writing them one after another with gaps between them. Most items may
touch, since the first character of an item shows that the item before it has ended; only words,
numbers and the signs that an equality sign would continue need a blank in between. Comments stand
before line ends and at the end of the text.

The main statement is `stream_rendering`: the tokens of a rendering are its items again.
-/

namespace TeenyBasic

/-- What a token says, without the place where it says so. -/
def Token.content (token : Token) : Kind × String :=
  (token.kind, token.spelling)

namespace Lexeme

/-- What can be written: line ends, numbers, names, strings, keywords and signs. -/
inductive Item where
  | newline
  | number (digits : List Char) (isNumeral : IsNumeral digits)
  | identifier (word : List Char) (isWord : IsWord word)
    (ne_keyword : ∀ keyword : Keyword, keyword.spelling.toList ≠ word)
  | string (text : List Char) (isText : ∀ c ∈ text, isStringText c = true)
  | keyword (word : Keyword)
  | operator (sign : Operator)
  | comparison (sign : Comparison)

namespace Item

/-- The kind of token that an item is read as. -/
def kind : Item → Kind
  | .newline => .newline
  | .number .. => .number
  | .identifier .. => .identifier
  | .string .. => .string
  | .keyword word => .keyword word
  | .operator sign => .operator sign
  | .comparison sign => .comparison sign

/-- The spelling of the token that an item is read as. -/
def spelling : Item → List Char
  | .newline => ['\n']
  | .number digits _ => digits
  | .identifier word _ _ => word
  | .string text _ => text
  | .keyword word => word.spelling.toList
  | .operator sign => sign.symbol.toList
  | .comparison sign => sign.symbol.toList

/-- An item as it is written. -/
def text : Item → List Char
  | .string text _ => Text.Quoted.doubleQuote :: (text ++ [Text.Quoted.doubleQuote])
  | item => item.spelling

/-- What the token says that an item is read as. -/
def content (item : Item) : Kind × String :=
  (item.kind, String.ofList item.spelling)

end Item

/-- Decides whether tokens of a kind are words. -/
def isWordKind : Kind → Bool
  | .keyword _ | .identifier => true
  | _ => false

/-- Decides whether a token of one kind and one of another, written without a blank between them,
could be read as something else. -/
def runsInto (first second : Kind) : Bool :=
  (isWordKind first && (isWordKind second || second = .number)) ||
  (first = .number && second = .number) ||
  ([.operator .assign, .comparison .less, .comparison .greater].contains first &&
    [.operator .assign, .comparison .equal].contains second)

/-- Decides whether a token of a kind cannot go on with a character. -/
def endsBefore : Kind → Char → Bool
  | .keyword _, c | .identifier, c => !c.isAlphanum
  | .number, c => !c.isDigit && c ≠ '.'
  | .operator .assign, c | .comparison .less, c | .comparison .greater, c => c ≠ '='
  | _, _ => true

/-- A text with which a token of a kind cannot go on. -/
def EndsBefore (kind : Kind) (rest : List Char) : Prop :=
  ∀ c ∈ rest.head?, endsBefore kind c = true

theorem scan_string {text : List Char} (h : ∀ c ∈ text, isStringText c = true)
    (rest : List Char) :
    scan (Text.Quoted.doubleQuote :: (text ++ [Text.Quoted.doubleQuote]) ++ rest) =
      .lexeme .string text (text.length + 2) := by
  have hstop : ∀ c ∈ (Text.Quoted.doubleQuote :: rest).head?, isStringText c = false := by
    simp [isStringText]
  have htake := takeWhile_append_of_stops h hstop
  have hdrop := dropWhile_append_of_stops h hstop
  have hscan : scan (Text.Quoted.doubleQuote :: (text ++ [Text.Quoted.doubleQuote]) ++ rest) =
      scanString (text ++ Text.Quoted.doubleQuote :: rest) := by
    simp [scan, Text.Quoted.doubleQuote]
  rw [hscan, scanString, htake, hdrop]
  simp

theorem isDigit_eq_false_of_endsBefore {rest : List Char} (h : EndsBefore .number rest) :
    ∀ c ∈ rest.head?, c.isDigit = false := by
  intro c hc
  have hends := h c hc
  simp only [endsBefore, Bool.and_eq_true, Bool.not_eq_true'] at hends
  exact hends.1

theorem scanNumber_whole {digits rest : List Char} (h : IsDigits digits)
    (hrest : EndsBefore .number rest) :
    scanNumber (digits ++ rest) = .lexeme .number digits digits.length := by
  have hstop := isDigit_eq_false_of_endsBefore hrest
  rw [scanNumber, takeWhile_append_of_stops h.2 hstop, dropWhile_append_of_stops h.2 hstop]
  dsimp only
  split
  · cases hrest '.' rfl
  · rfl

theorem scanNumber_fraction {whole fraction rest : List Char} (hwhole : IsDigits whole)
    (hfraction : IsDigits fraction) (hrest : EndsBefore .number rest) :
    scanNumber (whole ++ '.' :: fraction ++ rest) =
      .lexeme .number (whole ++ '.' :: fraction) (whole ++ '.' :: fraction).length := by
  have hpoint : ∀ c ∈ ('.' :: (fraction ++ rest)).head?, c.isDigit = false := by
    simp
  have htake := takeWhile_append_of_stops hfraction.2 (isDigit_eq_false_of_endsBefore hrest)
  rw [List.append_assoc, List.cons_append, scanNumber, takeWhile_append_of_stops hwhole.2 hpoint,
    dropWhile_append_of_stops hwhole.2 hpoint]
  simp only [htake, List.isEmpty_iff, hfraction.1, if_false, Reading.lexeme.injEq, true_and,
    List.length_append, List.length_cons]
  omega

theorem scan_number {digits rest : List Char} (h : IsNumeral digits)
    (hrest : EndsBefore .number rest) :
    scan (digits ++ rest) = .lexeme .number digits digits.length := by
  have hscan : scanNumber (digits ++ rest) = .lexeme .number digits digits.length := by
    rcases h with hdigits | ⟨whole, fraction, hwhole, hfraction, rfl⟩
    · exact scanNumber_whole hdigits hrest
    · exact scanNumber_fraction hwhole hfraction hrest
  obtain ⟨first, tail, rfl, hfirst, _⟩ := exists_digit_of_isNumeral h
  have halphanum : first.isAlphanum = true := by simp [Char.isAlphanum, hfirst]
  have hline := ne_of_isAlphanum halphanum (d := '\n') rfl
  have hquote := ne_of_isAlphanum halphanum (d := Text.Quoted.doubleQuote) rfl
  rw [List.cons_append, scan, if_neg hline, if_neg hquote, if_pos hfirst]
  exact hscan

theorem isAlphanum_eq_false_of_endsBefore {kind : Kind} {rest : List Char}
    (hkind : isWordKind kind = true) (h : EndsBefore kind rest) :
    ∀ c ∈ rest.head?, c.isAlphanum = false := by
  intro c hc
  have hends := h c hc
  cases kind <;> first | simpa [endsBefore] using hends | cases hkind

theorem scan_word {word rest : List Char} (h : IsWord word)
    (hrest : ∀ c ∈ rest.head?, c.isAlphanum = false) :
    scan (word ++ rest) = .lexeme (wordKind word) word word.length := by
  have hall := isAlphanum_of_isWord h
  have htake := takeWhile_append_of_stops hall hrest
  obtain ⟨first, tail, rfl, hfirst, _⟩ := h
  have halphanum := isAlphanum_of_isAlpha hfirst
  have hline := ne_of_isAlphanum halphanum (d := '\n') rfl
  have hquote := ne_of_isAlphanum halphanum (d := Text.Quoted.doubleQuote) rfl
  have hdigit : ¬ first.isDigit = true := fun hdigit ↦ by
    rw [isAlpha_of_isDigit hdigit] at hfirst
    cases hfirst
  rw [List.cons_append, scan, if_neg hline, if_neg hquote, if_neg hdigit, if_pos hfirst,
    ← List.cons_append, scanWord, htake]

theorem isWord_keyword (word : Keyword) : IsWord word.spelling.toList := by
  cases word <;> decide

theorem wordKind_keyword (word : Keyword) : wordKind word.spelling.toList = .keyword word := by
  have hkeyword : Keyword.ofSpelling? word.spelling = some word :=
    (Keyword.ofSpelling?_eq_some_iff _ _).mpr rfl
  rw [wordKind, String.ofList_toList, hkeyword]

theorem wordKind_identifier {word : List Char}
    (h : ∀ keyword : Keyword, keyword.spelling.toList ≠ word) : wordKind word = .identifier := by
  unfold wordKind
  split
  · rename_i keyword hkeyword
    have hspelling := (Keyword.ofSpelling?_eq_some_iff _ _).mp hkeyword
    exact absurd (by rw [hspelling, String.toList_ofList]) (h keyword)
  · rfl

theorem scanSymbol_alone {rest : List Char} (h : rest.head? ≠ some '=') :
    scanSymbol '=' rest = .lexeme (.operator .assign) ['='] 1 ∧
      scanSymbol '<' rest = .lexeme (.comparison .less) ['<'] 1 ∧
      scanSymbol '>' rest = .lexeme (.comparison .greater) ['>'] 1 := by
  cases rest with
  | nil => exact ⟨rfl, rfl, rfl⟩
  | cons c rest =>
    have hc : c ≠ '=' := by simpa using h
    simp [scanSymbol, hc]

theorem scan_operator (sign : Operator) {rest : List Char}
    (hrest : EndsBefore (.operator sign) rest) :
    scan (sign.symbol.toList ++ rest) =
      .lexeme (.operator sign) sign.symbol.toList sign.symbol.toList.length := by
  cases sign with
  | assign =>
    have halone := scanSymbol_alone fun hhead ↦ by cases hrest '=' hhead
    exact halone.1
  | _ => rfl

theorem scan_comparison (sign : Comparison) {rest : List Char}
    (hrest : EndsBefore (.comparison sign) rest) :
    scan (sign.symbol.toList ++ rest) =
      .lexeme (.comparison sign) sign.symbol.toList sign.symbol.toList.length := by
  cases sign with
  | less =>
    have halone := scanSymbol_alone fun hhead ↦ by cases hrest '=' hhead
    exact halone.2.1
  | greater =>
    have halone := scanSymbol_alone fun hhead ↦ by cases hrest '=' hhead
    exact halone.2.2
  | _ => rfl

/-- An item is read whole, and not beyond its end, if what follows cannot continue it. -/
theorem scan_item (item : Item) {rest : List Char} (hrest : EndsBefore item.kind rest) :
    scan (item.text ++ rest) = .lexeme item.kind item.spelling item.text.length := by
  cases item with
  | newline => rfl
  | number digits isNumeral => exact scan_number isNumeral hrest
  | identifier word isWord ne_keyword =>
    have hscan := scan_word isWord (isAlphanum_eq_false_of_endsBefore rfl hrest)
    rw [wordKind_identifier ne_keyword] at hscan
    exact hscan
  | string text isText =>
    have hscan := scan_string isText rest
    simpa [Item.text, Item.kind, Item.spelling] using hscan
  | keyword word =>
    have hscan := scan_word (isWord_keyword word) (isAlphanum_eq_false_of_endsBefore rfl hrest)
    rw [wordKind_keyword] at hscan
    exact hscan
  | operator sign => exact scan_operator sign hrest
  | comparison sign => exact scan_comparison sign hrest

/-- A character that starts an item ends the gap before it, and ends every token that the item may
touch. -/
structure Opens (c : Char) (kind : Kind) : Prop where
  isBlank_eq : isBlank c = false
  ne_hash : c ≠ '#'
  ends : ∀ before, runsInto before kind = false → endsBefore before c = true

theorem endsBefore_of_mark {c : Char} (hword : c.isAlphanum = false) (hpoint : c ≠ '.')
    (hequal : c ≠ '=') (kind : Kind) : endsBefore kind c = true := by
  have hdigit : c.isDigit = false := by
    simp only [Char.isAlphanum, Bool.or_eq_false_iff] at hword
    exact hword.2
  unfold endsBefore
  split <;> simp [hword, hdigit, hpoint, hequal]

theorem opens_of_isDigit {c : Char} (h : c.isDigit = true) : Opens c .number := by
  have halphanum : c.isAlphanum = true := by simp [Char.isAlphanum, h]
  constructor
  · simp [isBlank, ne_of_isAlphanum halphanum]
  · exact ne_of_isAlphanum halphanum rfl
  · intro before hbefore
    have hequal : c ≠ '=' := ne_of_isAlphanum halphanum rfl
    unfold endsBefore
    split <;> simp_all [runsInto, isWordKind]

theorem opens_of_isAlpha {c : Char} {kind : Kind} (h : c.isAlpha = true)
    (hkind : isWordKind kind = true) : Opens c kind := by
  have halphanum := isAlphanum_of_isAlpha h
  constructor
  · simp [isBlank, ne_of_isAlphanum halphanum]
  · exact ne_of_isAlphanum halphanum rfl
  · intro before hbefore
    have hdigit : c.isDigit = false := by
      by_contra hdigit
      rw [isAlpha_of_isDigit (by simpa using hdigit)] at h
      cases h
    have hpoint : c ≠ '.' := ne_of_isAlphanum halphanum rfl
    have hequal : c ≠ '=' := ne_of_isAlphanum halphanum rfl
    unfold endsBefore
    split <;> simp_all [runsInto, isWordKind]

theorem opens_operator (sign : Operator) :
    ∃ c tail, sign.symbol.toList = c :: tail ∧ Opens c (.operator sign) := by
  cases sign with
  | assign =>
    refine ⟨'=', [], rfl, by decide, by decide, fun before hbefore ↦ ?_⟩
    unfold endsBefore
    split <;> first | decide | cases hbefore
  | _ => exact ⟨_, _, rfl, by decide, by decide, fun before _ ↦
      endsBefore_of_mark (by decide) (by decide) (by decide) before⟩

theorem opens_comparison (sign : Comparison) :
    ∃ c tail, sign.symbol.toList = c :: tail ∧ Opens c (.comparison sign) := by
  cases sign with
  | equal =>
    refine ⟨'=', _, rfl, by decide, by decide, fun before hbefore ↦ ?_⟩
    unfold endsBefore
    split <;> first | decide | cases hbefore
  | _ => exact ⟨_, _, rfl, by decide, by decide, fun before _ ↦
      endsBefore_of_mark (by decide) (by decide) (by decide) before⟩

theorem exists_opens_of_isWord {text : List Char} {kind : Kind} (h : IsWord text)
    (hkind : isWordKind kind = true) : ∃ c tail, text = c :: tail ∧ Opens c kind := by
  obtain ⟨first, rest, rfl, hfirst, _⟩ := h
  exact ⟨first, rest, rfl, opens_of_isAlpha hfirst hkind⟩

theorem exists_opens (item : Item) : ∃ c tail, item.text = c :: tail ∧ Opens c item.kind := by
  cases item with
  | newline => exact ⟨_, _, rfl, by decide, by decide, fun before _ ↦
      endsBefore_of_mark (by decide) (by decide) (by decide) before⟩
  | string text isText => exact ⟨_, _, rfl, by decide, by decide, fun before _ ↦
      endsBefore_of_mark (by decide) (by decide) (by decide) before⟩
  | number digits isNumeral =>
    obtain ⟨first, tail, rfl, hfirst, _⟩ := exists_digit_of_isNumeral isNumeral
    exact ⟨first, tail, rfl, opens_of_isDigit hfirst⟩
  | identifier word isWord ne_keyword => exact exists_opens_of_isWord isWord rfl
  | keyword word => exact exists_opens_of_isWord (isWord_keyword word) rfl
  | operator sign => exact opens_operator sign
  | comparison sign => exact opens_comparison sign

/-- A gap with what may follow it: a comment goes on to the end of its line. -/
def Gap.EndsBefore (space : Gap) (rest : List Char) : Prop :=
  match space.note with
  | none => ∀ c ∈ rest.head?, Lexeme.isBlank c = false ∧ c ≠ '#'
  | some _ => ∀ c ∈ rest.head?, c = '\n'

theorem comment_eq_nil {text : List Char} (h : ∀ c ∈ text.head?, c ≠ '#') : comment text = [] := by
  unfold comment
  split
  · exact absurd rfl (h '#' rfl)
  · rfl

theorem gap_text_append {space : Gap} {rest : List Char} (h : space.EndsBefore rest) :
    gap (space.text ++ rest) = space.text := by
  obtain ⟨blanks, note, hblanks, hline⟩ := space
  cases note with
  | none =>
    have hstop : ∀ c ∈ rest.head?, Lexeme.isBlank c = false := fun c hc ↦ (h c hc).1
    have hnote : comment rest = [] := comment_eq_nil fun c hc ↦ (h c hc).2
    simp [gap, Gap.text, Gap.noteText, takeWhile_append_of_stops hblanks hstop,
      dropWhile_append_of_stops hblanks hstop, hnote]
  | some text =>
    have hstop : ∀ c ∈ ('#' :: (text ++ rest)).head?, Lexeme.isBlank c = false := by
      simp [Lexeme.isBlank]
    have htext : ∀ c ∈ text, decide (c ≠ '\n') = true := by
      intro c hc
      have hfeed : c ≠ '\n' := fun heq ↦ hline text rfl (heq ▸ hc)
      simpa using hfeed
    have hend : ∀ c ∈ rest.head?, decide (c ≠ '\n') = false := by
      simpa [Gap.EndsBefore] using h
    simp only [gap, Gap.text, Gap.noteText, List.append_assoc, List.cons_append,
      takeWhile_append_of_stops hblanks hstop, dropWhile_append_of_stops hblanks hstop, comment,
      takeWhile_append_of_stops htext hend]

/-- An item with the gap before it. Only line ends have comments before them. -/
structure SpacedItem where
  gap : Gap
  item : Item
  note_newline : gap.note ≠ none → item.kind = .newline

/-- An entry as it is written. -/
def SpacedItem.text (entry : SpacedItem) : List Char :=
  entry.gap.text ++ entry.item.text

/-- The second of two entries may stand behind the first: a blank separates what could be read as
something else. -/
def SpacedItem.Apart (first second : SpacedItem) : Prop :=
  runsInto first.item.kind second.item.kind = true → second.gap.blanks ≠ []

theorem Item.kind_ne_endOfInput (item : Item) : item.kind ≠ .endOfInput := by
  cases item <;> simp [Item.kind]

theorem Item.eq_newline_of_kind {item : Item} (h : item.kind = .newline) : item = .newline := by
  cases item <;> first | rfl | cases h

theorem SpacedItem.gap_endsBefore (entry : SpacedItem) (rest : List Char) :
    entry.gap.EndsBefore (entry.item.text ++ rest) := by
  unfold Gap.EndsBefore
  split
  · obtain ⟨c, tail, htext, hopens⟩ := exists_opens entry.item
    intro d hd
    obtain rfl : c = d := by simpa [htext] using hd
    exact ⟨hopens.isBlank_eq, hopens.ne_hash⟩
  · rename_i note hnote
    have hitem := Item.eq_newline_of_kind (entry.note_newline (by simp [hnote]))
    rw [hitem]
    intro d hd
    simpa [Item.text, Item.spelling, eq_comm] using hd

theorem SpacedItem.Apart.endsBefore {first second : SpacedItem} (h : Apart first second)
    (rest : List Char) : EndsBefore first.item.kind (second.text ++ rest) := by
  obtain ⟨⟨blanks, note, hblanks, _⟩, item, _⟩ := second
  intro c hc
  cases blanks with
  | cons blank blanks =>
    obtain rfl : blank = c := by simpa [SpacedItem.text, Gap.text] using hc
    have hblank : isBlank blank = true := hblanks blank List.mem_cons_self
    have hcases : blank = ' ' ∨ blank = '\t' ∨ blank = '\r' := by
      simpa [isBlank, or_assoc] using hblank
    rcases hcases with rfl | rfl | rfl
    all_goals exact endsBefore_of_mark (by decide) (by decide) (by decide) _
  | nil =>
    cases note with
    | some note =>
      obtain rfl : '#' = c := by simpa [SpacedItem.text, Gap.text, Gap.noteText] using hc
      exact endsBefore_of_mark (by decide) (by decide) (by decide) _
    | none =>
      obtain ⟨first, tail, htext, hopens⟩ := exists_opens item
      obtain rfl : first = c := by simpa [SpacedItem.text, Gap.text, Gap.noteText, htext] using hc
      have hruns := mt h (by simp)
      exact hopens.ends _ (by simpa using hruns)

end Lexeme

namespace Cursor

open Lexeme

theorem next_of_entry {c : Cursor} {entry : SpacedItem} {rest : List Char}
    (hrest : c.rest = entry.text ++ rest) (hends : EndsBefore entry.item.kind rest) :
    ∃ token c', next c = .ok token c' ∧ token.content = entry.item.content ∧ c'.rest = rest := by
  rw [SpacedItem.text, List.append_assoc] at hrest
  have hgap : gap c.rest = entry.gap.text := by
    rw [hrest]
    exact gap_text_append (entry.gap_endsBefore rest)
  have hskip : c.skipGap.rest = entry.item.text ++ rest := by
    rw [rest_skipGap, hgap, hrest, List.drop_left]
  have hscan := scan_item entry.item hends
  rw [← hskip] at hscan
  refine ⟨⟨entry.item.kind, String.ofList entry.item.spelling, c.skipGap.location⟩,
    c.skipGap.advanceBy entry.item.text.length, ?_, rfl, ?_⟩
  · rw [next, take, hscan]
  · rw [rest_advanceBy, hskip, List.drop_left]

/-- The tokens of entries that follow one another are their items. -/
theorem stream_of_entries (entries : List SpacedItem) : ∀ c : Cursor,
    c.rest = entries.flatMap SpacedItem.text → entries.IsChain SpacedItem.Apart →
    (stream c).fault = none ∧ (stream c).tokens.map Token.content =
      entries.map (·.item.content) ++ [(.endOfInput, "")] := by
  induction entries with
  | nil =>
    intro c hrest _
    rw [stream_of_endOfInput (next_of_nil hrest) rfl]
    exact ⟨rfl, rfl⟩
  | cons entry entries ih =>
    intro c hrest hchain
    have hends : EndsBefore entry.item.kind (entries.flatMap SpacedItem.text) := by
      cases entries with
      | nil => simp [EndsBefore]
      | cons second entries => exact hchain.rel.endsBefore _
    obtain ⟨token, c', hnext, hcontent, hrest'⟩ := next_of_entry hrest hends
    obtain ⟨hfault, htokens⟩ := ih c' hrest' hchain.of_cons
    have hkind : token.kind ≠ .endOfInput := by
      have hitem : token.kind = entry.item.kind := congrArg Prod.fst hcontent
      rw [hitem]
      exact entry.item.kind_ne_endOfInput
    rw [stream_of_ne_endOfInput hnext hkind]
    exact ⟨hfault, by simp [hcontent, htokens]⟩

end Cursor

/-! ## Renderings -/

namespace Lexeme

/-- Items in writing: entries of which neighbours are kept apart, and a gap at the end. -/
structure Rendering where
  entries : List SpacedItem
  last : Gap
  apart : entries.IsChain SpacedItem.Apart

namespace Rendering

def text (rendering : Rendering) : List Char :=
  rendering.entries.flatMap SpacedItem.text ++ rendering.last.text

/-- The line end that closes the last line of a rendering. -/
def closing (rendering : Rendering) : SpacedItem :=
  ⟨rendering.last, .newline, fun _ ↦ rfl⟩

theorem closed_text (rendering : Rendering) : Cursor.closed (String.ofList rendering.text) =
    (rendering.entries ++ [rendering.closing]).flatMap SpacedItem.text := by
  simp [Cursor.closed, text, closing, SpacedItem.text, Item.text, Item.spelling]

theorem isChain_closing (rendering : Rendering) :
    (rendering.entries ++ [rendering.closing]).IsChain SpacedItem.Apart := by
  rw [List.isChain_append]
  refine ⟨rendering.apart, .singleton _, fun entry _ closing hclosing hruns ↦ ?_⟩
  obtain rfl : rendering.closing = closing := by simpa using hclosing
  simp [closing, Item.kind, runsInto, isWordKind] at hruns

end Rendering

end Lexeme

/-- A rendering has no lexical fault, and its tokens are its items again, followed by the line end
that closes the last line and the end of the input. -/
theorem Cursor.stream_rendering (file : String) (rendering : Lexeme.Rendering) :
    (stream (start file (String.ofList rendering.text))).fault = none ∧
    (stream (start file (String.ofList rendering.text))).tokens.map Token.content =
      rendering.entries.map (·.item.content) ++ [(.newline, "\n"), (.endOfInput, "")] := by
  obtain ⟨hfault, htokens⟩ := stream_of_entries _ (start file (String.ofList rendering.text))
    rendering.closed_text rendering.isChain_closing
  refine ⟨hfault, ?_⟩
  rw [htokens, List.map_append, List.append_assoc]
  rfl

namespace Lexeme

/-- A keyword with blanks behind it, a number that touches the name after it, a sign that touches a
string, the sign of comments in that string and a quotation mark in a comment. -/
def Rendering.sample : Rendering where
  entries := [
    ⟨⟨[], none, by simp, by simp⟩, .keyword .PRINT, by simp⟩,
    ⟨⟨[' ', '\t'], none, by simp [isBlank], by simp⟩, .number ['1', '.', '5']
      (.inr ⟨['1'], ['5'], by simp [IsDigits], by simp [IsDigits], rfl⟩), by simp⟩,
    ⟨⟨[], none, by simp, by simp⟩, .identifier ['x'] (by simp [isWord_cons_iff])
      (fun keyword ↦ by cases keyword <;> decide), by simp⟩,
    ⟨⟨[], none, by simp, by simp⟩, .comparison .lessOrEqual, by simp⟩,
    ⟨⟨[], none, by simp, by simp⟩, .string ['#'] (List.forall_mem_singleton.mpr rfl), by simp⟩,
    ⟨⟨[' '], some ['"'], by simp [isBlank], by simp⟩, .newline, fun _ ↦ rfl⟩]
  last := ⟨['\r'], some [], by simp [isBlank], by simp⟩
  apart := by simp [SpacedItem.Apart, runsInto, isWordKind, Item.kind]

end Lexeme

theorem Cursor.stream_rendering_sample :
    (stream (start "" "PRINT \t1.5x<=\"#\" #\"\n\r#")).fault = none ∧
    (stream (start "" "PRINT \t1.5x<=\"#\" #\"\n\r#")).tokens.map Token.content =
      [(.keyword .PRINT, "PRINT"), (.number, "1.5"), (.identifier, "x"),
        (.comparison .lessOrEqual, "<="), (.string, "#"), (.newline, "\n"), (.newline, "\n"),
        (.endOfInput, "")] :=
  stream_rendering "" .sample

end TeenyBasic
