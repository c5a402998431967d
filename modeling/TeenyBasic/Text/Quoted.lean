import TeenyBasic.Text.Printable

/-!
# Quoted text

Text shown inside a message is put between quotation marks, and whatever could not be read there
is escaped. The mark is an apostrophe unless the text holds an apostrophe and no double quote.
A backslash and the mark in use are escaped by a backslash, the three common control characters
have short forms, and every other unprintable character is written by its code point in
lower-case hexadecimal with two, four or eight digits.
-/

namespace TeenyBasic.Text

namespace Quoted

/-- The apostrophe. -/
def apostrophe : Char := '\x27'

/-- The double quote. -/
def doubleQuote : Char := '\x22'

/-- The backslash. -/
def backslash : Char := '\x5c'

/-- The quotation mark that a text is put between. -/
def mark (text : List Char) : Char :=
  if text.contains apostrophe && !text.contains doubleQuote then doubleQuote else apostrophe

/-- The lower-case hexadecimal digits of a number, padded with zeros to a width. -/
def hexadecimal (width n : Nat) : List Char :=
  let digits := Nat.toDigits 16 n
  List.replicate (width - digits.length) '0' ++ digits

/-- The escape of a character by its code point. -/
def escapeByCode (code : Nat) : List Char :=
  if code < 0x100 then backslash :: 'x' :: hexadecimal 2 code
  else if code < 0x10000 then backslash :: 'u' :: hexadecimal 4 code
  else backslash :: 'U' :: hexadecimal 8 code

/-- One character as it stands between two marks. -/
def escape (mark c : Char) : List Char :=
  if c = mark || c = backslash then [backslash, c]
  else if c = '\n' then [backslash, 'n']
  else if c = '\r' then [backslash, 'r']
  else if c = '\t' then [backslash, 't']
  else if Printable.isPrintable c then [c]
  else escapeByCode c.toNat

end Quoted

/-- A text between quotation marks, with everything unreadable escaped. -/
def quoted (text : String) : String :=
  let chars := text.toList
  let mark := Quoted.mark chars
  String.ofList (mark :: chars.flatMap (Quoted.escape mark) ++ [mark])

end TeenyBasic.Text
