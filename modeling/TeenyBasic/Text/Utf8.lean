import TeenyBasic.Text.Quoted

/-!
# UTF-8

Text is stored in files as UTF-8. Writing encodes each character; reading runs a byte machine that
is either between two characters or inside one, and in the latter case knows the intervals in which
the bytes still owed must lie. The first byte that no well-formed text can hold ends the reading
with a fault that names the bytes at fault and the reason.
-/

namespace TeenyBasic.Text.Utf8

/-- The bytes of a text. -/
def encode (text : List Char) : List UInt8 :=
  text.flatMap String.utf8EncodeChar

/-- Why a byte sequence is not well-formed. -/
inductive Reason where
  | invalidStart
  | invalidContinuation
  | unexpectedEnd
  deriving DecidableEq, Repr

/-- The words for a reason. -/
def Reason.text : Reason → String
  | .invalidStart => "invalid start byte"
  | .invalidContinuation => "invalid continuation byte"
  | .unexpectedEnd => "unexpected end of data"

/-- The bytes at which reading fails: the position of the first, its value and their number. -/
structure Fault where
  start : Nat
  first : UInt8
  count : Nat
  reason : Reason
  deriving DecidableEq, Repr

/-- The message for bytes that a decoder refuses. The single byte is named by its value when it is
known, and several bytes by their first and last position. -/
def refusal (codec : String) (first : Option UInt8) (start count : Int) (reason : String) :
    String :=
  let lead := s!"'{codec}' codec can't decode "
  match first with
  | some byte =>
    if count = 1 then
      let value := String.ofList (Quoted.hexadecimal 2 byte.toNat)
      s!"{lead}byte 0x{value} in position {start}: {reason}"
    else s!"{lead}bytes in position {start}-{start + count - 1}: {reason}"
  | none => s!"{lead}bytes in position {start}-{start + count - 1}: {reason}"

/-- The message of a fault. -/
def Fault.message (f : Fault) : String :=
  refusal "utf-8" (some f.first) f.start f.count f.reason.text

/-- A character of which the first bytes have been read: where it starts, its first byte, the bits
collected so far, and the intervals of the bytes still owed, the next one apart from the others. -/
structure Partial where
  start : Nat
  first : UInt8
  bits : Nat
  next : Nat × Nat
  later : List (Nat × Nat)

/-- The interval of an ordinary continuation byte. -/
def continuation : Nat × Nat := (0x80, 0xBF)

/-- The character begun by a byte at a position, if a multi-byte character can begin with it. -/
def begin (start : Nat) (byte : UInt8) : Option Partial :=
  let b := byte.toNat
  if 0xC2 ≤ b ∧ b ≤ 0xDF then some ⟨start, byte, b - 0xC0, continuation, []⟩
  else if b = 0xE0 then some ⟨start, byte, 0, (0xA0, 0xBF), [continuation]⟩
  else if b = 0xED then some ⟨start, byte, 0xD, (0x80, 0x9F), [continuation]⟩
  else if 0xE1 ≤ b ∧ b ≤ 0xEF then some ⟨start, byte, b - 0xE0, continuation, [continuation]⟩
  else if b = 0xF0 then some ⟨start, byte, 0, (0x90, 0xBF), [continuation, continuation]⟩
  else if b = 0xF4 then some ⟨start, byte, 4, (0x80, 0x8F), [continuation, continuation]⟩
  else if 0xF1 ≤ b ∧ b ≤ 0xF3 then
    some ⟨start, byte, b - 0xF0, continuation, [continuation, continuation]⟩
  else none

/-- The fault of a begun character that the position reached cannot go on with. -/
def Partial.fault (p : Partial) (position : Nat) (reason : Reason) : Fault :=
  ⟨p.start, p.first, position - p.start, reason⟩

/-- Reads the bytes from a position on, inside the given character or between two. -/
def decodeFrom : Nat → Option Partial → List UInt8 → Except Fault (List Char)
  | _, none, [] => .ok []
  | position, some p, [] => .error (p.fault position .unexpectedEnd)
  | position, none, byte :: rest =>
    if byte < 0x80 then (Char.ofNat byte.toNat :: ·) <$> decodeFrom (position + 1) none rest
    else
      match begin position byte with
      | some p => decodeFrom (position + 1) (some p) rest
      | none => .error ⟨position, byte, 1, .invalidStart⟩
  | position, some p, byte :: rest =>
    if p.next.1 ≤ byte.toNat ∧ byte.toNat ≤ p.next.2 then
      let bits := p.bits * 64 + (byte.toNat - 0x80)
      match p.later with
      | [] => (Char.ofNat bits :: ·) <$> decodeFrom (position + 1) none rest
      | next :: later => decodeFrom (position + 1) (some { p with bits, next, later }) rest
    else .error (p.fault position .invalidContinuation)

/-- Reads a byte sequence as text. -/
def decode (bytes : List UInt8) : Except Fault (List Char) :=
  decodeFrom 0 none bytes

end TeenyBasic.Text.Utf8
