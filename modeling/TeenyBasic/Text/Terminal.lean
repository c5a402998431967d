/-!
# Plain terminal text

Messages are written to streams that are not terminals, so control sequences for colours and cursor
movement are left out. A sequence is an escape character, an opening bracket, any number of
parameter characters and one final letter; an escape character that begins no sequence is kept.
-/

namespace TeenyBasic.Text.Terminal

/-- The escape character. -/
def escape : Char := '\x1b'

/-- Decides whether a character may stand among the parameters of a control sequence. -/
def isParameter (c : Char) : Bool :=
  c = ';' || c = '?' || c.isDigit

/-- The number of characters in the control sequence that a text starts with, zero if none. -/
def sequenceLength : List Char → Nat
  | first :: '[' :: rest =>
    if first = escape then
      match rest.dropWhile isParameter with
      | final :: _ =>
        if final.isAlpha then (rest.takeWhile isParameter).length + 3 else 0
      | [] => 0
    else 0
  | _ => 0

/-- Leaves out the given number of characters and then every control sequence. -/
def plainAfter : Nat → List Char → List Char
  | _, [] => []
  | skip + 1, _ :: rest => plainAfter skip rest
  | 0, c :: rest =>
    match sequenceLength (c :: rest) with
    | 0 => c :: plainAfter 0 rest
    | skip + 1 => plainAfter skip rest

/-- A text without its control sequences. -/
def plain (text : String) : String :=
  String.ofList (plainAfter 0 text.toList)

theorem plainAfter_of_not_mem (text : List Char) (h : escape ∉ text) :
    plainAfter 0 text = text := by
  induction text with
  | nil => rfl
  | cons c rest ih =>
    have hc : c ≠ escape := fun hc ↦ h (by simp [hc])
    have hlength : sequenceLength (c :: rest) = 0 := by
      unfold sequenceLength
      split <;> simp_all
    simp [plainAfter, hlength, ih (fun hr ↦ h (by simp [hr]))]

end TeenyBasic.Text.Terminal
