import Mathlib.Data.List.DropRight
import TeenyBasic.Cursor

/-!
# Places of cursors

A cursor counts lines and columns character by character. Both are determined by the text it has
moved over: the line by the number of line feeds in that text, the column by the distance from the
start of its last line. The text that a cursor quotes in messages starts there as well.

The main statement is `isBehind_advanceBy`: whatever a cursor moves over, all of this stays true.
-/

namespace TeenyBasic

/-- The number of characters before the last line of a text. -/
def lineStart (text : List Char) : Nat :=
  (text.rdropWhile (· ≠ '\n')).length

theorem lineStart_nil : lineStart [] = 0 := by
  simp [lineStart]

theorem lineStart_concat_lineFeed (text : List Char) :
    lineStart (text ++ ['\n']) = text.length + 1 := by
  rw [lineStart, List.rdropWhile_concat_neg _ _ _ (by simp), List.length_append,
    List.length_singleton]

theorem lineStart_concat_of_ne {c : Char} (text : List Char) (h : c ≠ '\n') :
    lineStart (text ++ [c]) = lineStart text := by
  rw [lineStart, lineStart, List.rdropWhile_concat_pos _ _ _ (by simpa using h)]

/-- The place of what follows a text: behind all its line feeds, and as far from the start of the
last line as that line is long. -/
def Location.behind (file : String) (front : List Char) : Location where
  file := file
  line := front.count '\n' + 1
  column := front.length - lineStart front + 1

theorem lineStart_append_of_not_mem (text : List Char) {more : List Char} (h : '\n' ∉ more) :
    lineStart (text ++ more) = lineStart text := by
  induction more using List.reverseRecOn with
  | nil => rw [List.append_nil]
  | append_singleton more c ih =>
    simp only [List.mem_append, List.mem_singleton, not_or] at h
    rw [← List.append_assoc, lineStart_concat_of_ne _ (Ne.symm h.2), ih h.1]

theorem eq_nil_of_behind_append {file : String} {front more : List Char}
    (h : Location.behind file (front ++ more) = .behind file front) : more = [] := by
  simp only [Location.behind, Location.mk.injEq, true_and, List.count_append,
    List.length_append] at h
  have hfeeds : '\n' ∉ more := by
    rw [← List.count_eq_zero]
    omega
  rw [lineStart_append_of_not_mem front hfeeds] at h
  rw [← List.length_eq_zero_iff]
  omega

namespace Cursor

/-- A cursor that has moved over a text. -/
structure IsBehind (c : Cursor) (front : List Char) : Prop where
  position_eq : c.position = front.length
  line_eq : c.line = front.count '\n' + 1
  column_eq : c.column + lineStart front = front.length + 1
  lineText_eq : c.lineText = (front ++ c.rest).drop (lineStart front)

theorem isBehind_start (file source : String) : (start file source).IsBehind [] where
  position_eq := rfl
  line_eq := rfl
  column_eq := by rw [lineStart_nil]; rfl
  lineText_eq := by rw [lineStart_nil]; rfl

variable {c : Cursor} {front rest : List Char}

/-- The place of a cursor is the one behind the text it has moved over. -/
theorem IsBehind.location_eq (h : c.IsBehind front) : c.location = .behind c.file front := by
  have hline : (c.line : Int) = front.count '\n' + 1 := by rw [h.line_eq]; rfl
  have hcolumn : (c.column : Int) = front.length - lineStart front + 1 := by
    have hsum := h.column_eq
    omega
  rw [location, Location.behind, hline, hcolumn]

theorem advance_of_nil (h : c.rest = []) : c.advance = c := by
  simp [advance, h]

theorem isBehind_advance_lineFeed (h : c.IsBehind front) (hrest : c.rest = '\n' :: rest) :
    c.advance.IsBehind (front ++ ['\n']) := by
  have hstart := lineStart_concat_lineFeed front
  have hadvance : c.advance = { c with
      rest, position := c.position + 1, line := c.line + 1, column := 1, lineText := rest } := by
    simp [advance, hrest]
  rw [hadvance]
  constructor
  · simp [h.position_eq]
  · simp [h.line_eq]
  · simp only [hstart, List.length_append, List.length_singleton]
    omega
  · have hlength : lineStart (front ++ ['\n']) = (front ++ ['\n']).length := by simp [hstart]
    rw [hlength, List.drop_left]

theorem isBehind_advance_of_ne {char : Char} (h : c.IsBehind front)
    (hrest : c.rest = char :: rest) (hchar : char ≠ '\n') :
    c.advance.IsBehind (front ++ [char]) := by
  have hstart := lineStart_concat_of_ne front hchar
  have hadvance : c.advance =
      { c with rest, position := c.position + 1, column := c.column + 1 } := by
    unfold advance
    split
    · rename_i hnil
      rw [hrest] at hnil
      cases hnil
    · rename_i hfeed
      rw [hrest] at hfeed
      exact absurd (List.cons.inj hfeed).1 hchar
    · rename_i htail
      rw [hrest] at htail
      rw [(List.cons.inj htail).2]
  rw [hadvance]
  constructor
  · simp [h.position_eq]
  · simp [h.line_eq, hchar]
  · have hsum := h.column_eq
    simp only [hstart, List.length_append, List.length_singleton]
    omega
  · simp [hstart, h.lineText_eq, hrest]

theorem isBehind_advance {char : Char} (h : c.IsBehind front) (hrest : c.rest = char :: rest) :
    c.advance.IsBehind (front ++ [char]) := by
  by_cases hchar : char = '\n'
  · subst hchar
    exact isBehind_advance_lineFeed h hrest
  · exact isBehind_advance_of_ne h hrest hchar

theorem isBehind_advanceBy (n : Nat) (h : c.IsBehind front) :
    (c.advanceBy n).IsBehind (front ++ c.rest.take n) := by
  induction n generalizing c front with
  | zero => simpa [advanceBy] using h
  | succ n ih =>
    cases hrest : c.rest with
    | nil =>
      have hnext := ih h
      rw [hrest, List.take_nil] at hnext
      rw [advanceBy, advance_of_nil hrest, List.take_nil]
      exact hnext
    | cons char rest =>
      have hnext := ih (isBehind_advance h hrest)
      rw [rest_advance, hrest, List.tail_cons, List.append_assoc, List.singleton_append] at hnext
      rw [advanceBy, List.take_succ_cons]
      exact hnext

theorem rest_of_isPrefix {text : List Char} (h : text <+: c.rest) :
    c.rest = text ++ (c.advanceBy text.length).rest := by
  obtain ⟨tail, htail⟩ := h
  rw [rest_advanceBy, ← htail, List.drop_left]

theorem IsBehind.of_isPrefix {text : List Char} (h : c.IsBehind front) (htext : text <+: c.rest) :
    (c.advanceBy text.length).IsBehind (front ++ text) := by
  have hmoved := isBehind_advanceBy text.length h
  rw [← List.prefix_iff_eq_take.mp htext] at hmoved
  exact hmoved

end Cursor

end TeenyBasic
