import TeenyBasic.Proofs.Lexing.Fault
import TeenyBasic.Text.Lines

/-!
# Lines at places

A message quotes the line of the place it is about. There are two ways to that line: a cursor keeps
the text from the start of its line, and a generator looks the line up by its number. Both give the
same line, and from the column of the place on the line goes on with the text that stands there.

The main statements are `IsPlace.exists_line` and, for a cursor that fails, `exists_place_of_next`.
-/

namespace TeenyBasic

namespace Text

theorem lines_eq_splitOn (text : List Char) : lines text = text.splitOn '\n' := by
  induction text with
  | nil => rfl
  | cons c rest ih =>
    rw [lines, ih, List.splitOn, List.splitOn, List.splitOnP_cons_eq_if_modifyHead]
    simp only [beq_iff_eq]
    split
    · rfl
    · cases h : List.splitOnP (· == '\n') rest with
      | nil => exact absurd h (List.splitOnP_ne_nil _ _)
      | cons first others => rfl

theorem lines_append_lineFeed (front rest : List Char) :
    lines (front ++ '\n' :: rest) = lines front ++ lines rest := by
  simp only [lines_eq_splitOn, List.splitOn]
  exact List.splitOnP_append_cons front rest (by simp)

theorem lines_intercalate {pieces : List String} (hne : pieces ≠ [])
    (h : ∀ piece ∈ pieces, '\n' ∉ piece.toList) :
    lines ("\n".intercalate pieces).toList = pieces.map String.toList := by
  rw [lines_eq_splitOn, String.toList_intercalate]
  exact List.splitOn_intercalate '\n' (by simpa using h) (by simpa using hne)

end Text

theorem lineStart_le_length (text : List Char) : lineStart text ≤ text.length :=
  (List.rdropWhile_prefix _ _).length_le

theorem lineFeed_not_mem_drop_lineStart (text : List Char) :
    '\n' ∉ text.drop (lineStart text) := by
  induction text using List.reverseRecOn with
  | nil => simp
  | append_singleton text c ih =>
    by_cases hc : c = '\n'
    · subst hc
      have hstart : lineStart (text ++ ['\n']) = (text ++ ['\n']).length := by
        rw [lineStart_concat_lineFeed, List.length_append, List.length_singleton]
      rw [hstart, List.drop_length]
      simp
    · rw [lineStart_concat_of_ne text hc, List.drop_append_of_le_length (lineStart_le_length text)]
      simpa [ih] using Ne.symm hc

/-- The line that a text ends in, when more text follows. -/
theorem getElem?_lines_append (front rest : List Char) :
    (Text.lines (front ++ rest))[front.count '\n']? =
      some (front.drop (lineStart front) ++ rest.takeWhile (· ≠ '\n')) := by
  induction front using List.reverseRecOn generalizing rest with
  | nil =>
    have hfirst := Text.head?_lines rest
    rw [List.head?_eq_getElem?] at hfirst
    simpa using hfirst
  | append_singleton front c ih =>
    rw [List.append_assoc, List.singleton_append]
    by_cases hc : c = '\n'
    · subst hc
      have hindex : (front ++ ['\n']).count '\n' = (Text.lines front).length := by
        simp [Text.length_lines]
      have hstart : lineStart (front ++ ['\n']) = (front ++ ['\n']).length := by
        rw [lineStart_concat_lineFeed, List.length_append, List.length_singleton]
      have hfirst := Text.head?_lines rest
      rw [List.head?_eq_getElem?] at hfirst
      rw [Text.lines_append_lineFeed, hindex, List.getElem?_append_right (Nat.le_refl _),
        Nat.sub_self, hfirst, hstart, List.drop_length, List.nil_append]
    · have hcount : (front ++ [c]).count '\n' = front.count '\n' := by simp [hc]
      rw [hcount, ih (c :: rest), lineStart_concat_of_ne front hc,
        List.drop_append_of_le_length (lineStart_le_length front)]
      simp [hc]

/-- A place in a source text, in front of the given rest of it. -/
def IsPlace (file source : String) (location : Location) (rest : List Char) : Prop :=
  ∃ front, Cursor.closed source = front ++ rest ∧ location = .behind file front

section

variable {file source : String} {location : Location} {rest : List Char}

/-- A place has the number of a line and a column in that line, and the line goes on there with what
stands in front of the next line feed. -/
theorem IsPlace.exists_line (h : IsPlace file source location rest) :
    ∃ (line column : Nat) (text : List Char), location = ⟨file, line, column⟩ ∧
      1 ≤ line ∧ line ≤ (Text.lines (Cursor.closed source)).length ∧
      (Text.lines (Cursor.closed source))[line - 1]? = some text ∧ '\n' ∉ text ∧
      1 ≤ column ∧ column ≤ text.length + 1 ∧
      text.drop (column - 1) = rest.takeWhile (· ≠ '\n') := by
  obtain ⟨front, hclosed, rfl⟩ := h
  have hle := lineStart_le_length front
  have hline := getElem?_lines_append front rest
  rw [← hclosed] at hline
  refine ⟨front.count '\n' + 1, front.length - lineStart front + 1, _, ?_, by omega, ?_, hline,
    ?_, by omega, ?_, ?_⟩
  · rw [Location.behind, Location.mk.injEq]
    refine ⟨rfl, by push_cast; rfl, ?_⟩
    omega
  · exact (List.getElem?_eq_some_iff.mp hline).1
  · have hfront := lineFeed_not_mem_drop_lineStart front
    have hrest : '\n' ∉ rest.takeWhile (· ≠ '\n') := fun hmem ↦ by
      simpa using List.mem_takeWhile_imp hmem
    simpa [hfront] using hrest
  · simp
  · rw [Nat.add_sub_cancel, ← List.length_drop, List.drop_left]

theorem line?_eq_some {line column : Nat} {text : List Char} (hpositive : 1 ≤ line)
    (htext : (Text.lines (Cursor.closed source))[line - 1]? = some text) :
    Text.line? (Cursor.closed source) (Location.mk file line column).line =
      some (String.ofList text) := by
  have hline : (0 : Int) < line := by omega
  rw [Text.line?, if_pos hline, Int.toNat_natCast, htext]
  rfl

end

namespace Cursor

variable {c : Cursor} {front : List Char} {source : String}

theorem IsBehind.currentLine_eq (h : c.IsBehind front) (hclosed : closed source = front ++ c.rest) :
    some c.currentLine = Text.line? (closed source) c.location.line := by
  have hkept : c.lineText.takeWhile (· ≠ '\n') =
      front.drop (lineStart front) ++ c.rest.takeWhile (· ≠ '\n') := by
    rw [h.lineText_eq, List.drop_append_of_le_length (lineStart_le_length front),
      List.takeWhile_append_of_pos]
    intro char hchar
    have hfeed := lineFeed_not_mem_drop_lineStart front
    simpa using fun heq : char = '\n' ↦ hfeed (heq ▸ hchar)
  have hline := getElem?_lines_append front c.rest
  rw [← hclosed, ← hkept] at hline
  have hnumber : c.location.line = ((front.count '\n' + 1 : Nat) : Int) := by
    rw [h.location_eq]
    rfl
  rw [Text.line?, hnumber, if_pos (by omega), Int.toNat_natCast, Nat.add_sub_cancel, hline]
  rfl

/-- A cursor that fails gives the place of the fault in its text, and the line of that place. -/
theorem exists_place_of_next {c' : Cursor} {fault : Diagnostic} (h : next c = .error fault c')
    (hbehind : c.IsBehind front) (hclosed : closed source = front ++ c.rest) :
    ∃ text offset location, Lexeme.FaultsAt text fault.cause offset ∧
      fault.location = some location ∧ IsPlace c.file source location (text.drop offset) ∧
      fault.sourceLine = Text.line? (closed source) location.line := by
  simp only [next, take] at h
  split at h
  · cases h
  · rename_i cause offset hscan
    cases h
    have hskipped : c.skipGap.IsBehind (front ++ Lexeme.gap c.rest) :=
      hbehind.of_isPrefix (Lexeme.gap_isPrefix c.rest)
    have hmoved := isBehind_advanceBy offset hskipped
    have htext : closed source = front ++ Lexeme.gap c.rest ++ c.skipGap.rest := by
      have hsplit := rest_of_isPrefix (Lexeme.gap_isPrefix c.rest)
      rw [hclosed, List.append_assoc]
      exact congrArg (front ++ ·) hsplit
    have hparts : closed source = front ++ Lexeme.gap c.rest ++ c.skipGap.rest.take offset ++
        (c.skipGap.advanceBy offset).rest := by
      rw [rest_advanceBy, List.append_assoc, List.take_append_drop, htext]
    refine ⟨c.skipGap.rest, offset, _, Lexeme.faultsAt_of_scan hscan, rfl, ?_, ?_⟩
    · rw [← rest_advanceBy]
      refine ⟨_, hparts, ?_⟩
      rw [hmoved.location_eq, file_advanceBy, skipGap, file_advanceBy]
    · exact hmoved.currentLine_eq hparts

end Cursor

end TeenyBasic
