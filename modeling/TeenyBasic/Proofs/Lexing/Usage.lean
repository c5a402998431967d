import TeenyBasic.Proofs.Lexing.Concatenation
import TeenyBasic.Proofs.Lexing.Excerpt

/-!
# Cursors under any use

A cursor can be asked for tokens, for single characters and for its line in any order, and also
after a pull has failed. Whatever it is asked for, all it does is to move over some of the
characters in front of it. So its line, its column and the line that it quotes are at all times
those of its position in the text, and it never goes back. Pulling only some of the tokens of a
stream is pulling them one by one.

A pull that gives a token other than the end of the input moves the cursor. The end of the input is
given only where the text ends, and from there nothing moves the cursor. Hence a stream holds at
most one token more than there are characters to be read.

The main statement is `standsIn_afterAll`.
-/

namespace TeenyBasic.Cursor

/-- What can be asked of a cursor. -/
inductive Request where
  | pull
  | pullAll
  | advance
  | peek (ahead : Nat)
  | currentLine
  | atEnd
  deriving DecidableEq, Repr

/-- What a cursor answers. A character is missing behind the end of the text. -/
inductive Answer where
  | token (token : Token)
  | fault (fault : Diagnostic)
  | tokens (tokens : List Token) (fault : Option Diagnostic)
  | char (char : Option Char)
  | line (text : String)
  | verdict (holds : Bool)
  deriving DecidableEq, Repr

/-- The answer to a request, and where the cursor stands then. -/
def serve (c : Cursor) : Request → Answer × Cursor
  | .pull =>
    match next c with
    | .ok token c' => (.token token, c')
    | .error fault c' => (.fault fault, c')
  | .pullAll => (.tokens c.stream.tokens c.stream.fault, c.stream.stop)
  | .advance => (.char (c.peek? 0), c.advance)
  | .peek ahead => (.char (c.peek? ahead), c)
  | .currentLine => (.line c.currentLine, c)
  | .atEnd => (.verdict c.atEnd, c)

/-- Where a cursor stands after requests, whether they have failed or not. -/
def afterAll (c : Cursor) (requests : List Request) : Cursor :=
  requests.foldl (fun c request ↦ (c.serve request).2) c

/-- A cursor that has come from another by moving over characters. -/
def Reaches (c c' : Cursor) : Prop :=
  ∃ n, c' = c.advanceBy n

section

variable {c c' c'' : Cursor}

theorem Reaches.refl (c : Cursor) : c.Reaches c :=
  ⟨0, rfl⟩

theorem Reaches.trans (h : c.Reaches c') (h' : c'.Reaches c'') : c.Reaches c'' := by
  obtain ⟨m, rfl⟩ := h
  obtain ⟨n, rfl⟩ := h'
  exact ⟨m + n, (advanceBy_add m n c).symm⟩

theorem reaches_of_next {token : Token} (h : next c = .ok token c') : c.Reaches c' := by
  have hgap : c.Reaches c.skipGap := ⟨_, rfl⟩
  simp only [next, take] at h
  split at h
  · cases h
    exact hgap.trans ⟨_, rfl⟩
  · cases h

theorem reaches_of_next_error {fault : Diagnostic} (h : next c = .error fault c') :
    c.Reaches c' := by
  have hgap : c.Reaches c.skipGap := ⟨_, rfl⟩
  simp only [next, take] at h
  split at h
  · cases h
  · cases h
    exact hgap.trans ⟨_, rfl⟩

theorem reaches_stream (c : Cursor) : c.Reaches c.stream.stop := by
  fun_induction stream c with
  | case1 c fault stop hnext => exact reaches_of_next_error hnext
  | case2 c token c' hnext hkind => exact reaches_of_next hnext
  | case3 c token c' hnext hkind later ih => exact (reaches_of_next hnext).trans ih

/-- All that a request can do to a cursor is to move it ahead. -/
theorem reaches_serve (c : Cursor) (request : Request) : c.Reaches (c.serve request).2 := by
  cases request with
  | pull =>
    unfold serve
    cases hnext : next c with
    | ok token c' => exact reaches_of_next hnext
    | error fault c' => exact reaches_of_next_error hnext
  | pullAll => exact reaches_stream c
  | advance => exact ⟨1, rfl⟩
  | peek ahead => exact .refl c
  | currentLine => exact .refl c
  | atEnd => exact .refl c

theorem reaches_afterAll (c : Cursor) (requests : List Request) :
    c.Reaches (c.afterAll requests) := by
  induction requests generalizing c with
  | nil => exact .refl c
  | cons request requests ih => exact (reaches_serve c request).trans (ih _)

theorem position_advance_add (c : Cursor) :
    c.advance.position + c.rest.tail.length = c.position + c.rest.length := by
  unfold advance
  split
  · rename_i hrest
    rw [hrest, List.tail_nil]
  · rename_i hrest
    rw [hrest, List.tail_cons, List.length_cons]
    exact Nat.add_right_comm _ _ _
  · rename_i hrest
    rw [hrest, List.tail_cons, List.length_cons]
    exact Nat.add_right_comm _ _ _

/-- What has been read and what is left add up to the same at all times. -/
theorem Reaches.position_add_length (h : c.Reaches c') :
    c'.position + c'.rest.length = c.position + c.rest.length := by
  obtain ⟨n, rfl⟩ := h
  induction n generalizing c with
  | zero => rfl
  | succ n ih => rw [advanceBy, ih, rest_advance, position_advance_add]

theorem Reaches.position_le (h : c.Reaches c') : c.position ≤ c'.position := by
  have hsum := h.position_add_length
  obtain ⟨n, rfl⟩ := h
  rw [rest_advanceBy, List.length_drop] at hsum
  omega

theorem Reaches.eq_of_rest_eq_nil (h : c.Reaches c') (hnil : c.rest = []) : c' = c := by
  obtain ⟨n, rfl⟩ := h
  induction n with
  | zero => rfl
  | succ n ih => rw [advanceBy, advance_of_nil hnil, ih]

end

/-- The offset at which the line starts whose text a cursor keeps. -/
def lineOffset (c : Cursor) : Nat :=
  c.position + c.rest.length - c.lineText.length

/-- A cursor whose line, column and kept text are those of its position in a text. Its line starts
behind the last line feed that it has passed, or at the start of the text if it has passed none. -/
structure StandsIn (c : Cursor) (text : List Char) : Prop where
  position_le : c.position ≤ text.length
  rest_eq : c.rest = text.drop c.position
  line_eq : c.line = 1 + (text.take c.position).count '\n'
  lineOffset_le : c.lineOffset ≤ c.position
  lineText_eq : c.lineText = text.drop c.lineOffset
  lineFeed_before : c.lineOffset = 0 ∨ text[c.lineOffset - 1]? = some '\n'
  lineFeed_not_mem : '\n' ∉ (text.take c.position).drop c.lineOffset
  column_eq : c.column = c.position - c.lineOffset + 1
  currentLine_eq : (text.splitOn '\n')[c.line - 1]? = some c.currentLine.toList

end Cursor

theorem getElem?_lineStart (text : List Char) :
    lineStart text = 0 ∨ text[lineStart text - 1]? = some '\n' := by
  induction text using List.reverseRecOn with
  | nil => exact .inl lineStart_nil
  | append_singleton text c ih =>
    by_cases hc : c = '\n'
    · subst hc
      right
      rw [lineStart_concat_lineFeed, Nat.add_sub_cancel, List.getElem?_concat_length]
    · rw [lineStart_concat_of_ne text hc]
      rcases ih with hzero | hfeed
      · exact .inl hzero
      · right
        rw [List.getElem?_append_left (List.getElem?_eq_some_iff.mp hfeed).1]
        exact hfeed

namespace Cursor

section

variable {c : Cursor} {front : List Char}

theorem IsBehind.lineOffset_eq (h : c.IsBehind front) : c.lineOffset = lineStart front := by
  have hle := lineStart_le_length front
  rw [lineOffset, h.position_eq, h.lineText_eq, List.length_drop, List.length_append]
  omega

theorem IsBehind.standsIn {source : String} (h : c.IsBehind front)
    (hclosed : closed source = front ++ c.rest) : c.StandsIn (closed source) := by
  have hoffset := h.lineOffset_eq
  have hle := lineStart_le_length front
  have hsum := h.column_eq
  have htake : (closed source).take c.position = front := by
    rw [hclosed, h.position_eq, List.take_left]
  exact {
    position_le := by
      rw [hclosed, h.position_eq, List.length_append]
      omega
    rest_eq := by rw [hclosed, h.position_eq, List.drop_left]
    line_eq := by rw [htake, h.line_eq, Nat.add_comm]
    lineOffset_le := by rw [hoffset, h.position_eq]; exact hle
    lineText_eq := by rw [hclosed, hoffset, h.lineText_eq]
    lineFeed_before := by
      rw [hoffset, hclosed]
      rcases getElem?_lineStart front with hzero | hfeed
      · exact .inl hzero
      · right
        rw [List.getElem?_append_left (List.getElem?_eq_some_iff.mp hfeed).1]
        exact hfeed
    lineFeed_not_mem := by
      rw [htake, hoffset]
      exact lineFeed_not_mem_drop_lineStart front
    column_eq := by
      rw [hoffset, h.position_eq]
      omega
    currentLine_eq := by
      have hline : some c.currentLine = Text.line? (closed source) c.line :=
        h.currentLine_eq hclosed
      have hpositive : (0 : Int) < c.line := by
        rw [h.line_eq]
        omega
      rw [Text.line?, if_pos hpositive, Int.toNat_natCast, Text.lines_eq_splitOn] at hline
      obtain ⟨line, hfound, hsame⟩ := Option.map_eq_some_iff.mp hline.symm
      rw [hfound, ← hsame, String.toList_ofList] }

/-- Wherever a cursor comes to from the start of a text, it stands in the text. -/
theorem Reaches.standsIn {file source : String} (h : (start file source).Reaches c) :
    c.StandsIn (closed source) := by
  obtain ⟨n, rfl⟩ := h
  have hbehind := isBehind_advanceBy n (isBehind_start file source)
  apply hbehind.standsIn
  rw [List.nil_append, rest_advanceBy]
  exact (List.take_append_drop n _).symm

end

theorem length_tokens_stream_le (c : Cursor) : c.stream.tokens.length ≤ c.rest.length + 1 := by
  fun_induction stream c with
  | case1 c fault stop hnext => simp
  | case2 c token c' hnext hkind => simp
  | case3 c token c' hnext hkind later ih =>
    have hshorter := next_shortens hnext hkind
    simp only [later, List.length_cons]
    omega

theorem rest_stop_eq_nil {c : Cursor} (h : c.stream.fault = none) : c.stream.stop.rest = [] := by
  fun_induction stream c with
  | case1 c fault stop hnext => cases h
  | case2 c token c' hnext hkind => exact rest_eq_nil_of_next hnext hkind
  | case3 c token c' hnext hkind later ih => exact ih h

/-- How a cursor gets on in a text. -/
structure GetsOnIn (c : Cursor) (text : List Char) : Prop where
  /-- No request takes it back. -/
  position_le : ∀ requests, c.position ≤ (c.afterAll requests).position
  /-- A pull that gives a token other than the end of the input moves it. -/
  position_lt : ∀ token c', next c = .ok token c' → token.kind ≠ .endOfInput →
    c.position < c'.position
  /-- The end of the input is given at the end of the text, and from then on nothing moves it. -/
  endOfInput : ∀ token c', next c = .ok token c' → token.kind = .endOfInput →
    c.position = text.length ∧ c' = c ∧ ∀ requests, c.afterAll requests = c
  /-- At the end of the text a pull gives the end of the input. -/
  atEnd : c.position = text.length →
    ∃ token, next c = .ok token c ∧ token.kind = .endOfInput
  /-- A stream is at most one token longer than the text. -/
  length_tokens_le : c.stream.tokens.length ≤ text.length + 1
  /-- A stream without a fault ends at the end of the text, with the end of the input. -/
  ends : c.stream.fault = none → c.stream.stop.position = text.length ∧
    ∃ inner last, c.stream.tokens = inner ++ [last] ∧ last.kind = .endOfInput ∧
      ∀ token ∈ inner, token.kind ≠ .endOfInput

section

variable {file source : String} {c : Cursor}

theorem Reaches.isClosed (h : (start file source).Reaches c) : c.IsClosed := by
  obtain ⟨n, rfl⟩ := h
  apply (isClosed_start file source).of_suffix
  rw [rest_advanceBy]
  exact List.drop_suffix n _

theorem StandsIn.rest_eq_nil_iff {text : List Char} (h : c.StandsIn text) :
    c.rest = [] ↔ c.position = text.length := by
  have hle := h.position_le
  rw [h.rest_eq, List.drop_eq_nil_iff]
  omega

theorem Reaches.getsOnIn (h : (start file source).Reaches c) : c.GetsOnIn (closed source) := by
  have hstands := h.standsIn
  exact {
    position_le := fun requests ↦ (reaches_afterAll c requests).position_le
    position_lt := fun token c' hnext hkind ↦ by
      have hsum := (reaches_of_next hnext).position_add_length
      have hshorter := next_shortens hnext hkind
      omega
    endOfInput := fun token c' hnext hkind ↦ by
      have hnil := h.isClosed.rest_eq_nil hnext hkind
      exact ⟨hstands.rest_eq_nil_iff.mp hnil, (reaches_of_next hnext).eq_of_rest_eq_nil hnil,
        fun requests ↦ (reaches_afterAll c requests).eq_of_rest_eq_nil hnil⟩
    atEnd := fun hend ↦ ⟨_, next_of_nil (hstands.rest_eq_nil_iff.mpr hend), rfl⟩
    length_tokens_le := by
      have hstream := length_tokens_stream_le c
      rw [hstands.rest_eq, List.length_drop] at hstream
      omega
    ends := fun hfault ↦ by
      have hstop := (h.trans (reaches_stream c)).standsIn
      exact ⟨hstop.rest_eq_nil_iff.mp (rest_stop_eq_nil hfault), exists_last_of_stream hfault⟩ }

end

/-- Whatever a cursor at the start of a text has been asked for, and whichever requests have failed,
its line, its column and the line that it quotes are those of its position, and it gets on up to the
end of the text and no further. -/
theorem standsIn_afterAll (file source : String) (requests : List Request) :
    ((start file source).afterAll requests).StandsIn (closed source) ∧
      ((start file source).afterAll requests).GetsOnIn (closed source) := by
  have hreaches := reaches_afterAll (start file source) requests
  exact ⟨hreaches.standsIn, hreaches.getsOnIn⟩

/-- A number that breaks off leaves the cursor behind the decimal point. From there it can be moved
on by a character, into the next line, and the next pull moves it over the blanks and the word. -/
theorem standsIn_afterAll_brokenNumber :
    let c := (start "t" "1.\n  x").afterAll [.pull, .peek 4, .advance, .currentLine]
    c.position = 3 ∧ c.line = 2 ∧ c.currentLine = "  x" ∧ c.StandsIn (closed "1.\n  x") ∧
      ∃ c', next c = .ok ⟨.identifier, "x", ⟨"t", 2, 3⟩⟩ c' ∧ c.position < c'.position := by
  intro c
  obtain ⟨hstands, hgets⟩ :=
    standsIn_afterAll "t" "1.\n  x" [.pull, .peek 4, .advance, .currentLine]
  have hnext : next c = .ok ⟨.identifier, "x", ⟨"t", 2, 3⟩⟩ (c.advanceBy 3) := rfl
  exact ⟨by decide +kernel, by decide +kernel, by decide +kernel, hstands, _, hnext,
    hgets.position_lt _ _ hnext (by decide)⟩

end TeenyBasic.Cursor
