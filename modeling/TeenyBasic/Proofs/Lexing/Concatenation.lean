import TeenyBasic.Proofs.Lexing.Layout

/-!
# Texts behind one another

No lexeme goes on behind its line, and neither does a comment. So a text that ends with a line feed
is divided into the same tokens whatever stands behind it, and what stands behind it is divided as
if it stood alone, only at other places.

The main statement is `exists_stream_append`.
-/

namespace TeenyBasic

namespace Lexeme

section

variable {p : Char → Bool} {text : List Char}

theorem takeWhile_append_of_mem {c : Char} (hc : c ∈ text) (hp : p c = false) (more : List Char) :
    (text ++ more).takeWhile p = text.takeWhile p := by
  induction text with
  | nil => simp at hc
  | cons first rest ih =>
    rcases List.mem_cons.mp hc with rfl | hrest
    · simp [hp]
    · rw [List.cons_append, List.takeWhile_cons, List.takeWhile_cons, ih hrest]

theorem dropWhile_append_of_mem {c : Char} (hc : c ∈ text) (hp : p c = false) (more : List Char) :
    (text ++ more).dropWhile p = text.dropWhile p ++ more := by
  induction text with
  | nil => simp at hc
  | cons first rest ih =>
    rcases List.mem_cons.mp hc with rfl | hrest
    · simp [hp]
    · rw [List.cons_append, List.dropWhile_cons, List.dropWhile_cons, ih hrest]
      split <;> rfl

theorem mem_dropWhile_of_mem {c : Char} (hc : c ∈ text) (hp : p c = false) :
    c ∈ text.dropWhile p := by
  induction text with
  | nil => simp at hc
  | cons first rest ih =>
    rw [List.dropWhile_cons]
    split
    · rename_i hfirst
      rcases List.mem_cons.mp hc with rfl | hrest
      · rw [hp] at hfirst
        cases hfirst
      · exact ih hrest
    · exact hc

end

variable {text : List Char} (h : '\n' ∈ text) (more : List Char)

include h

theorem comment_append : comment (text ++ more) = comment text := by
  cases text with
  | nil => simp at h
  | cons first rest =>
    by_cases hnote : first = '#'
    · subst hnote
      have hrest : '\n' ∈ rest := by simpa using h
      simp only [comment, List.cons_append]
      rw [takeWhile_append_of_mem hrest (by simp)]
    · simp [comment, hnote]

theorem gap_append : gap (text ++ more) = gap text := by
  have hblank : isBlank '\n' = false := by decide
  rw [gap, gap, takeWhile_append_of_mem h hblank, dropWhile_append_of_mem h hblank,
    comment_append (mem_dropWhile_of_mem h hblank)]

theorem scanString_append : scanString (text ++ more) = scanString text := by
  have hend : isStringText '\n' = false := by decide
  have hrest := mem_dropWhile_of_mem h hend
  simp only [scanString]
  rw [takeWhile_append_of_mem h hend, dropWhile_append_of_mem h hend]
  cases hdrop : text.dropWhile isStringText with
  | nil => simp [hdrop] at hrest
  | cons c tail => rfl

theorem scanNumber_append : scanNumber (text ++ more) = scanNumber text := by
  have hend : Char.isDigit '\n' = false := by decide
  have hrest := mem_dropWhile_of_mem h hend
  simp only [scanNumber]
  rw [takeWhile_append_of_mem h hend, dropWhile_append_of_mem h hend]
  cases hdrop : text.dropWhile Char.isDigit with
  | nil => simp [hdrop] at hrest
  | cons c tail =>
    by_cases hpoint : c = '.'
    · subst hpoint
      have htail : '\n' ∈ tail := by simpa [hdrop] using hrest
      simp only [List.cons_append]
      rw [takeWhile_append_of_mem htail hend]
    · simp [hpoint]

theorem scanWord_append : scanWord (text ++ more) = scanWord text := by
  have hend : Char.isAlphanum '\n' = false := by decide
  rw [scanWord, scanWord, takeWhile_append_of_mem h hend]

omit h in
theorem scanSymbol_append (first : Char) (hne : text ≠ []) :
    scanSymbol first (text ++ more) = scanSymbol first text := by
  obtain ⟨second, rest, rfl⟩ := List.exists_cons_of_ne_nil hne
  unfold scanSymbol
  split <;> simp_all

/-- What stands at the front of a text with a line feed does not depend on what is added to it. -/
theorem scan_append : scan (text ++ more) = scan text := by
  cases text with
  | nil => simp at h
  | cons first rest =>
    simp only [scan, List.cons_append]
    split
    · rfl
    · rename_i hfeed
      have hrest : '\n' ∈ rest := by simpa [Ne.symm hfeed] using h
      rw [scanString_append hrest, scanSymbol_append more first (List.ne_nil_of_mem hrest),
        ← List.cons_append, scanNumber_append h, scanWord_append h]

theorem lineFeed_mem_drop_gap : '\n' ∈ text.drop (gap text).length := by
  obtain ⟨space, hspace⟩ := exists_gap text
  obtain ⟨rest, hrest⟩ := gap_isPrefix text
  have hgap : '\n' ∉ gap text := hspace ▸ lineFeed_not_mem_gap space
  have hdrop : text.drop (gap text).length = rest := by
    calc
      text.drop (gap text).length = (gap text ++ rest).drop (gap text).length := by rw [hrest]
      _ = rest := List.drop_left
  rw [← hrest, List.mem_append] at h
  rw [hdrop]
  exact h.resolve_left hgap

end Lexeme

namespace Cursor

/-- A cursor at the same place of a text that goes on. -/
def extend (c : Cursor) (more : List Char) : Cursor :=
  { c with rest := c.rest ++ more, lineText := c.lineText ++ more }

@[simp] theorem rest_extend (c : Cursor) (more : List Char) :
    (c.extend more).rest = c.rest ++ more :=
  rfl

theorem start_append (file first second : String) :
    start file (first ++ "\n" ++ second) = (start file first).extend (closed second) := by
  simp [start, extend, closed]

theorem advance_extend {c : Cursor} (h : c.rest ≠ []) (more : List Char) :
    (c.extend more).advance = c.advance.extend more := by
  obtain ⟨first, rest, hrest⟩ := List.exists_cons_of_ne_nil h
  by_cases hfeed : first = '\n'
  · subst hfeed
    simp [advance, extend, hrest]
  · simp [advance, extend, hrest]

theorem advanceBy_extend {n : Nat} {c : Cursor} (h : n ≤ c.rest.length) (more : List Char) :
    (c.extend more).advanceBy n = (c.advanceBy n).extend more := by
  induction n generalizing c with
  | zero => rfl
  | succ n ih =>
    have hne : c.rest ≠ [] := List.ne_nil_of_length_pos (by omega)
    have hrest : n ≤ c.advance.rest.length := by
      rw [rest_advance, List.length_tail]
      omega
    rw [advanceBy, advanceBy, advance_extend hne, ih hrest]

section

variable {c c' : Cursor} (h : '\n' ∈ c.rest) (more : List Char)

include h

theorem skipGap_extend : (c.extend more).skipGap = c.skipGap.extend more := by
  rw [skipGap, rest_extend, Lexeme.gap_append h, advanceBy_extend (Lexeme.length_gap_le _)]
  rfl

/-- Before its last line feed, a text gives the same tokens when it goes on. -/
theorem next_extend {token : Token} (hnext : next c = .ok token c') :
    next (c.extend more) = .ok token (c'.extend more) := by
  have hfeed : '\n' ∈ c.skipGap.rest := by
    rw [rest_skipGap]
    exact Lexeme.lineFeed_mem_drop_gap h
  simp only [next, take] at hnext ⊢
  rw [skipGap_extend h, rest_extend, Lexeme.scan_append hfeed]
  cases hscan : Lexeme.scan c.skipGap.rest with
  | fault cause offset =>
    rw [hscan] at hnext
    cases hnext
  | lexeme kind spelling length =>
    have hlength : length ≤ c.skipGap.rest.length := by
      have hextent := Lexeme.extent_scan_le c.skipGap.rest
      rw [hscan] at hextent
      exact hextent
    rw [hscan] at hnext
    cases hnext
    dsimp only
    rw [advanceBy_extend hlength]
    rfl

theorem next_error_extend {fault : Diagnostic} (hnext : next c = .error fault c') :
    ∃ fault' d, next (c.extend more) = .error fault' d := by
  have hfeed : '\n' ∈ c.skipGap.rest := by
    rw [rest_skipGap]
    exact Lexeme.lineFeed_mem_drop_gap h
  simp only [next, take] at hnext ⊢
  rw [skipGap_extend h, rest_extend, Lexeme.scan_append hfeed]
  cases hscan : Lexeme.scan c.skipGap.rest with
  | lexeme kind spelling length =>
    rw [hscan] at hnext
    cases hnext
  | fault cause offset => exact ⟨_, _, rfl⟩

end

section

variable {c c' d : Cursor} (h : d.rest = c.rest)

include h

theorem rest_skipGap_eq : d.skipGap.rest = c.skipGap.rest := by
  rw [rest_skipGap, rest_skipGap, h]

theorem next_of_rest_eq {token : Token} (hnext : next c = .ok token c') :
    ∃ location d', next d = .ok { token with location } d' ∧ d'.rest = c'.rest := by
  simp only [next, take] at hnext ⊢
  rw [rest_skipGap_eq h]
  cases hscan : Lexeme.scan c.skipGap.rest with
  | fault cause offset =>
    rw [hscan] at hnext
    cases hnext
  | lexeme kind spelling length =>
    rw [hscan] at hnext
    cases hnext
    refine ⟨d.skipGap.location, d.skipGap.advanceBy length, rfl, ?_⟩
    rw [rest_advanceBy, rest_advanceBy, rest_skipGap_eq h]

theorem next_error_of_rest_eq {fault : Diagnostic} (hnext : next c = .error fault c') :
    ∃ fault' d', next d = .error fault' d' ∧ fault'.cause = fault.cause := by
  simp only [next, take] at hnext ⊢
  rw [rest_skipGap_eq h]
  cases hscan : Lexeme.scan c.skipGap.rest with
  | lexeme kind spelling length =>
    rw [hscan] at hnext
    cases hnext
  | fault cause offset =>
    rw [hscan] at hnext
    cases hnext
    exact ⟨_, _, rfl, rfl⟩

end

/-- What is read from a text, and the cause of the fault behind it, do not depend on where the text
stands. -/
theorem stream_of_rest_eq {c d : Cursor} (h : d.rest = c.rest) :
    (stream d).tokens.map (fun token ↦ (token.kind, token.spelling)) =
        (stream c).tokens.map (fun token ↦ (token.kind, token.spelling)) ∧
      (stream d).fault.map Diagnostic.cause = (stream c).fault.map Diagnostic.cause := by
  induction c using stream.induct generalizing d with
  | case1 c fault stop hnext =>
    obtain ⟨fault', d', hnext', hcause⟩ := next_error_of_rest_eq h hnext
    rw [stream_of_error hnext', stream_of_error hnext]
    exact ⟨rfl, by simp [hcause]⟩
  | case2 c token c' hnext hkind =>
    obtain ⟨location, d', hnext', _⟩ := next_of_rest_eq h hnext
    rw [stream_of_endOfInput hnext' hkind, stream_of_endOfInput hnext hkind]
    exact ⟨rfl, rfl⟩
  | case3 c token c' hnext hkind ih =>
    obtain ⟨location, d', hnext', hrest⟩ := next_of_rest_eq h hnext
    obtain ⟨htokens, hfault⟩ := ih hrest
    rw [stream_of_ne_endOfInput hnext' hkind, stream_of_ne_endOfInput hnext hkind]
    exact ⟨by simp [htokens], hfault⟩

/-- The last line of what is left to be read is closed. -/
def IsClosed (c : Cursor) : Prop :=
  c.rest = [] ∨ ∃ front, c.rest = front ++ ['\n']

theorem isClosed_start (file source : String) : (start file source).IsClosed :=
  .inr ⟨source.toList, rfl⟩

theorem IsClosed.of_suffix {c c' : Cursor} (h : c.IsClosed) (hsuffix : c'.rest <:+ c.rest) :
    c'.IsClosed := by
  obtain ⟨before, hbefore⟩ := hsuffix
  rcases h with hnil | ⟨whole, hwhole⟩
  · left
    rw [hnil] at hbefore
    exact (List.append_eq_nil_iff.mp hbefore).2
  · rcases List.eq_nil_or_concat' c'.rest with hnil | ⟨front, last, hlast⟩
    · exact .inl hnil
    · right
      rw [hlast, hwhole, ← List.append_assoc] at hbefore
      obtain rfl : last = '\n' := by simpa using (List.append_inj' hbefore rfl).2
      exact ⟨front, hlast⟩

theorem IsClosed.lineFeed_mem {c : Cursor} (h : c.IsClosed) (hne : c.rest ≠ []) :
    '\n' ∈ c.rest := by
  rcases h with hnil | ⟨front, hfront⟩
  · exact absurd hnil hne
  · simp [hfront]

theorem suffix_of_next {c c' : Cursor} {token : Token} (h : next c = .ok token c') :
    c'.rest <:+ c.rest := by
  obtain ⟨gap, hrest, _⟩ := exists_gap_of_next h
  exact ⟨gap.text ++ token.lexeme, by rw [hrest, List.append_assoc]⟩

theorem IsClosed.rest_eq_nil {c c' : Cursor} {token : Token} (h : c.IsClosed)
    (hnext : next c = .ok token c') (hkind : token.kind = .endOfInput) : c.rest = [] := by
  obtain ⟨gap, hrest, _⟩ := exists_gap_of_next hnext
  have hlexeme : token.lexeme = [] := by simp [Token.lexeme, hkind]
  rw [hlexeme, rest_eq_nil_of_next hnext hkind, List.nil_append, List.append_nil] at hrest
  by_contra hne
  have hfeed := h.lineFeed_mem hne
  rw [hrest] at hfeed
  exact Lexeme.lineFeed_not_mem_gap gap hfeed

/-- A text whose last line is closed gives its tokens but the end of the input, and then come those
of the text behind it. -/
theorem IsClosed.exists_stream_extend {c : Cursor} (h : c.IsClosed)
    (hfault : (stream c).fault = none) (more : List Char) :
    ∃ inner last middle, (stream c).tokens = inner ++ [last] ∧ middle.rest = more ∧
      (stream (c.extend more)).tokens = inner ++ (stream middle).tokens ∧
      (stream (c.extend more)).fault = (stream middle).fault := by
  fun_induction stream c with
  | case1 c fault stop hnext => cases hfault
  | case2 c token c' hnext hkind =>
    have hnil := h.rest_eq_nil hnext hkind
    exact ⟨[], token, c.extend more, rfl, by simp [hnil], rfl, rfl⟩
  | case3 c token c' hnext hkind later ih =>
    have hne : c.rest ≠ [] := by
      intro hnil
      have hshorter := next_shortens hnext hkind
      simp [hnil] at hshorter
    have hextend := next_extend (h.lineFeed_mem hne) more hnext
    obtain ⟨inner, last, middle, htokens, hrest, hmore, hfaults⟩ :=
      ih (h.of_suffix (suffix_of_next hnext)) hfault
    refine ⟨token :: inner, last, middle, by simp [later, htokens], hrest, ?_⟩
    rw [stream_of_ne_endOfInput hextend hkind]
    exact ⟨by simp [hmore], hfaults⟩

/-- A fault in closed lines is not mended by what stands behind them. -/
theorem IsClosed.fault_stream_extend_ne_none {c : Cursor} (h : c.IsClosed)
    (hfault : (stream c).fault ≠ none) (more : List Char) :
    (stream (c.extend more)).fault ≠ none := by
  fun_induction stream c with
  | case1 c fault stop hnext =>
    have hne : c.rest ≠ [] := by
      intro hnil
      rw [next_of_nil hnil] at hnext
      cases hnext
    obtain ⟨fault', d, hextend⟩ := next_error_extend (h.lineFeed_mem hne) more hnext
    simp [stream_of_error hextend]
  | case2 c token c' hnext hkind => exact absurd rfl hfault
  | case3 c token c' hnext hkind later ih =>
    have hne : c.rest ≠ [] := by
      intro hnil
      have hshorter := next_shortens hnext hkind
      simp [hnil] at hshorter
    rw [stream_of_ne_endOfInput (next_extend (h.lineFeed_mem hne) more hnext) hkind]
    exact ih (h.of_suffix (suffix_of_next hnext)) hfault

/-- Two texts with a line feed between them are divided at that line feed: the tokens of the first
come as they do alone, but for the end of the input, and then come tokens that are worded like
those of the second, up to a fault with the same cause if there is one. -/
theorem exists_stream_append (file first second : String)
    (h : (stream (start file first)).fault = none) :
    ∃ inner last rest, (stream (start file first)).tokens = inner ++ [last] ∧
      (stream (start file (first ++ "\n" ++ second))).tokens = inner ++ rest ∧
      rest.map (fun token ↦ (token.kind, token.spelling)) =
        (stream (start file second)).tokens.map (fun token ↦ (token.kind, token.spelling)) ∧
      (stream (start file (first ++ "\n" ++ second))).fault.map Diagnostic.cause =
        (stream (start file second)).fault.map Diagnostic.cause := by
  obtain ⟨inner, last, middle, htokens, hrest, hmore, hfault⟩ :=
    (isClosed_start file first).exists_stream_extend h (closed second)
  have hsecond : middle.rest = (start file second).rest := hrest
  obtain ⟨hwordings, hcause⟩ := stream_of_rest_eq hsecond
  rw [start_append]
  exact ⟨inner, last, (stream middle).tokens, htokens, hmore, hwordings, by rw [hfault, hcause]⟩

end Cursor

end TeenyBasic
