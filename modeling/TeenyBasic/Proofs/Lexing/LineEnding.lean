import TeenyBasic.Proofs.Generation.Indifference
import TeenyBasic.Proofs.Lexing.Flaw
import TeenyBasic.Text.LineEnding

/-!
# Line endings of two characters

A carriage return before a line feed is read over wherever it can stand. Before a lexeme it is a
blank, in a comment it is one of the characters passed over, and behind a lexeme it comes to the
same as the line feed behind it: neither of the two continues a word, a number or an operator. In a
string both are forbidden, and only there does it show which of them comes first.

So a text in which every carriage return stands before a line feed has the tokens of the text
without them, at other places, and it is refused for the same cause if it is refused, up to the
forbidden character.

The main statement is `stream_withoutReturns`.
-/

namespace TeenyBasic

namespace Text

/-- Every carriage return of a text is followed by a line feed. -/
def IsPaired : List Char → Prop
  | [] => True
  | c :: rest => (c = '\r' → rest.head? = some '\n') ∧ IsPaired rest

def decidableIsPaired : (text : List Char) → Decidable (IsPaired text)
  | [] => .isTrue trivial
  | _ :: rest =>
    have := decidableIsPaired rest
    inferInstanceAs (Decidable (_ ∧ _))

instance : DecidablePred IsPaired := decidableIsPaired

/-- A text without its carriage returns. -/
def withoutReturns (text : List Char) : List Char :=
  text.filter (· ≠ '\r')

@[simp] theorem withoutReturns_nil : withoutReturns [] = [] :=
  rfl

@[simp] theorem withoutReturns_return (rest : List Char) :
    withoutReturns ('\r' :: rest) = withoutReturns rest :=
  rfl

theorem withoutReturns_cons_of_ne {c : Char} (h : c ≠ '\r') (rest : List Char) :
    withoutReturns (c :: rest) = c :: withoutReturns rest := by
  simp [withoutReturns, h]

theorem withoutReturns_append (text more : List Char) :
    withoutReturns (text ++ more) = withoutReturns text ++ withoutReturns more :=
  List.filter_append ..

theorem withoutReturns_of_not_mem {text : List Char} (h : '\r' ∉ text) :
    withoutReturns text = text := by
  refine List.filter_eq_self.mpr fun c hc ↦ ?_
  have hne : c ≠ '\r' := fun heq ↦ h (heq ▸ hc)
  simpa using hne

theorem return_not_mem_withoutReturns (text : List Char) : '\r' ∉ withoutReturns text := by
  simp [withoutReturns]

section

variable {text rest : List Char}

theorem IsPaired.exists_lineFeed (h : IsPaired ('\r' :: rest)) :
    ∃ tail, rest = '\n' :: tail ∧ IsPaired tail := by
  obtain ⟨tail, rfl⟩ := List.head?_eq_some_iff.mp (h.1 rfl)
  exact ⟨tail, rfl, h.2.2⟩

theorem IsPaired.of_suffix (h : IsPaired text) (hsuffix : rest <:+ text) : IsPaired rest := by
  induction text with
  | nil =>
    rw [List.suffix_nil.mp hsuffix]
    trivial
  | cons c tail ih =>
    rcases List.suffix_cons_iff.mp hsuffix with rfl | htail
    · exact h
    · exact ih h.2 htail

theorem IsPaired.append_lineFeed (h : IsPaired text) : IsPaired (text ++ ['\n']) := by
  induction text with
  | nil => simp [IsPaired]
  | cons c tail ih =>
    refine ⟨fun hc ↦ ?_, ih h.2⟩
    obtain ⟨rest, rfl⟩ := List.head?_eq_some_iff.mp (h.1 hc)
    rfl

theorem IsPaired.unifyLineEndings_eq (h : IsPaired text) :
    unifyLineEndings text = withoutReturns text := by
  fun_induction unifyLineEndings text with
  | case1 => rfl
  | case2 rest ih => simp [withoutReturns_cons_of_ne, ih h.2.2]
  | case3 rest hlone ih =>
    obtain ⟨tail, rfl, _⟩ := h.exists_lineFeed
    exact absurd rfl (hlone tail)
  | case4 c rest _ hc ih =>
    have hne : c ≠ '\r' := hc
    rw [withoutReturns_cons_of_ne hne, ih h.2]

variable {p : Char → Bool} (hp : p '\n' = true → p '\r' = true)

include hp

theorem IsPaired.takeWhile_withoutReturns (h : IsPaired text) :
    (withoutReturns text).takeWhile p = withoutReturns (text.takeWhile p) := by
  induction text with
  | nil => rfl
  | cons c rest ih =>
    by_cases hc : c = '\r'
    · subst hc
      rw [withoutReturns_return]
      cases hreturn : p '\r' with
      | true => rw [List.takeWhile_cons_of_pos hreturn, withoutReturns_return, ih h.2]
      | false =>
        obtain ⟨tail, rfl, _⟩ := h.exists_lineFeed
        have hfeed : p '\n' = false := by grind
        simp [withoutReturns_cons_of_ne, hfeed, hreturn]
    · rw [withoutReturns_cons_of_ne hc, List.takeWhile_cons, List.takeWhile_cons, ih h.2]
      split
      · rw [withoutReturns_cons_of_ne hc]
      · rfl

theorem IsPaired.dropWhile_withoutReturns (h : IsPaired text) :
    (withoutReturns text).dropWhile p = withoutReturns (text.dropWhile p) := by
  have hsplit := List.takeWhile_append_dropWhile (p := p) (l := text)
  have hwhole := List.takeWhile_append_dropWhile (p := p) (l := withoutReturns text)
  rw [h.takeWhile_withoutReturns hp] at hwhole
  have hsame : withoutReturns (text.takeWhile p) ++ (withoutReturns text).dropWhile p =
      withoutReturns (text.takeWhile p) ++ withoutReturns (text.dropWhile p) := by
    rw [hwhole, ← withoutReturns_append, hsplit]
  exact List.append_cancel_left hsame

end

theorem withoutReturns_takeWhile {p : Char → Bool} (hp : p '\r' = false) (text : List Char) :
    withoutReturns (text.takeWhile p) = text.takeWhile p := by
  refine withoutReturns_of_not_mem fun hmem ↦ ?_
  rw [List.mem_takeWhile_imp hmem] at hp
  cases hp

end Text

/-- The cause that is found when line endings are unified. -/
def Cause.unifyLineEndings : Cause → Cause
  | .forbiddenInString char => .forbiddenInString (if char = "\r" then "\n" else char)
  | cause => cause

namespace Lexeme

open Text

section

variable {text rest : List Char}

theorem comment_withoutReturns (h : IsPaired text) (hhead : text.head? ≠ some '\r') :
    comment (withoutReturns text) = withoutReturns (comment text) := by
  cases text with
  | nil => rfl
  | cons c rest =>
    have hc : c ≠ '\r' := by simpa using hhead
    rw [withoutReturns_cons_of_ne hc]
    by_cases hnote : c = '#'
    · subst hnote
      simp only [comment]
      rw [h.2.takeWhile_withoutReturns (by decide), withoutReturns_cons_of_ne hc]
    · simp [comment, hnote]

theorem gap_withoutReturns (h : IsPaired text) :
    gap (withoutReturns text) = withoutReturns (gap text) := by
  have hbehind : IsPaired (text.dropWhile isBlank) := h.of_suffix (List.dropWhile_suffix _)
  have hhead : (text.dropWhile isBlank).head? ≠ some '\r' := by
    intro hreturn
    have hblank := List.head?_dropWhile_not isBlank text
    rw [hreturn] at hblank
    cases hblank
  rw [gap, gap, h.takeWhile_withoutReturns (by decide), h.dropWhile_withoutReturns (by decide),
    comment_withoutReturns hbehind hhead, withoutReturns_append]

theorem drop_gap_withoutReturns (h : IsPaired text) :
    (withoutReturns text).drop (gap (withoutReturns text)).length =
      withoutReturns (text.drop (gap text).length) := by
  obtain ⟨rest, hrest⟩ := gap_isPrefix text
  rw [gap_withoutReturns h]
  generalize gap text = space at hrest ⊢
  subst hrest
  rw [withoutReturns_append, List.drop_left, List.drop_left]

theorem head?_drop_gap_ne_return (text : List Char) :
    (text.drop (gap text).length).head? ≠ some '\r' := by
  intro hhead
  obtain ⟨tail, htail⟩ := List.head?_eq_some_iff.mp hhead
  have hgap := gap_drop_gap text
  rw [htail] at hgap
  cases hgap

/-- The reading that is found when line endings are unified. -/
def Reading.unifyLineEndings : Reading → Reading
  | .lexeme kind spelling length => .lexeme kind spelling length
  | .fault cause offset => .fault cause.unifyLineEndings offset

theorem scanString_withoutReturns (h : IsPaired rest) :
    scanString (withoutReturns rest) = (scanString rest).unifyLineEndings := by
  have hbehind : IsPaired (rest.dropWhile isStringText) := h.of_suffix (List.dropWhile_suffix _)
  simp only [scanString]
  rw [h.takeWhile_withoutReturns (by decide), h.dropWhile_withoutReturns (by decide),
    withoutReturns_takeWhile (by decide)]
  cases hdrop : rest.dropWhile isStringText with
  | nil => rfl
  | cons c tail =>
    by_cases hc : c = '\r'
    · subst hc
      rw [hdrop] at hbehind
      obtain ⟨more, rfl, _⟩ := hbehind.exists_lineFeed
      rfl
    · have hsingle : String.singleton c ≠ "\r" := by
        intro heq
        have hlist := congrArg String.toList heq
        simp [hc] at hlist
      rw [withoutReturns_cons_of_ne hc]
      dsimp only
      split
      · rfl
      · simp [Reading.unifyLineEndings, Cause.unifyLineEndings, hsingle]

theorem scanNumber_withoutReturns (h : IsPaired text) :
    scanNumber (withoutReturns text) = (scanNumber text).unifyLineEndings := by
  have hbehind : IsPaired (text.dropWhile Char.isDigit) := h.of_suffix (List.dropWhile_suffix _)
  simp only [scanNumber]
  rw [h.takeWhile_withoutReturns (by decide), h.dropWhile_withoutReturns (by decide),
    withoutReturns_takeWhile (by decide)]
  cases hdrop : text.dropWhile Char.isDigit with
  | nil => rfl
  | cons c tail =>
    rw [hdrop] at hbehind
    by_cases hc : c = '\r'
    · subst hc
      obtain ⟨more, rfl, _⟩ := hbehind.exists_lineFeed
      rfl
    · rw [withoutReturns_cons_of_ne hc]
      by_cases hpoint : c = '.'
      · subst hpoint
        have hfraction : (withoutReturns tail).takeWhile Char.isDigit =
            tail.takeWhile Char.isDigit := by
          rw [hbehind.2.takeWhile_withoutReturns (by decide), withoutReturns_takeWhile (by decide)]
        simp only [hfraction]
        split <;> rfl
      · simp [hpoint, Reading.unifyLineEndings]

theorem scanWord_withoutReturns (h : IsPaired text) :
    scanWord (withoutReturns text) = (scanWord text).unifyLineEndings := by
  rw [scanWord, scanWord, h.takeWhile_withoutReturns (by decide),
    withoutReturns_takeWhile (by decide)]
  rfl

theorem head?_withoutReturns_eq_iff (h : IsPaired rest) :
    (withoutReturns rest).head? = some '=' ↔ rest.head? = some '=' := by
  cases rest with
  | nil => rfl
  | cons c tail =>
    by_cases hc : c = '\r'
    · subst hc
      obtain ⟨more, rfl, _⟩ := h.exists_lineFeed
      simp [withoutReturns_cons_of_ne]
    · simp [withoutReturns_cons_of_ne hc]

theorem scanSymbol_of_head?_ne (h : rest.head? ≠ some '=') (c : Char) :
    scanSymbol c rest = scanSymbol c [] := by
  cases rest with
  | nil => rfl
  | cons d tail =>
    have hd : d ≠ '=' := by simpa using h
    unfold scanSymbol
    split <;> simp_all

theorem scanSymbol_congr {rest' : List Char}
    (h : rest'.head? = some '=' ↔ rest.head? = some '=') (c : Char) :
    scanSymbol c rest' = scanSymbol c rest := by
  by_cases hequals : rest.head? = some '='
  · obtain ⟨tail, rfl⟩ := List.head?_eq_some_iff.mp hequals
    obtain ⟨tail', rfl⟩ := List.head?_eq_some_iff.mp (h.mpr hequals)
    have hsingle : ['='] ≠ [] := by simp
    exact (scanSymbol_append tail' c hsingle).trans (scanSymbol_append tail c hsingle).symm
  · have hequals' : rest'.head? ≠ some '=' := fun heq ↦ hequals (h.mp heq)
    rw [scanSymbol_of_head?_ne hequals, scanSymbol_of_head?_ne hequals']

theorem unifyLineEndings_scanSymbol (c : Char) (rest : List Char) :
    (scanSymbol c rest).unifyLineEndings = scanSymbol c rest := by
  unfold scanSymbol
  split <;> rfl

/-- Carriage returns before line feeds do not matter to what stands at the front of a text, unless
one of them is what a string breaks off at. -/
theorem scan_withoutReturns (h : IsPaired text) (hhead : text.head? ≠ some '\r') :
    scan (withoutReturns text) = (scan text).unifyLineEndings := by
  cases text with
  | nil => rfl
  | cons c rest =>
    have hc : c ≠ '\r' := by simpa using hhead
    rw [withoutReturns_cons_of_ne hc]
    simp only [scan]
    split
    · rfl
    split
    · exact scanString_withoutReturns h.2
    rw [← withoutReturns_cons_of_ne hc]
    split
    · exact scanNumber_withoutReturns h
    split
    · exact scanWord_withoutReturns h
    · rw [unifyLineEndings_scanSymbol]
      exact scanSymbol_congr (head?_withoutReturns_eq_iff h.2) c

end

end Lexeme

namespace Cursor

open Text Lexeme

section

variable {c c' d : Cursor} (hpaired : IsPaired c.rest) (h : d.rest = withoutReturns c.rest)

include hpaired h

theorem rest_skipGap_withoutReturns : d.skipGap.rest = withoutReturns c.skipGap.rest := by
  rw [rest_skipGap, rest_skipGap, h, drop_gap_withoutReturns hpaired]

theorem scan_rest_skipGap : scan d.skipGap.rest = (scan c.skipGap.rest).unifyLineEndings := by
  rw [rest_skipGap_withoutReturns hpaired h]
  refine scan_withoutReturns ?_ ?_
  · rw [rest_skipGap]
    exact hpaired.of_suffix (List.drop_suffix _ _)
  · rw [rest_skipGap]
    exact head?_drop_gap_ne_return c.rest

/-- The same token is read without carriage returns, and the same text is left without them. -/
theorem next_withoutReturns {token : Token} (hnext : next c = .ok token c') :
    ∃ location d', next d = .ok { token with location } d' ∧ d'.rest = withoutReturns c'.rest := by
  have hunified := scan_rest_skipGap hpaired h
  have hrest := rest_skipGap_withoutReturns hpaired h
  simp only [next, take] at hnext ⊢
  cases hscan : scan c.skipGap.rest with
  | fault cause offset =>
    rw [hscan] at hnext
    cases hnext
  | lexeme kind spelling length =>
    rw [hscan] at hnext hunified
    cases hnext
    have hscan' : scan d.skipGap.rest = .lexeme kind spelling length := hunified
    rw [hscan']
    refine ⟨d.skipGap.location, d.skipGap.advanceBy length, rfl, ?_⟩
    obtain ⟨⟨tail, htail⟩, rfl⟩ := takesUp_scan _ kind spelling length c.skipGap.location hscan
    obtain ⟨⟨tail', htail'⟩, _⟩ := takesUp_scan _ kind spelling _ c.skipGap.location hscan'
    rw [hrest] at htail'
    generalize Token.lexeme ⟨kind, String.ofList spelling, c.skipGap.location⟩ = lexeme at *
    have hlexeme : '\r' ∉ lexeme := by
      intro hmem
      refine return_not_mem_withoutReturns c.skipGap.rest ?_
      rw [← htail']
      exact List.mem_append_left _ hmem
    rw [rest_advanceBy, rest_advanceBy, hrest, ← htail, withoutReturns_append,
      withoutReturns_of_not_mem hlexeme, List.drop_left, List.drop_left]

theorem next_error_withoutReturns {fault : Diagnostic} (hnext : next c = .error fault c') :
    ∃ fault' d', next d = .error fault' d' ∧ fault'.cause = fault.cause.unifyLineEndings := by
  have hunified := scan_rest_skipGap hpaired h
  simp only [next, take] at hnext ⊢
  cases hscan : scan c.skipGap.rest with
  | lexeme kind spelling length =>
    rw [hscan] at hnext
    cases hnext
  | fault cause offset =>
    rw [hscan] at hnext hunified
    cases hnext
    rw [hunified]
    exact ⟨_, _, rfl, rfl⟩

end

/-- What is read from a text does not depend on carriage returns before line feeds, and neither does
the cause of the fault behind it, up to the line ending that a string breaks off at. -/
theorem stream_withoutReturns {c d : Cursor} (hpaired : IsPaired c.rest)
    (h : d.rest = withoutReturns c.rest) :
    (stream d).tokens.map Token.wording = (stream c).tokens.map Token.wording ∧
      (stream d).fault.map Diagnostic.cause =
        (stream c).fault.map fun fault ↦ fault.cause.unifyLineEndings := by
  induction c using stream.induct generalizing d with
  | case1 c fault stop hnext =>
    obtain ⟨fault', d', hnext', hcause⟩ := next_error_withoutReturns hpaired h hnext
    rw [stream_of_error hnext', stream_of_error hnext]
    exact ⟨rfl, by simp [hcause]⟩
  | case2 c token c' hnext hkind =>
    obtain ⟨location, d', hnext', _⟩ := next_withoutReturns hpaired h hnext
    rw [stream_of_endOfInput hnext' hkind, stream_of_endOfInput hnext hkind]
    exact ⟨rfl, rfl⟩
  | case3 c token c' hnext hkind ih =>
    obtain ⟨location, d', hnext', hrest⟩ := next_withoutReturns hpaired h hnext
    obtain ⟨htokens, hfault⟩ := ih (hpaired.of_suffix (suffix_of_next hnext)) hrest
    rw [stream_of_ne_endOfInput hnext' hkind, stream_of_ne_endOfInput hnext hkind]
    refine ⟨?_, hfault⟩
    rw [List.map_cons, List.map_cons, htokens]
    rfl

theorem closed_unifyLineEndings {source : String} (h : IsPaired source.toList) :
    closed (String.ofList (unifyLineEndings source.toList)) = withoutReturns (closed source) := by
  rw [closed, closed, String.toList_ofList, h.unifyLineEndings_eq, withoutReturns_append]
  rfl

/-- A source text has the tokens of the text with unified line endings. -/
theorem stream_unifyLineEndings {source : String} (h : IsPaired source.toList)
    (file file' : String) :
    let unified := String.ofList (unifyLineEndings source.toList)
    (stream (start file' unified)).tokens.map Token.wording =
        (stream (start file source)).tokens.map Token.wording ∧
      (stream (start file' unified)).fault.map Diagnostic.cause =
        (stream (start file source)).fault.map fun fault ↦ fault.cause.unifyLineEndings :=
  stream_withoutReturns h.append_lineFeed (closed_unifyLineEndings h)

end Cursor

end TeenyBasic
