import TeenyBasic.Proofs.Lexing.Position
import TeenyBasic.Proofs.Lexing.Stream

/-!
# The layout of a text

A text is laid out as tokens with gaps before them. Nothing of it is lost when it is divided into
tokens: the gaps and the lexemes of the tokens, one after another, are the text again, and each
token has the place at which its lexeme starts. Line feeds stand neither in gaps nor in lexemes
other than line ends, so there are as many line ends as line feeds.

The main statement is `exists_layout_of_stream`.
-/

namespace TeenyBasic

namespace Lexeme

/-- Blanks, and perhaps a comment behind them that does not go on behind its line. -/
structure Gap where
  blanks : List Char
  note : Option (List Char)
  isBlank : ∀ c ∈ blanks, isBlank c = true
  note_line : ∀ text ∈ note, '\n' ∉ text

def Gap.noteText (gap : Gap) : List Char :=
  match gap.note with
  | none => []
  | some text => '#' :: text

def Gap.text (gap : Gap) : List Char :=
  gap.blanks ++ gap.noteText

theorem lineFeed_not_mem_gap (gap : Gap) : '\n' ∉ gap.text := by
  obtain ⟨blanks, note, hblanks, hnote⟩ := gap
  have hfront : '\n' ∉ blanks := fun hmem ↦ by
    have hblank := hblanks _ hmem
    revert hblank
    decide
  cases note with
  | none => simpa [Gap.text, Gap.noteText] using hfront
  | some text => simpa [Gap.text, Gap.noteText, hfront] using hnote text rfl

theorem exists_gap (text : List Char) : ∃ space : Gap, space.text = gap text := by
  have hblanks : ∀ c ∈ text.takeWhile isBlank, isBlank c = true :=
    fun c hc ↦ List.mem_takeWhile_imp hc
  unfold gap comment
  split
  · rename_i rest _
    have hline : '\n' ∉ rest.takeWhile (· ≠ '\n') := fun hmem ↦ by
      simpa using List.mem_takeWhile_imp hmem
    exact ⟨⟨_, some (rest.takeWhile (· ≠ '\n')), hblanks, by simpa using hline⟩, rfl⟩
  · exact ⟨⟨_, none, hblanks, by simp⟩, rfl⟩

theorem comment_isPrefix (text : List Char) : comment text <+: text := by
  unfold comment
  split
  · rw [List.prefix_cons_inj]
    exact List.takeWhile_prefix _
  · exact List.nil_prefix

theorem gap_isPrefix (text : List Char) : gap text <+: text := by
  have hcomment := comment_isPrefix (text.dropWhile isBlank)
  rw [← List.prefix_append_right_inj (text.takeWhile isBlank),
    List.takeWhile_append_dropWhile] at hcomment
  exact hcomment

end Lexeme

/-- A token as it is written: a string between its quotation marks, any other token as it is
spelled. The end of the input is not written. -/
def Token.lexeme (token : Token) : List Char :=
  match token.kind with
  | .endOfInput => []
  | .string => Text.Quoted.doubleQuote :: (token.spelling.toList ++ [Text.Quoted.doubleQuote])
  | _ => token.spelling.toList

namespace Lexeme

/-- A reading that gives a lexeme takes up what the token is written as. -/
def Reading.TakesUp (reading : Reading) (text : List Char) : Prop :=
  ∀ kind spelling length location, reading = .lexeme kind spelling length →
    Token.lexeme ⟨kind, String.ofList spelling, location⟩ <+: text ∧
      (Token.lexeme ⟨kind, String.ofList spelling, location⟩).length = length

theorem takesUp_fault (cause : Cause) (offset : Nat) (text : List Char) :
    (Reading.fault cause offset).TakesUp text := by
  intro kind spelling length location h
  cases h

theorem takesUp_scanString (rest : List Char) :
    (scanString rest).TakesUp (Text.Quoted.doubleQuote :: rest) := by
  have hsplit := List.takeWhile_append_dropWhile (p := isStringText) (l := rest)
  unfold scanString
  dsimp only
  split
  · exact takesUp_fault _ _ _
  · rename_i c tail htail
    split
    · rename_i hquote
      intro kind spelling length location h
      cases h
      rw [htail, hquote] at hsplit
      have hclosed : rest.takeWhile isStringText ++ [Text.Quoted.doubleQuote] <+: rest :=
        ⟨tail, by rw [List.append_assoc, List.singleton_append, hsplit]⟩
      simpa [Token.lexeme] using hclosed
    · exact takesUp_fault _ _ _

theorem takesUp_scanNumber (text : List Char) : (scanNumber text).TakesUp text := by
  have hsplit := List.takeWhile_append_dropWhile (p := Char.isDigit) (l := text)
  unfold scanNumber
  dsimp only
  split
  · rename_i rest hrest
    split
    · exact takesUp_fault _ _ _
    · intro kind spelling length location h
      cases h
      have hnumber :
          text.takeWhile Char.isDigit ++ '.' :: rest.takeWhile Char.isDigit <+: text := by
        have hfraction := List.takeWhile_prefix Char.isDigit (l := rest)
        rw [← List.prefix_cons_inj '.', ← hrest,
          ← List.prefix_append_right_inj (text.takeWhile Char.isDigit), hsplit] at hfraction
        exact hfraction
      refine ⟨by simpa [Token.lexeme] using hnumber, ?_⟩
      simp only [Token.lexeme, String.toList_ofList, List.length_append, List.length_cons]
      omega
  · intro kind spelling length location h
    cases h
    have hwhole := List.takeWhile_prefix Char.isDigit (l := text)
    simpa [Token.lexeme] using hwhole

theorem takesUp_scanWord (text : List Char) : (scanWord text).TakesUp text := by
  intro kind spelling length location h
  cases h
  have hword := List.takeWhile_prefix Char.isAlphanum (l := text)
  unfold wordKind
  split <;> simpa [Token.lexeme] using hword

theorem takesUp_scanSymbol (first : Char) (rest : List Char) :
    (scanSymbol first rest).TakesUp (first :: rest) := by
  intro kind spelling length location h
  unfold scanSymbol at h
  split at h <;> cases h <;> simp [Token.lexeme]

theorem takesUp_scan (text : List Char) : (scan text).TakesUp text := by
  unfold scan
  split
  · intro kind spelling length location h
    cases h
    simp [Token.lexeme]
  · rename_i c rest
    split
    · rename_i hfeed
      intro kind spelling length location h
      cases h
      simp [Token.lexeme, hfeed]
    split
    · rename_i hquote
      rw [hquote]
      exact takesUp_scanString rest
    split
    · exact takesUp_scanNumber _
    split
    · exact takesUp_scanWord _
    · exact takesUp_scanSymbol c rest

theorem eq_nil_of_scan {text spelling : List Char} {length : Nat}
    (h : scan text = .lexeme .endOfInput spelling length) : text = [] := by
  unfold scan at h
  split at h
  · rfl
  · split at h
    · cases h
    split at h
    · simp only [scanString] at h
      split at h <;> try split at h
      all_goals cases h
    split at h
    · simp only [scanNumber] at h
      split at h <;> try split at h
      all_goals cases h
    split at h
    · simp only [scanWord, wordKind, Reading.lexeme.injEq] at h
      split at h <;> cases h.1
    · unfold scanSymbol at h
      split at h <;> cases h

end Lexeme

/-- A token with the gap before it. -/
structure Piece where
  gap : Lexeme.Gap
  token : Token

/-- A piece as it is written. -/
def Piece.text (piece : Piece) : List Char :=
  piece.gap.text ++ piece.token.lexeme

/-- Pieces as they are written one after another. -/
def Piece.join (pieces : List Piece) : List Char :=
  pieces.flatMap Piece.text

/-- Every token of pieces that stand behind a text has the place at which its lexeme starts. -/
def Piece.ArePlaced (file : String) (front : List Char) (pieces : List Piece) : Prop :=
  ∀ before piece after, pieces = before ++ piece :: after →
    piece.token.location = .behind file (front ++ Piece.join before ++ piece.gap.text)

theorem Piece.arePlaced_nil (file : String) (front : List Char) : ArePlaced file front [] := by
  intro before piece after h
  simp at h

theorem Piece.arePlaced_cons {file : String} {front : List Char} {piece : Piece}
    {pieces : List Piece}
    (hpiece : piece.token.location = .behind file (front ++ piece.gap.text))
    (hpieces : ArePlaced file (front ++ piece.text) pieces) :
    ArePlaced file front (piece :: pieces) := by
  intro before other after h
  cases before with
  | nil =>
    obtain ⟨rfl, _⟩ := List.cons.inj h
    simpa [Piece.join] using hpiece
  | cons first before =>
    obtain ⟨rfl, hrest⟩ := List.cons.inj h
    have hother := hpieces before other after hrest
    simpa [Piece.join] using hother

/-! ## Pulls and streams -/

namespace Cursor

/-- A pull takes a gap and a lexeme from the text, and the token has the place between the two. -/
theorem exists_gap_of_next {c c' : Cursor} {token : Token} (h : next c = .ok token c') :
    ∃ gap : Lexeme.Gap, c.rest = gap.text ++ (token.lexeme ++ c'.rest) ∧ c'.file = c.file ∧
      ∀ front, c.IsBehind front → token.location = .behind c.file (front ++ gap.text) ∧
        c'.IsBehind (front ++ (gap.text ++ token.lexeme)) := by
  obtain ⟨gap, hgap⟩ := Lexeme.exists_gap c.rest
  have hfront : gap.text <+: c.rest := by
    rw [hgap]
    exact Lexeme.gap_isPrefix c.rest
  have hskip : c.skipGap = c.advanceBy gap.text.length := by rw [skipGap, hgap]
  simp only [next, take] at h
  split at h
  · rename_i kind spelling length hscan
    obtain ⟨hlexeme, rfl⟩ :=
      Lexeme.takesUp_scan c.skipGap.rest kind spelling length c.skipGap.location hscan
    cases h
    refine ⟨gap, ?_, by simp [hskip], ?_⟩
    · rw [← rest_of_isPrefix hlexeme, hskip]
      exact rest_of_isPrefix hfront
    · intro front hbehind
      have hstart : c.skipGap.IsBehind (front ++ gap.text) := by
        rw [hskip]
        exact hbehind.of_isPrefix hfront
      have hfile : c.skipGap.file = c.file := by rw [hskip, file_advanceBy]
      refine ⟨by rw [← hfile]; exact hstart.location_eq, ?_⟩
      rw [← List.append_assoc]
      exact hstart.of_isPrefix hlexeme
  · cases h

theorem rest_eq_nil_of_next {c c' : Cursor} {token : Token} (h : next c = .ok token c')
    (hkind : token.kind = .endOfInput) : c'.rest = [] := by
  simp only [next, take] at h
  split at h
  · rename_i kind spelling length hscan
    cases h
    obtain rfl : kind = .endOfInput := hkind
    rw [rest_advanceBy, Lexeme.eq_nil_of_scan hscan, List.drop_nil]
  · cases h

theorem next_of_nil {c : Cursor} (h : c.rest = []) :
    next c = .ok ⟨.endOfInput, "", c.location⟩ c := by
  have hskip : c.skipGap = c := by rw [skipGap, h]; rfl
  rw [next, hskip, take, h]
  rfl

/-- The tokens of a stream, with the gaps before them, are the front of the text that the stream was
read from, and the whole text if there is no fault. -/
theorem exists_pieces (c : Cursor) : ∀ front, c.IsBehind front →
    ∃ pieces rest, pieces.map Piece.token = (stream c).tokens ∧ c.rest = Piece.join pieces ++ rest ∧
      Piece.ArePlaced c.file front pieces ∧ ((stream c).fault = none → rest = []) := by
  fun_induction stream c with
  | case1 c fault stop hnext =>
    intro front _
    exact ⟨[], c.rest, rfl, rfl, Piece.arePlaced_nil _ _, by simp⟩
  | case2 c token c' hnext hkind =>
    intro front h
    obtain ⟨gap, hrest, _, hplace⟩ := exists_gap_of_next hnext
    have hnil := rest_eq_nil_of_next hnext hkind
    rw [hnil, List.append_nil] at hrest
    exact ⟨[⟨gap, token⟩], [], rfl, by simpa [Piece.join, Piece.text] using hrest,
      Piece.arePlaced_cons (hplace front h).1 (Piece.arePlaced_nil _ _), fun _ ↦ rfl⟩
  | case3 c token c' hnext hkind later ih =>
    intro front h
    obtain ⟨gap, hrest, hfile, hplace⟩ := exists_gap_of_next hnext
    obtain ⟨hlocation, hbehind⟩ := hplace front h
    obtain ⟨pieces, rest, htokens, hlater, hplaced, hfault⟩ := ih _ hbehind
    rw [hfile] at hplaced
    refine ⟨⟨gap, token⟩ :: pieces, rest, by simp [htokens, later], ?_,
      Piece.arePlaced_cons hlocation hplaced, hfault⟩
    rw [hrest, hlater]
    simp [Piece.join, Piece.text]

theorem wellSpelled_of_mem_stream {c : Cursor} {token : Token} (h : token ∈ (stream c).tokens) :
    token.WellSpelled := by
  fun_induction stream c with
  | case1 c fault stop hnext => simp at h
  | case2 c first c' hnext hkind =>
    obtain rfl : token = first := by simpa using h
    exact wellSpelled_of_next hnext
  | case3 c first c' hnext hkind later ih =>
    rcases List.mem_cons.mp h with rfl | h
    · exact wellSpelled_of_next hnext
    · exact ih h

/-- A stream without a fault ends with the end of the input, which it holds nowhere else. -/
theorem exists_last_of_stream {c : Cursor} (h : (stream c).fault = none) :
    ∃ inner last, (stream c).tokens = inner ++ [last] ∧ last.kind = .endOfInput ∧
      ∀ token ∈ inner, token.kind ≠ .endOfInput := by
  fun_induction stream c with
  | case1 c fault stop hnext => cases h
  | case2 c token c' hnext hkind => exact ⟨[], token, rfl, hkind, by simp⟩
  | case3 c token c' hnext hkind later ih =>
    obtain ⟨inner, last, htokens, hlast, hinner⟩ := ih h
    exact ⟨token :: inner, last, by simp [later, htokens], hlast, by simpa [hkind] using hinner⟩

end Cursor

theorem lineFeed_not_mem_of_isWord {text : List Char} (h : Lexeme.IsWord text) : '\n' ∉ text :=
  fun hmem ↦ Lexeme.ne_of_isAlphanum (Lexeme.isAlphanum_of_isWord h _ hmem) rfl rfl

theorem lineFeed_not_mem_of_isDigits {text : List Char} (h : Lexeme.IsDigits text) :
    '\n' ∉ text := by
  intro hmem
  have hdigit := h.2 _ hmem
  revert hdigit
  decide

theorem lineFeed_not_mem_of_isNumeral {text : List Char} (h : Lexeme.IsNumeral text) :
    '\n' ∉ text := by
  rcases h with hdigits | ⟨whole, fraction, hwhole, hfraction, rfl⟩
  · exact lineFeed_not_mem_of_isDigits hdigits
  · simp [lineFeed_not_mem_of_isDigits hwhole, lineFeed_not_mem_of_isDigits hfraction]

theorem lineFeed_not_mem_of_isStringText {text : List Char}
    (h : ∀ c ∈ text, Lexeme.isStringText c = true) : '\n' ∉ text := by
  intro hmem
  have htext := h _ hmem
  revert htext
  decide

theorem Token.WellSpelled.lineFeed_not_mem {token : Token} (h : token.WellSpelled)
    (hkind : token.kind ≠ .newline) : '\n' ∉ token.lexeme := by
  obtain ⟨kind, spelling, location⟩ := token
  cases kind with
  | endOfInput => simp [lexeme]
  | newline => exact absurd rfl hkind
  | number => exact lineFeed_not_mem_of_isNumeral h
  | identifier => exact lineFeed_not_mem_of_isWord h.1
  | string =>
    have htext := lineFeed_not_mem_of_isStringText h
    simpa [lexeme, Text.Quoted.doubleQuote] using htext
  | keyword word =>
    obtain rfl : spelling = word.spelling := h
    change '\n' ∉ word.spelling.toList
    cases word <;> decide
  | operator sign =>
    obtain rfl : spelling = sign.symbol := h
    change '\n' ∉ sign.symbol.toList
    cases sign <;> decide
  | comparison sign =>
    obtain rfl : spelling = sign.symbol := h
    change '\n' ∉ sign.symbol.toList
    cases sign <;> decide

theorem Token.WellSpelled.count_lexeme {token : Token} (h : token.WellSpelled) :
    token.lexeme.count '\n' = if token.kind = .newline then 1 else 0 := by
  split
  · rename_i hkind
    have hspelling : token.spelling = "\n" := by simpa [WellSpelled, hkind] using h
    simp [lexeme, hkind, hspelling]
  · rename_i hkind
    exact List.count_eq_zero.mpr (h.lineFeed_not_mem hkind)

theorem Piece.count_join {pieces : List Piece} (h : ∀ piece ∈ pieces, piece.token.WellSpelled) :
    (join pieces).count '\n' = (pieces.map token).countP (·.kind = .newline) := by
  induction pieces with
  | nil => rfl
  | cons piece pieces ih =>
    have hgap := List.count_eq_zero.mpr (Lexeme.lineFeed_not_mem_gap piece.gap)
    have hlexeme := (h piece List.mem_cons_self).count_lexeme
    have hrest := ih fun other hother ↦ h other (List.mem_cons_of_mem _ hother)
    have hjoin : join (piece :: pieces) = piece.gap.text ++ piece.token.lexeme ++ join pieces := rfl
    rw [hjoin, List.count_append, List.count_append, hgap, hlexeme, hrest, List.map_cons,
      List.countP_cons]
    simp [Nat.add_comm]

theorem Token.WellSpelled.lexeme_ne_nil {token : Token} (h : token.WellSpelled)
    (hkind : token.kind ≠ .endOfInput) : token.lexeme ≠ [] := by
  obtain ⟨kind, spelling, location⟩ := token
  cases kind with
  | endOfInput => exact absurd rfl hkind
  | newline =>
    obtain rfl : spelling = "\n" := h
    change "\n".toList ≠ []
    decide
  | number =>
    rcases h with hdigits | ⟨whole, fraction, _, _, htext⟩
    · exact hdigits.1
    · change spelling.toList ≠ []
      simp [htext]
  | identifier =>
    obtain ⟨⟨first, rest, hword, _⟩, _⟩ := h
    change spelling.toList ≠ []
    simp [hword]
  | string => simp [lexeme]
  | keyword word =>
    obtain rfl : spelling = word.spelling := h
    change word.spelling.toList ≠ []
    cases word <;> decide
  | operator sign =>
    obtain rfl : spelling = sign.symbol := h
    change sign.symbol.toList ≠ []
    cases sign <;> decide
  | comparison sign =>
    obtain rfl : spelling = sign.symbol := h
    change sign.symbol.toList ≠ []
    cases sign <;> decide

/-- Every token of a stream has a place behind what was moved over before it. -/
theorem Cursor.exists_location_of_mem_stream {c : Cursor} {front : List Char}
    (h : c.IsBehind front) {token : Token} (htoken : token ∈ (stream c).tokens) :
    ∃ between, token.location = .behind c.file (front ++ between) := by
  obtain ⟨pieces, rest, htokens, _, hplaced, _⟩ := exists_pieces c front h
  rw [← htokens] at htoken
  obtain ⟨piece, hpiece, rfl⟩ := List.mem_map.mp htoken
  obtain ⟨before, after, hsplit⟩ := List.append_of_mem hpiece
  exact ⟨_, by rw [hplaced before piece after hsplit, List.append_assoc]⟩

theorem Cursor.nodup_locations (c : Cursor) : ∀ front, c.IsBehind front →
    ((stream c).tokens.map (·.location)).Nodup := by
  fun_induction stream c with
  | case1 c fault stop hnext => simp
  | case2 c token c' hnext hkind => simp
  | case3 c token c' hnext hkind later ih =>
    intro front h
    obtain ⟨gap, _, hfile, hplace⟩ := exists_gap_of_next hnext
    obtain ⟨hlocation, hbehind⟩ := hplace front h
    have hlexeme := (wellSpelled_of_next hnext).lexeme_ne_nil hkind
    rw [List.map_cons, List.nodup_cons]
    refine ⟨fun hmem ↦ ?_, ih _ hbehind⟩
    obtain ⟨other, hother, heq⟩ := List.mem_map.mp hmem
    obtain ⟨between, hbetween⟩ := exists_location_of_mem_stream hbehind hother
    rw [hbetween, hlocation, hfile] at heq
    have happend : front ++ (gap.text ++ token.lexeme) ++ between =
        front ++ gap.text ++ (token.lexeme ++ between) := by simp
    rw [happend] at heq
    exact hlexeme (List.append_eq_nil_iff.mp (eq_nil_of_behind_append heq)).1

/-- A text without a lexical fault is made of the lexemes of its tokens and the gaps before them.
Each token has the place at which its lexeme starts, the end of the input is the last of them and no
other, and there is one line end for every line feed and one more for the last line. -/
theorem Cursor.exists_layout_of_stream (file source : String)
    (h : (stream (start file source)).fault = none) :
    ∃ pieces : List Piece, pieces.map Piece.token = (stream (start file source)).tokens ∧
      closed source = Piece.join pieces ∧ Piece.ArePlaced file [] pieces ∧
      (∃ inner last, (stream (start file source)).tokens = inner ++ [last] ∧
        last.kind = .endOfInput ∧ ∀ token ∈ inner, token.kind ≠ .endOfInput) ∧
      (stream (start file source)).tokens.countP (·.kind = .newline) =
        source.toList.count '\n' + 1 := by
  obtain ⟨pieces, rest, htokens, hrest, hplaced, hend⟩ :=
    exists_pieces (start file source) [] (isBehind_start file source)
  rw [hend h, List.append_nil] at hrest
  have hspelled : ∀ piece ∈ pieces, piece.token.WellSpelled := by
    intro piece hpiece
    apply wellSpelled_of_mem_stream (c := start file source)
    rw [← htokens]
    exact List.mem_map_of_mem hpiece
  have hcount := Piece.count_join hspelled
  rw [← hrest, htokens] at hcount
  have hclosed : (start file source).rest.count '\n' = source.toList.count '\n' + 1 := by
    simp [start, closed]
  exact ⟨pieces, htokens, hrest, hplaced, exists_last_of_stream h, by rw [← hcount, hclosed]⟩

/-- A comment, a carriage return and a string that holds a hash. -/
theorem Cursor.exists_layout_of_stream_comment :
    (stream (start "" "\tPRINT \"#\" # a\r\nLET")).fault = none ∧
    ∃ pieces : List Piece,
      closed "\tPRINT \"#\" # a\r\nLET" = Piece.join pieces ∧ Piece.ArePlaced "" [] pieces := by
  have hfault : (stream (start "" "\tPRINT \"#\" # a\r\nLET")).fault = none := by
    decide +kernel
  obtain ⟨pieces, _, hjoin, hplaced, _⟩ := exists_layout_of_stream "" _ hfault
  exact ⟨hfault, pieces, hjoin, hplaced⟩

end TeenyBasic
