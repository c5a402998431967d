import TeenyBasic.Proofs.Lexing.Concatenation
import TeenyBasic.Proofs.Lexing.Excerpt

/-!
# Flaws of a text

Reading a text comes to an end before it is used up where a lexeme should start and none does. There
are three ways in which that can be: a character that starts no lexeme, digits with a point behind
them and no digit behind the point, and a string with a forbidden character before its closing
quotation mark. A text has at most one of these flaws at its front, and it is refused exactly if it
has one. The last line of a text is closed by a line feed, which is neither a digit nor allowed in
strings, so a flaw always has a character of the text to point to.

The main statement is `fault_stream_iff_flaw`.
-/

namespace TeenyBasic

namespace Lexeme

open Text.Quoted

/-- What can be wrong at the front of a text. -/
inductive Flaw where
  /-- A character that starts no lexeme, or none with what follows it. -/
  | stray (char : Char)
  /-- Digits and a point before a character that is no digit. -/
  | brokenNumber (whole : List Char) (char : Char)
  /-- A quotation mark and the text of a string before a forbidden character. -/
  | brokenString (inner : List Char) (char : Char)
  deriving DecidableEq, Repr

namespace Flaw

def char : Flaw → Char
  | .stray c | .brokenNumber _ c | .brokenString _ c => c

/-- What stands in front of the character at which a flaw shows. -/
def front : Flaw → List Char
  | .stray _ => []
  | .brokenNumber whole _ => whole ++ ['.']
  | .brokenString inner _ => doubleQuote :: inner

def cause : Flaw → Cause
  | .stray c =>
    .unsupportedCharacter (String.singleton c) (if c = '!' then some exclamationHint else none)
  | .brokenNumber _ _ => .missingFraction
  | .brokenString _ c => .forbiddenInString (String.singleton c)

end Flaw

/-- Decides whether some lexeme starts with a character. -/
def startsLexeme (c : Char) : Bool :=
  c = '\n' || c = doubleQuote || c.isDigit || c.isAlpha ||
    ['+', '-', '*', '/', '=', '<', '>', '!'].contains c

/-- A flaw stands at the front of a text. -/
inductive Flaw.StartsAt : Flaw → List Char → Prop
  | stray {c : Char} {rest : List Char} (hc : startsLexeme c = false) :
    (stray c).StartsAt (c :: rest)
  | exclamation {rest : List Char} (hrest : rest.head? ≠ some '=') :
    (stray '!').StartsAt ('!' :: rest)
  | brokenNumber {whole rest : List Char} {c : Char} (hwhole : IsDigits whole)
    (hc : c.isDigit = false) : (brokenNumber whole c).StartsAt (whole ++ '.' :: c :: rest)
  | brokenString {inner rest : List Char} {c : Char}
    (hinner : ∀ char ∈ inner, isStringText char = true) (hc : isForbidden c = true) :
    (brokenString inner c).StartsAt (doubleQuote :: (inner ++ c :: rest))

namespace Flaw

variable {flaw other : Flaw} {text : List Char}

theorem StartsAt.exists_tail (h : flaw.StartsAt text) :
    ∃ tail, text = flaw.front ++ flaw.char :: tail := by
  cases h with
  | stray hc => exact ⟨_, rfl⟩
  | exclamation hrest => exact ⟨_, rfl⟩
  | @brokenNumber whole rest c hwhole hc => exact ⟨rest, by simp [front, char]⟩
  | brokenString hinner hc => exact ⟨_, rfl⟩

theorem eq_of_parts (hcause : flaw.cause = other.cause) (hfront : flaw.front = other.front)
    (hchar : flaw.char = other.char) : flaw = other := by
  cases flaw <;> cases other <;> simp_all [cause, front, char]

end Flaw

theorem isStringText_of_isForbidden {c : Char} (h : isForbidden c = true) :
    isStringText c = false := by
  simp [isStringText, h]

theorem scanSymbol_of_startsLexeme {c : Char} (h : startsLexeme c = false) (rest : List Char) :
    scanSymbol c rest = .fault (.unsupportedCharacter (String.singleton c) none) 0 := by
  unfold scanSymbol
  split
  case h_13 => rfl
  all_goals cases h

theorem scan_of_startsLexeme {c : Char} (h : startsLexeme c = false) (rest : List Char) :
    scan (c :: rest) = .fault (.unsupportedCharacter (String.singleton c) none) 0 := by
  have hsymbol := scanSymbol_of_startsLexeme h rest
  simp only [startsLexeme, Bool.or_eq_false_iff, decide_eq_false_iff_not] at h
  obtain ⟨⟨⟨⟨hfeed, hquote⟩, hdigit⟩, halpha⟩, _⟩ := h
  simp [scan, hfeed, hquote, hdigit, halpha, hsymbol]

theorem scan_exclamation {rest : List Char} (h : rest.head? ≠ some '=') :
    scan ('!' :: rest) = .fault (.unsupportedCharacter "!" (some exclamationHint)) 0 := by
  have hscan : scan ('!' :: rest) = scanSymbol '!' rest := rfl
  rw [hscan]
  cases rest with
  | nil => rfl
  | cons c tail =>
    have hc : c ≠ '=' := by simpa using h
    simp [scanSymbol, hc]

theorem scan_of_isDigits {whole : List Char} (h : IsDigits whole) (rest : List Char) :
    scan (whole ++ rest) = scanNumber (whole ++ rest) := by
  obtain ⟨first, tail, rfl⟩ := List.exists_cons_of_ne_nil h.1
  have hdigit := h.2 first List.mem_cons_self
  have hfeed : first ≠ '\n' := by
    rintro rfl
    cases hdigit
  have hquote : first ≠ doubleQuote := by
    rintro rfl
    cases hdigit
  simp [scan, hfeed, hquote, hdigit]

theorem scan_brokenNumber {whole : List Char} {c : Char} (hwhole : IsDigits whole)
    (hc : c.isDigit = false) (rest : List Char) :
    scan (whole ++ '.' :: c :: rest) = .fault .missingFraction (whole.length + 1) := by
  have hstop : ∀ d ∈ ('.' :: c :: rest).head?, d.isDigit = false := by simp
  rw [scan_of_isDigits hwhole, scanNumber, takeWhile_append_of_stops hwhole.2 hstop,
    dropWhile_append_of_stops hwhole.2 hstop]
  simp [hc]

theorem scan_brokenString {inner : List Char} {c : Char}
    (hinner : ∀ char ∈ inner, isStringText char = true) (hc : isForbidden c = true)
    (rest : List Char) :
    scan (doubleQuote :: (inner ++ c :: rest)) =
      .fault (.forbiddenInString (String.singleton c)) (inner.length + 1) := by
  have hstop : ∀ d ∈ (c :: rest).head?, isStringText d = false := by
    simpa using isStringText_of_isForbidden hc
  have hquote : c ≠ doubleQuote := by
    rintro rfl
    cases hc
  have hscan : scan (doubleQuote :: (inner ++ c :: rest)) = scanString (inner ++ c :: rest) := by
    simp [scan, doubleQuote]
  rw [hscan, scanString, takeWhile_append_of_stops hinner hstop,
    dropWhile_append_of_stops hinner hstop]
  simp [hquote]

/-- A text with a flaw at its front is refused for it, and accepted up to the character at which it
shows. -/
theorem Flaw.StartsAt.scan_eq {flaw : Flaw} {text : List Char} (h : flaw.StartsAt text) :
    scan text = .fault flaw.cause flaw.front.length := by
  cases h with
  | @stray c rest hc =>
    have hne : c ≠ '!' := by
      rintro rfl
      cases hc
    rw [scan_of_startsLexeme hc]
    simp [cause, front, hne]
  | exclamation hrest => exact scan_exclamation hrest
  | brokenNumber hwhole hc =>
    rw [scan_brokenNumber hwhole hc]
    simp [cause, front]
  | brokenString hinner hc => exact scan_brokenString hinner hc _

/-- No text has two flaws at its front. -/
theorem Flaw.StartsAt.unique {flaw other : Flaw} {text : List Char} (h : flaw.StartsAt text)
    (hother : other.StartsAt text) : other = flaw := by
  have hscan := hother.scan_eq.symm.trans h.scan_eq
  obtain ⟨hcause, hlength⟩ := Reading.fault.inj hscan
  obtain ⟨tail, htail⟩ := h.exists_tail
  obtain ⟨tail', htail'⟩ := hother.exists_tail
  obtain ⟨hfront, hrest⟩ := List.append_inj (htail'.symm.trans htail) hlength
  exact eq_of_parts hcause hfront (List.cons.inj hrest).1

section

variable {text rest : List Char} {cause : Cause} {offset : Nat}

theorem exists_flaw_of_scanString (hclosed : '\n' ∈ rest)
    (h : scanString rest = .fault cause offset) :
    ∃ flaw : Flaw, flaw.StartsAt (doubleQuote :: rest) := by
  have hinner : ∀ char ∈ rest.takeWhile isStringText, isStringText char = true :=
    fun _ ↦ List.mem_takeWhile_imp
  have hsplit := List.takeWhile_append_dropWhile (p := isStringText) (l := rest)
  have hfeed := mem_dropWhile_of_mem hclosed (p := isStringText) (by decide)
  unfold scanString at h
  cases hdrop : rest.dropWhile isStringText with
  | nil => simp [hdrop] at hfeed
  | cons c tail =>
    have hstop : isStringText c = false := by
      have hhead := List.head?_dropWhile_not isStringText rest
      rw [hdrop] at hhead
      simpa using hhead
    rw [hdrop] at h hsplit
    dsimp only at h
    split at h
    · cases h
    · rename_i hquote
      have hforbidden : isForbidden c = true := by simpa [isStringText, hquote] using hstop
      rw [← hsplit]
      exact ⟨_, .brokenString hinner hforbidden⟩

theorem exists_flaw_of_scanNumber {first : Char} (hfirst : first.isDigit = true)
    (hclosed : '\n' ∈ first :: rest) (h : scanNumber (first :: rest) = .fault cause offset) :
    ∃ flaw : Flaw, flaw.StartsAt (first :: rest) := by
  have hwhole : IsDigits ((first :: rest).takeWhile Char.isDigit) :=
    ⟨by simp [hfirst], fun _ ↦ List.mem_takeWhile_imp⟩
  have hsplit := List.takeWhile_append_dropWhile (p := Char.isDigit) (l := first :: rest)
  have hfeed := mem_dropWhile_of_mem hclosed (p := Char.isDigit) (by decide)
  unfold scanNumber at h
  dsimp only at h
  split at h
  · rename_i tail hdrop
    rw [hdrop] at hsplit hfeed
    split at h
    · rename_i hfraction
      cases tail with
      | nil => simp at hfeed
      | cons c tail =>
        have hc : c.isDigit = false := by simpa using hfraction
        rw [← hsplit]
        exact ⟨_, .brokenNumber hwhole hc⟩
    · cases h
  · cases h

theorem exists_flaw_of_scanSymbol {c : Char} (hfeed : c ≠ '\n') (hquote : c ≠ doubleQuote)
    (hdigit : c.isDigit = false) (halpha : c.isAlpha = false)
    (h : scanSymbol c rest = .fault cause offset) : ∃ flaw : Flaw, flaw.StartsAt (c :: rest) := by
  unfold scanSymbol at h
  split at h <;> cases h
  · rename_i hnext
    refine ⟨_, .exclamation fun hhead ↦ ?_⟩
    obtain ⟨tail, rfl⟩ := List.head?_eq_some_iff.mp hhead
    exact hnext tail rfl
  · refine ⟨_, .stray ?_⟩
    simp_all [startsLexeme]

/-- A text whose last line is closed and that is refused has a flaw at its front. -/
theorem exists_flaw_of_scan (hclosed : '\n' ∈ text) (h : scan text = .fault cause offset) :
    ∃ flaw : Flaw, flaw.StartsAt text := by
  unfold scan at h
  split at h
  · cases h
  · rename_i c rest
    split at h
    · cases h
    rename_i hfeed
    have hrest : '\n' ∈ rest := by simpa [Ne.symm hfeed] using hclosed
    split at h
    · rename_i hquote
      rw [hquote]
      exact exists_flaw_of_scanString hrest h
    rename_i hquote
    split at h
    · rename_i hdigit
      exact exists_flaw_of_scanNumber hdigit hclosed h
    rename_i hdigit
    split at h
    · cases h
    · rename_i halpha
      exact exists_flaw_of_scanSymbol hfeed hquote (by simpa using hdigit) (by simpa using halpha) h

end

theorem gap_of_head?_ne {text : List Char} (hblank : ∀ c ∈ text.head?, isBlank c = false)
    (hnote : text.head? ≠ some '#') : gap text = [] := by
  cases text with
  | nil => rfl
  | cons c rest =>
    have hc : isBlank c = false := hblank c rfl
    have hhash : c ≠ '#' := by simpa using hnote
    simp [gap, comment, hc, hhash]

theorem gap_of_takeWhile_append {line rest : List Char}
    (h : line.takeWhile (· ≠ '\n') ++ rest = line) : gap rest = [] := by
  have hline := List.takeWhile_append_dropWhile (p := (· ≠ '\n')) (l := line)
  have hend : rest = line.dropWhile (· ≠ '\n') := List.append_cancel_left (h.trans hline.symm)
  have hfeed := List.head?_dropWhile_not (· ≠ '\n') line
  rw [← hend] at hfeed
  cases rest with
  | nil => rfl
  | cons c tail =>
    obtain rfl : c = '\n' := by simpa using hfeed
    rfl

theorem gap_drop_gap (text : List Char) : gap (text.drop (gap text).length) = [] := by
  have hrest := List.prefix_iff_eq_append.mp (gap_isPrefix text)
  generalize text.drop (gap text).length = rest at hrest ⊢
  have hsplit := List.takeWhile_append_dropWhile (p := isBlank) (l := text)
  have hblank := List.head?_dropWhile_not isBlank text
  have hbehind : comment (text.dropWhile isBlank) ++ rest = text.dropWhile isBlank := by
    rw [← List.append_right_inj (text.takeWhile isBlank), ← List.append_assoc, hsplit]
    exact hrest
  generalize text.dropWhile isBlank = behind at hblank hbehind
  unfold comment at hbehind
  split at hbehind
  · rw [List.cons_append, List.cons.injEq] at hbehind
    exact gap_of_takeWhile_append hbehind.2
  · rename_i hnote
    rw [List.nil_append] at hbehind
    subst hbehind
    refine gap_of_head?_ne (fun c hc ↦ ?_) fun hhead ↦ ?_
    · rw [hc] at hblank
      simpa using hblank
    · obtain ⟨tail, rfl⟩ := List.head?_eq_some_iff.mp hhead
      exact hnote tail rfl

end Lexeme

namespace Cursor

open Lexeme

theorem skipGap_skipGap (c : Cursor) : c.skipGap.skipGap = c.skipGap := by
  have hgap : gap c.skipGap.rest = [] := by
    rw [rest_skipGap]
    exact gap_drop_gap c.rest
  rw [skipGap, hgap]
  rfl

/-- Pulling tokens other than the end of the input, one after another. -/
inductive Pulls : Cursor → List Token → Cursor → Prop
  | refl (c : Cursor) : Pulls c [] c
  | step {c c' last : Cursor} {token : Token} {tokens : List Token}
    (hnext : next c = .ok token c') (hkind : token.kind ≠ .endOfInput)
    (h : Pulls c' tokens last) : Pulls c (token :: tokens) last

section

variable {c last : Cursor} {tokens : List Token}

/-- Tokens that can be pulled are those that the stream starts with. -/
theorem Pulls.stream_eq (h : Pulls c tokens last) :
    stream c = { stream last with tokens := tokens ++ (stream last).tokens } := by
  induction h with
  | refl c => rfl
  | step hnext hkind _ ih => rw [stream_of_ne_endOfInput hnext hkind, ih, List.cons_append]

/-- Pulled tokens, with the gaps before them, are what has been read of the text. -/
theorem Pulls.exists_pieces (h : Pulls c tokens last) {front : List Char}
    (hfront : c.IsBehind front) :
    ∃ pieces : List Piece, pieces.map Piece.token = tokens ∧
      c.rest = Piece.join pieces ++ last.rest ∧ Piece.ArePlaced c.file front pieces ∧
      last.file = c.file ∧ last.IsBehind (front ++ Piece.join pieces) := by
  induction h generalizing front with
  | refl c =>
    refine ⟨[], rfl, rfl, Piece.arePlaced_nil _ _, rfl, ?_⟩
    simpa [Piece.join] using hfront
  | @step c c' last token tokens hnext hkind h ih =>
    obtain ⟨gap, hrest, hfile, hplace⟩ := exists_gap_of_next hnext
    obtain ⟨hlocation, hbehind⟩ := hplace front hfront
    obtain ⟨pieces, rfl, hlater, hplaced, hsame, hlast⟩ := ih hbehind
    have hjoin : Piece.join (⟨gap, token⟩ :: pieces) =
        gap.text ++ token.lexeme ++ Piece.join pieces := rfl
    rw [hfile] at hplaced
    refine ⟨⟨gap, token⟩ :: pieces, rfl, ?_, Piece.arePlaced_cons hlocation hplaced,
      hsame.trans hfile, ?_⟩
    · rw [hrest, hlater, hjoin]
      simp
    · rw [hjoin, ← List.append_assoc]
      exact hlast

theorem Pulls.isClosed (h : Pulls c tokens last) (hclosed : c.IsClosed) : last.IsClosed := by
  induction h with
  | refl c => exact hclosed
  | step hnext _ _ ih => exact ih (hclosed.of_suffix (suffix_of_next hnext))

theorem exists_pulls_of_fault {fault : Diagnostic} (h : (stream c).fault = some fault) :
    ∃ last, Pulls c (stream c).tokens last ∧ next last = .error fault (stream c).stop := by
  fun_induction stream c with
  | case1 c fault' stop hnext =>
    obtain rfl : fault' = fault := Option.some.inj h
    exact ⟨c, .refl c, hnext⟩
  | case2 c token c' hnext hkind => cases h
  | case3 c token c' hnext hkind later ih =>
    obtain ⟨last, hpulls, hlast⟩ := ih h
    exact ⟨last, .step hnext hkind hpulls, hlast⟩

end

section

variable {c : Cursor} {flaw : Flaw}

theorem next_of_startsAt (h : flaw.StartsAt c.skipGap.rest) :
    let stop := c.skipGap.advanceBy flaw.front.length
    next c = .error ⟨flaw.cause, some stop.location, some stop.currentLine⟩ stop := by
  simp only [next, take, h.scan_eq]

theorem exists_flaw_of_next {c' : Cursor} {fault : Diagnostic} (hclosed : c.IsClosed)
    (h : next c = .error fault c') : ∃ flaw : Flaw, flaw.StartsAt c.skipGap.rest := by
  have hfeed : '\n' ∈ c.skipGap.rest := by
    have hne : c.rest ≠ [] := by
      intro hnil
      simp [next, take, hnil, scan] at h
    rw [rest_skipGap]
    exact lineFeed_mem_drop_gap (hclosed.lineFeed_mem hne)
  simp only [next, take] at h
  split at h
  · cases h
  · rename_i hscan
    exact exists_flaw_of_scan hfeed hscan

/-- On a character that starts no lexeme a cursor stays, and fails again in the same way. -/
theorem next_of_stray {char : Char} {c' : Cursor} {fault : Diagnostic}
    (h : (Flaw.stray char).StartsAt c.skipGap.rest) (hnext : next c = .error fault c') :
    next c' = .error fault c' := by
  have hstop := next_of_startsAt h
  rw [hnext] at hstop
  obtain ⟨rfl, rfl⟩ := EStateM.Result.error.inj hstop
  rw [← hnext]
  change c.skipGap.skipGap.take = c.skipGap.take
  rw [skipGap_skipGap]

end

/-! ## Whole texts -/

/-- The place at which a source text is refused: behind tokens with their gaps, one more gap and
what stands in front of the character at which a flaw shows. -/
structure StopsAt (file source : String) (tokens : List Token) (flaw : Flaw) (rest : List Char)
    (location : Location) : Prop where
  startsAt : flaw.StartsAt rest
  exists_layout : ∃ (pieces : List Piece) (space : Gap),
    pieces.map Piece.token = tokens ∧ Piece.ArePlaced file [] pieces ∧
    closed source = Piece.join pieces ++ space.text ++ rest ∧
    location = .behind file (Piece.join pieces ++ space.text ++ flaw.front)

/-- A source text is refused where a flaw shows behind the tokens that can be pulled from it, and
the line of that place is quoted. -/
theorem stopsAt_of_pulls {file source : String} {tokens : List Token} {c : Cursor} {flaw : Flaw}
    (h : Pulls (start file source) tokens c) (hflaw : flaw.StartsAt c.skipGap.rest) :
    let stop := c.skipGap.advanceBy flaw.front.length
    StopsAt file source tokens flaw c.skipGap.rest stop.location ∧
      some stop.currentLine = Text.line? (closed source) stop.location.line := by
  intro stop
  obtain ⟨pieces, htokens, hrest, hplaced, hfile, hbehind⟩ :=
    h.exists_pieces (isBehind_start file source)
  obtain ⟨space, hspace⟩ := exists_gap c.rest
  obtain ⟨tail, htail⟩ := hflaw.exists_tail
  have hskipped : c.skipGap.IsBehind (Piece.join pieces ++ space.text) := by
    rw [hspace]
    exact hbehind.of_isPrefix (gap_isPrefix c.rest)
  have hprefix : flaw.front <+: c.skipGap.rest := ⟨_, htail.symm⟩
  have hstop : stop.IsBehind (Piece.join pieces ++ space.text ++ flaw.front) :=
    hskipped.of_isPrefix hprefix
  have htext : closed source = Piece.join pieces ++ space.text ++ c.skipGap.rest := by
    have hgap := rest_of_isPrefix (gap_isPrefix c.rest)
    have hclosed : closed source = Piece.join pieces ++ c.rest := hrest
    rw [hclosed, List.append_assoc, hspace]
    exact congrArg _ hgap
  have hplace : stop.location = .behind file (Piece.join pieces ++ space.text ++ flaw.front) := by
    rw [hstop.location_eq, file_advanceBy, skipGap, file_advanceBy, hfile]
    rfl
  refine ⟨⟨hflaw, pieces, space, htokens, hplaced, htext, hplace⟩, hstop.currentLine_eq ?_⟩
  rw [htext, List.append_assoc _ flaw.front]
  exact congrArg _ (rest_of_isPrefix hprefix)

/-- A text is refused if and only if reading it comes to a flaw, and then it is refused there:
behind all tokens that are given, and for the cause and at the character that the one flaw
determines. A character that starts no lexeme stays the next one to be read and is refused
again. -/
theorem fault_stream_iff_flaw (file source : String) :
    let stream := stream (start file source)
    (stream.fault ≠ none ↔ ∃ tokens c flaw, Pulls (start file source) tokens c ∧
      Flaw.StartsAt flaw c.skipGap.rest) ∧
    ∀ fault, stream.fault = some fault → ∃ flaw rest location,
      StopsAt file source stream.tokens flaw rest location ∧
      (∀ other : Flaw, other.StartsAt rest → other = flaw) ∧
      fault = ⟨flaw.cause, some location, Text.line? (closed source) location.line⟩ ∧
      stream.stop.rest = rest.drop flaw.front.length ∧
      ∀ char, flaw = .stray char → next stream.stop = .error fault stream.stop := by
  intro stream
  have hflaw : ∀ fault, stream.fault = some fault → ∃ c flaw,
      Pulls (start file source) stream.tokens c ∧ Flaw.StartsAt flaw c.skipGap.rest ∧
        next c = .error fault stream.stop := by
    intro fault hfault
    obtain ⟨c, hpulls, hnext⟩ := exists_pulls_of_fault hfault
    obtain ⟨flaw, hstarts⟩ :=
      exists_flaw_of_next (hpulls.isClosed (isClosed_start file source)) hnext
    exact ⟨c, flaw, hpulls, hstarts, hnext⟩
  refine ⟨⟨fun hfault ↦ ?_, ?_⟩, fun fault hfault ↦ ?_⟩
  · obtain ⟨fault, hfault⟩ := Option.ne_none_iff_exists'.mp hfault
    obtain ⟨c, flaw, hpulls, hstarts, _⟩ := hflaw fault hfault
    exact ⟨_, c, flaw, hpulls, hstarts⟩
  · rintro ⟨tokens, c, flaw, hpulls, hstarts⟩
    have hstream := hpulls.stream_eq
    rw [stream_of_error (next_of_startsAt hstarts)] at hstream
    simp [stream, hstream]
  · obtain ⟨c, flaw, hpulls, hstarts, hnext⟩ := hflaw fault hfault
    obtain ⟨hstops, hline⟩ := stopsAt_of_pulls hpulls hstarts
    obtain ⟨rfl, hstop⟩ :=
      EStateM.Result.error.inj (hnext.symm.trans (next_of_startsAt hstarts))
    refine ⟨flaw, _, _, hstops, fun _ ↦ hstarts.unique, by rw [hline], ?_, ?_⟩
    · rw [hstop, rest_advanceBy]
    · rintro char rfl
      exact next_of_stray hstarts hnext

/-- An exclamation mark in a comment is passed over, and one that stands alone is refused for
ever. -/
theorem fault_stream_iff_flaw_exclamation :
    ∃ fault, (stream (start "" "LET # !\n !")).fault = some fault ∧
      fault.cause = .unsupportedCharacter "!" (some exclamationHint) ∧
      fault.location = some ⟨"", 2, 2⟩ ∧
      next (stream (start "" "LET # !\n !")).stop =
        .error fault (stream (start "" "LET # !\n !")).stop := by
  have hfault : (stream (start "" "LET # !\n !")).fault =
      some ⟨.unsupportedCharacter "!" (some exclamationHint), some ⟨"", 2, 2⟩, some " !"⟩ := by
    decide +kernel
  obtain ⟨flaw, rest, location, _, _, hcause, _, hagain⟩ :=
    (fault_stream_iff_flaw "" "LET # !\n !").2 _ hfault
  refine ⟨_, hfault, rfl, rfl, ?_⟩
  cases flaw with
  | stray char => exact hagain char rfl
  | brokenNumber whole char => cases hcause
  | brokenString inner char => cases hcause

end Cursor

end TeenyBasic
