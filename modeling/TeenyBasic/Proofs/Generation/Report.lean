import TeenyBasic.Proofs.Generation.Expectation
import TeenyBasic.Proofs.Generation.Simulation
import TeenyBasic.Proofs.Lexing.Excerpt
import TeenyBasic.Proofs.Text.Quotation

/-!
# Reports

A fault of a compilation comes from a cursor that cannot go on, or from a generator, which may give
the place of the token it looks at, of a token before it or of a name in one of its tables. Wherever
it comes from, its place is one of the source text, the line it quotes is the one of that place, and
the line goes on there with what is wrong. That is an invariant of the generator's conduct: its
cursor, its token and its tables belong to the source text.

Messages and hints are texts of one line, so a report has a line for each of its parts. The main
statement is `exists_line_of_compile`.
-/

namespace TeenyBasic

theorem lineFeed_not_mem_of_isPrintable {text : List Char}
    (h : ∀ c ∈ text, Text.Printable.isPrintable c = true) : '\n' ∉ text := by
  intro hmem
  have hprintable := h '\n' hmem
  revert hprintable
  decide +kernel

theorem lineFeed_not_mem_repr (n : Int) : '\n' ∉ n.repr.toList :=
  lineFeed_not_mem_of_isPrintable (Text.isPrintable_of_mem_repr n)

theorem lineFeed_not_mem_quoted (text : String) : '\n' ∉ (Text.quoted text).toList :=
  lineFeed_not_mem_of_isPrintable (Text.isPrintable_of_mem_quoted text)

theorem lineFeed_not_mem_of_wellSpelled {token : Token} (h : token.WellSpelled)
    (hkind : token.kind = .identifier) : '\n' ∉ token.spelling.toList :=
  lineFeed_not_mem_of_isWord (h.identifier hkind)

theorem Kind.lineFeed_not_mem_description (kind : Kind) : '\n' ∉ kind.description.toList := by
  cases kind with
  | keyword word => cases word <;> decide
  | operator sign => cases sign <;> decide
  | comparison sign => cases sign <;> decide
  | _ => decide

theorem lineFeed_not_mem_of_isExpectation {text : String} (h : IsExpectation text) :
    '\n' ∉ text.toList := by
  rcases h with ⟨kind, rfl⟩ | hmem
  · exact kind.lineFeed_not_mem_description
  · have hall : ∀ text ∈ ["a statement", "a number or variable", "a comparison operator"],
        '\n' ∉ text.toList := by
      decide
    exact hall text hmem

theorem Token.WellSpelled.lineFeed_not_mem_description {token : Token} (h : token.WellSpelled) :
    '\n' ∉ token.description.toList := by
  unfold Token.description
  split
  · rename_i hkind
    have hspelling := lineFeed_not_mem_of_wellSpelled h hkind
    simpa [toString, hkind, Kind.description] using hspelling
  · rename_i hkind
    have hspelling : '\n' ∉ token.spelling.toList := lineFeed_not_mem_of_isNumeral (h.number hkind)
    simpa [toString, hkind, Kind.description] using hspelling
  · rename_i hkind
    have hspelling : '\n' ∉ token.spelling.toList :=
      lineFeed_not_mem_of_isStringText (h.string hkind)
    simpa [toString] using hspelling
  · exact Kind.lineFeed_not_mem_description _

theorem Location.lineFeed_not_mem_text {location : Location} (h : '\n' ∉ location.file.toList) :
    '\n' ∉ location.text.toList := by
  simp [Location.text, toString, h, lineFeed_not_mem_repr]

/-- A cause whose message and hint take one line each. -/
def Cause.IsOneLine (cause : Cause) : Prop :=
  '\n' ∉ cause.text.toList ∧ ∀ hint, cause.hint = some hint → '\n' ∉ hint.toList

theorem lineFeed_not_mem_intercalate {separator : String} {pieces : List String}
    (hseparator : '\n' ∉ separator.toList) (h : ∀ piece ∈ pieces, '\n' ∉ piece.toList) :
    '\n' ∉ (separator.intercalate pieces).toList := by
  induction pieces with
  | nil => simp
  | cons first others ih =>
    have hfirst := h first List.mem_cons_self
    have hothers := ih fun piece hpiece ↦ h piece (List.mem_cons_of_mem _ hpiece)
    cases others with
    | nil => simpa using hfirst
    | cons second others =>
      rw [String.intercalate_cons_cons]
      simp only [String.toList_append, List.mem_append, not_or]
      exact ⟨⟨hfirst, hseparator⟩, hothers⟩

theorem lineFeed_not_mem_enumerate {names : List String} (h : ∀ name ∈ names, '\n' ∉ name.toList) :
    '\n' ∉ (Cause.enumerate names).toList := by
  refine lineFeed_not_mem_intercalate (by simp) fun piece hpiece ↦ ?_
  obtain ⟨name, hname, rfl⟩ := List.mem_map.mp hpiece
  simp [toString, h name hname]

theorem Similarity.closest_subset (limit : Nat) (name : String) (candidates : List String) :
    closest limit name candidates ⊆ candidates := by
  intro candidate hmem
  obtain ⟨ranked, hranked, rfl⟩ := List.mem_map.mp hmem
  have hsorted := List.mem_mergeSort.mp (List.take_subset _ _ hranked)
  obtain ⟨original, horiginal, rfl⟩ := List.mem_map.mp (List.mem_filter.mp hsorted).1
  exact horiginal

namespace Cause

theorem isOneLine_undeclared {name : String} {known : List String}
    (hname : '\n' ∉ name.toList) (hknown : ∀ other ∈ known, '\n' ∉ other.toList) :
    (undeclared name known).IsOneLine := by
  refine ⟨by simp [toString, undeclared, text.eq_def, hname], fun hint hhint ↦ ?_⟩
  have hsimilar : ∀ other ∈ Similarity.closest Similarity.defaultLimit name known,
      '\n' ∉ other.toList :=
    fun other hother ↦ hknown other (Similarity.closest_subset _ _ _ hother)
  rw [undeclared] at hhint
  cases hlist : Similarity.closest Similarity.defaultLimit name known with
  | nil =>
    rw [hlist] at hhint
    cases hhint
    simp [toString, hname]
  | cons first others =>
    rw [hlist] at hhint hsimilar
    cases hhint
    simp [toString, lineFeed_not_mem_enumerate hsimilar]

theorem isOneLine_reservedName {name : String} (hname : '\n' ∉ name.toList) :
    (reservedName name).IsOneLine := by
  refine ⟨by simp [toString, text.eq_def, hname], fun hint hhint ↦ ?_⟩
  cases hhint
  simp [toString, hname]

theorem isOneLine_undefinedLabel {name : String} (hname : '\n' ∉ name.toList) :
    (undefinedLabel name).IsOneLine := by
  refine ⟨by simp [toString, text.eq_def, hname], fun hint hhint ↦ ?_⟩
  cases hhint
  simp [toString, hname]

theorem isOneLine_duplicateLabel {name : String} {first : Option Location}
    (hname : '\n' ∉ name.toList)
    (hfirst : ∀ location, first = some location → '\n' ∉ location.file.toList) :
    (duplicateLabel name first).IsOneLine := by
  refine ⟨by simp [toString, text.eq_def, hname], fun hint hhint ↦ ?_⟩
  cases first with
  | none => cases hhint
  | some location =>
    cases hhint
    simp [toString, hname, Location.lineFeed_not_mem_text (hfirst location rfl)]

theorem isOneLine_unexpectedToken {expected found : String}
    (hexpected : '\n' ∉ expected.toList) (hfound : '\n' ∉ found.toList) :
    (unexpectedToken expected found).IsOneLine := by
  refine ⟨by simp [toString, text.eq_def, hexpected, hfound], fun hint hhint ↦ ?_⟩
  cases hhint

theorem isOneLine_nestedTooDeeply (limit : Int) : (nestedTooDeeply limit).IsOneLine := by
  refine ⟨by simp [toString, text.eq_def, lineFeed_not_mem_repr], fun hint hhint ↦ ?_⟩
  cases hhint

theorem isOneLine_of_faultsAt {text : List Char} {cause : Cause} {offset : Nat}
    (h : Lexeme.FaultsAt text cause offset) : cause.IsOneLine := by
  cases h with
  | unsupported hc hhint =>
    refine ⟨by simp [toString, Cause.text.eq_def, lineFeed_not_mem_quoted], fun hint heq ↦ ?_⟩
    rcases hhint with rfl | rfl
    · cases heq
    · cases heq
      decide
  | forbidden hinner hc =>
    refine ⟨by simp [toString, Cause.text.eq_def, lineFeed_not_mem_quoted], fun hint heq ↦ ?_⟩
    cases heq
    split <;> decide
  | unclosed hinner =>
    refine ⟨by simp [toString, Cause.text.eq_def, lineFeed_not_mem_quoted], fun hint heq ↦ ?_⟩
    cases heq
    split <;> decide
  | pointed hwhole =>
    refine ⟨by decide, fun hint heq ↦ ?_⟩
    cases heq
    decide

end Cause

/-- The rest of a line shows what a cause is about: the character, the name, or the lexeme of the
token at the place. A line feed and the end of the input show nothing but the end of the line. -/
def Cause.IsShown (tokens : List Token) (location : Location) (tail : List Char) : Cause → Prop
  | .unsupportedCharacter char _ | .forbiddenInString char =>
    ∃ c, char = String.singleton c ∧ if c = '\n' then tail = [] else [c] <+: tail
  | .unexpectedToken _ found =>
    ∃ token ∈ tokens, token.location = location ∧ token.description = found ∧
      if token.kind = .newline ∨ token.kind = .endOfInput then tail = []
      else token.lexeme <+: tail
  | .undeclaredVariable name _ | .duplicateLabel name _ | .undefinedLabel name
  | .reservedName name => name.toList <+: tail
  | .missingFraction | .nestedTooDeeply _ => True
  | .unconfigured | .unwritable .. | .stated .. => False

theorem isPrefix_takeWhile {text rest : List Char} (h : '\n' ∉ text) (hrest : text <+: rest) :
    text <+: rest.takeWhile (· ≠ '\n') := by
  obtain ⟨tail, rfl⟩ := hrest
  rw [List.takeWhile_append_of_pos]
  · exact List.prefix_append _ _
  · intro c hc
    simpa using fun heq : c = '\n' ↦ h (heq ▸ hc)

theorem Cause.isShown_of_faultsAt {text : List Char} {cause : Cause} {offset : Nat}
    (h : Lexeme.FaultsAt text cause offset) (tokens : List Token) (location : Location) :
    cause.IsShown tokens location ((text.drop offset).takeWhile (· ≠ '\n')) := by
  cases h with
  | unsupported hc hhint =>
    rename_i c rest hint
    refine ⟨c, rfl, ?_⟩
    rw [if_neg hc]
    exact isPrefix_takeWhile (by simpa using Ne.symm hc) ⟨rest, rfl⟩
  | forbidden hinner hc =>
    rename_i inner rest c
    have hdrop : (Text.Quoted.doubleQuote :: (inner ++ c :: rest)).drop (inner.length + 1) =
        c :: rest := by simp
    refine ⟨c, rfl, ?_⟩
    rw [hdrop]
    split
    · rename_i hfeed
      simp [hfeed]
    · rename_i hfeed
      exact isPrefix_takeWhile (by simpa using Ne.symm hfeed) ⟨rest, rfl⟩
  | unclosed hinner =>
    refine ⟨'\n', rfl, ?_⟩
    simp
  | pointed hwhole => trivial

/-- Only the cause that is about a token depends on the tokens there are. -/
theorem Cause.IsShown.mono {tokens tokens' : List Token} {location : Location} {tail : List Char}
    {cause : Cause} (h : cause.IsShown tokens location tail)
    (hsubset : ∀ expected found, cause = .unexpectedToken expected found →
      ∀ token ∈ tokens, token ∈ tokens') : cause.IsShown tokens' location tail := by
  cases cause with
  | unexpectedToken expected found =>
    obtain ⟨token, hmem, hrest⟩ := h
    exact ⟨token, hsubset expected found rfl token hmem, hrest⟩
  | _ => exact h

/-- A token that stands in a source text at its place. -/
structure Token.IsPlaced (file source : String) (token : Token) : Prop where
  wellSpelled : token.WellSpelled
  isPlace : ∃ rest, IsPlace file source token.location (token.lexeme ++ rest) ∧
    (token.kind = .endOfInput → rest = [])

section

variable {file source : String} {token : Token}

/-- The line of a token goes on with its lexeme. -/
theorem Token.IsPlaced.isShown (h : token.IsPlaced file source) {tokens : List Token}
    (hmem : token ∈ tokens) (expected : String) :
    ∃ rest, IsPlace file source token.location rest ∧
      (Cause.unexpectedToken expected token.description).IsShown tokens token.location
        (rest.takeWhile (· ≠ '\n')) := by
  obtain ⟨rest, hplace, hend⟩ := h.isPlace
  refine ⟨_, hplace, token, hmem, rfl, rfl, ?_⟩
  split
  · rename_i hkind
    rcases hkind with hnewline | hinput
    · have hspelling : token.spelling = "\n" := by
        simpa [Token.WellSpelled, hnewline] using h.wellSpelled
      simp [Token.lexeme, hnewline, hspelling]
    · simp [Token.lexeme, hinput, hend hinput]
  · rename_i hkind
    refine isPrefix_takeWhile (h.wellSpelled.lineFeed_not_mem fun hnewline ↦ ?_) ⟨rest, rfl⟩
    exact hkind (Or.inl hnewline)

theorem Token.IsPlaced.exists_name (h : token.IsPlaced file source)
    (hkind : token.kind = .identifier) :
    ∃ rest, IsPlace file source token.location rest ∧
      token.spelling.toList <+: rest.takeWhile (· ≠ '\n') := by
  obtain ⟨rest, hplace, _⟩ := h.isPlace
  have hlexeme : token.lexeme = token.spelling.toList := by simp [Token.lexeme, hkind]
  rw [hlexeme] at hplace
  exact ⟨_, hplace, isPrefix_takeWhile (lineFeed_not_mem_of_wellSpelled h.wellSpelled hkind)
    ⟨rest, rfl⟩⟩

/-- An entry of a table that was made for an identifier of the source text. -/
def IsNoted (file source : String) (entry : String × Location) : Prop :=
  ∃ token : Token, token.IsPlaced file source ∧ token.kind = .identifier ∧
    entry = (token.spelling, token.location)

/-- A table all of whose entries were made for identifiers of the source text. -/
def Table.AreNoted (file source : String) (table : Table) : Prop :=
  ∀ entry ∈ table.entries, IsNoted file source entry

theorem Table.areNoted_empty : Table.empty.AreNoted file source := by
  intro entry hentry
  simp [Table.empty] at hentry

theorem Table.AreNoted.insertNew {table : Table} (h : table.AreNoted file source)
    (htoken : token.IsPlaced file source) (hkind : token.kind = .identifier) :
    (table.insertNew token.spelling token.location).AreNoted file source := by
  unfold Table.insertNew
  split
  · exact h
  · intro entry hentry
    rcases List.mem_append.mp hentry with hold | hnew
    · exact h entry hold
    · exact ⟨token, htoken, hkind, by simpa using hnew⟩

theorem Table.AreNoted.isNoted_of_find? {table : Table} (h : table.AreNoted file source)
    {name : String} {location : Location} (hfind : table.find? name = some location) :
    IsNoted file source (name, location) := by
  obtain ⟨before, after, hentries, _⟩ := List.lookup_eq_some_iff.mp hfind
  exact h _ (by rw [hentries]; simp)

theorem Table.AreNoted.lineFeed_not_mem {table : Table} (h : table.AreNoted file source) :
    ∀ name ∈ table.names, '\n' ∉ name.toList := by
  intro name hname
  obtain ⟨entry, hentry, rfl⟩ := List.mem_map.mp hname
  obtain ⟨token, htoken, hkind, rfl⟩ := h entry hentry
  exact lineFeed_not_mem_of_wellSpelled htoken.wellSpelled hkind

theorem IsPlace.file_eq {location : Location} {rest : List Char}
    (h : IsPlace file source location rest) : location.file = file := by
  obtain ⟨front, _, rfl⟩ := h
  rfl

end

/-! ## Faults of a generator -/

/-- A fault that leads to the place of its cause: the place is one of the source text, the line is
the one of that place, it goes on with what the cause is about, and the message and the hint take
one line each if the file is named in one. -/
def Diagnostic.IsFaithful (file source : String) (tokens : List Token) (fault : Diagnostic) :
    Prop :=
  ∃ location rest, fault.location = some location ∧ IsPlace file source location rest ∧
    fault.sourceLine = Text.line? (Cursor.closed source) location.line ∧
    fault.cause.IsShown tokens location (rest.takeWhile (· ≠ '\n')) ∧
    ('\n' ∉ file.toList → fault.cause.IsOneLine)

/-- A generator whose cursor, token and tables belong to a source text. -/
structure Generator.IsOriented (file source : String) (state : Generator Cursor) : Prop where
  current : state.current.IsPlaced file source
  declaredVariables : state.scope.declaredVariables.AreNoted file source
  declaredLabels : state.scope.declaredLabels.AreNoted file source
  referencedLabels : state.scope.referencedLabels.AreNoted file source
  supply : ∃ front, state.supply.IsBehind front ∧
    Cursor.closed source = front ++ state.supply.rest
  file_eq : state.supply.file = file

section

variable {file source : String} {state : Generator Cursor}

/-- A token that is pulled is placed behind the text moved over before it. -/
theorem isPlaced_of_next {c c' : Cursor} {token : Token} {front : List Char}
    (h : Cursor.next c = .ok token c') (hbehind : c.IsBehind front)
    (hclosed : Cursor.closed source = front ++ c.rest) (hfile : c.file = file) :
    token.IsPlaced file source ∧ c'.file = file ∧ ∃ front', c'.IsBehind front' ∧
      Cursor.closed source = front' ++ c'.rest := by
  obtain ⟨gap, hrest, hfile', hplace⟩ := Cursor.exists_gap_of_next h
  obtain ⟨hlocation, hbehind'⟩ := hplace front hbehind
  refine ⟨⟨Cursor.wellSpelled_of_next h, c'.rest, ⟨front ++ gap.text, ?_, ?_⟩, ?_⟩,
    hfile'.trans hfile, _, hbehind', ?_⟩
  · rw [hclosed, hrest, List.append_assoc]
  · rw [hlocation, hfile]
  · exact Cursor.rest_eq_nil_of_next h
  · rw [hclosed, hrest]
    simp

theorem Generator.IsOriented.isFaithful_of_fits {setting : Setting}
    (h : state.IsOriented file setting.source) {reason reason' : Reason}
    (hfits : reason.Fits (fun token _ ↦ token.IsPlaced file setting.source) state state reason') :
    (reason.diagnostic setting state).IsFaithful file setting.source [state.current] := by
  cases hfits with
  | @unexpected expected hexpected =>
    obtain ⟨rest, hplace, hshown⟩ := h.current.isShown (List.mem_singleton_self _) expected
    exact ⟨_, rest, rfl, hplace, rfl, hshown, fun _ ↦ Cause.isOneLine_unexpectedToken
      (lineFeed_not_mem_of_isExpectation hexpected)
      h.current.wellSpelled.lineFeed_not_mem_description⟩
  | tooDeep limit =>
    obtain ⟨rest, hplace, _⟩ := h.current.isPlace
    exact ⟨_, _, rfl, hplace, rfl, trivial, fun _ ↦ Cause.isOneLine_nestedTooDeeply limit⟩
  | undeclared hkind hnew =>
    obtain ⟨rest, hplace, hname⟩ := h.current.exists_name hkind
    exact ⟨_, rest, rfl, hplace, rfl, hname, fun _ ↦ Cause.isOneLine_undeclared
      (lineFeed_not_mem_of_wellSpelled h.current.wellSpelled hkind)
      h.declaredVariables.lineFeed_not_mem⟩
  | reserved hknown hkind =>
    obtain ⟨rest, hplace, hname⟩ := hknown.exists_name hkind
    exact ⟨_, rest, rfl, hplace, rfl, hname, fun _ ↦ Cause.isOneLine_reservedName
      (lineFeed_not_mem_of_wellSpelled hknown.wellSpelled hkind)⟩
  | duplicate hknown hkind =>
    obtain ⟨rest, hplace, hname⟩ := hknown.exists_name hkind
    refine ⟨_, rest, rfl, hplace, rfl, hname, fun hfile ↦ Cause.isOneLine_duplicateLabel
      (lineFeed_not_mem_of_wellSpelled hknown.wellSpelled hkind) fun first hfirst ↦ ?_⟩
    obtain ⟨original, horiginal, _, heq⟩ := h.declaredLabels.isNoted_of_find? hfirst
    obtain ⟨_, hplace, _⟩ := horiginal.isPlace
    obtain rfl : first = original.location := congrArg Prod.snd heq
    rwa [hplace.file_eq]
  | undefined hfind _ =>
    obtain ⟨token, htoken, hkind, heq⟩ := h.referencedLabels.isNoted_of_find? hfind
    obtain ⟨rfl, rfl⟩ := Prod.mk.inj heq
    obtain ⟨rest, hplace, hname⟩ := htoken.exists_name hkind
    exact ⟨_, rest, rfl, hplace, rfl, hname, fun _ ↦ Cause.isOneLine_undefinedLabel
      (lineFeed_not_mem_of_wellSpelled htoken.wellSpelled hkind)⟩

theorem Generator.IsOriented.alter (h : state.IsOriented file source) {change change' : Change}
    (hfits : change.Fits (fun token _ ↦ token.IsPlaced file source) state change') :
    (state.alter change).IsOriented file source := by
  obtain ⟨hcurrent, hvariables, hlabels, hjumps, hsupply, hfile⟩ := h
  cases hfits with
  | write text => exact ⟨hcurrent, hvariables, hlabels, hjumps, hsupply, hfile⟩
  | opening hline => exact ⟨hcurrent, hvariables, hlabels, hjumps, hsupply, hfile⟩
  | newVariable hknown hkind hnew hopen =>
    exact ⟨hcurrent, hvariables.insertNew hknown hkind, hlabels, hjumps, hsupply, hfile⟩
  | newLabel hknown hkind hnew hopen =>
    exact ⟨hcurrent, hvariables, hlabels.insertNew hknown hkind, hjumps, hsupply, hfile⟩
  | newJump hknown hkind hopen =>
    exact ⟨hcurrent, hvariables, hlabels, hjumps.insertNew hknown hkind, hsupply, hfile⟩

end

/-- Generators over a source text stay oriented, and their faults lead to the places of their
causes. -/
def Lockstep.oriented (file : String) (setting : Setting) :
    Lockstep Cursor Cursor setting setting where
  Known := Token.IsPlaced file setting.source
  Holds state supply := supply = state.supply ∧ state.IsOriented file setting.source
  Fails fault state _ _ :=
    fault = TeenyBasic.stalled ∨ fault.IsFaithful file setting.source [state.current]
  Moves _ := True
  mayStall := False
  sameText := .refl setting
  moves _ := trivial
  known_current h := h.2.current
  pull := by
    rintro state _ ⟨rfl, h⟩ _
    obtain ⟨front, hbehind, hclosed⟩ := h.supply
    cases hnext : TokenSupply.pull state.supply with
    | ok token rest =>
      obtain ⟨hplaced, hfile, hfront⟩ := isPlaced_of_next hnext hbehind hclosed h.file_eq
      exact ⟨rfl, rfl, hplaced, h.declaredVariables, h.declaredLabels, h.referencedLabels, hfront,
        hfile⟩
    | error fault rest =>
      obtain ⟨text, offset, location, hfaults, hlocation, hplace, hline⟩ :=
        Cursor.exists_place_of_next hnext hbehind hclosed
      rw [h.file_eq] at hplace
      exact Or.inr ⟨location, _, hlocation, hplace, hline,
        Cause.isShown_of_faultsAt hfaults _ _, fun _ ↦ Cause.isOneLine_of_faultsAt hfaults⟩
  change h hfits := ⟨by simpa using h.1, h.2.alter hfits⟩
  fault h hfits := Or.inr (h.2.isFaithful_of_fits hfits)
  bound_eq h := .inl (by rw [h.1])
  stalled _ := .inl (Or.inl rfl)

/-- Every fault of a compilation leads to the place of its cause. -/
theorem isFaithful_of_compile {options : Options} {source file : String} {fault : Diagnostic}
    (h : options.compile source file = .error fault) :
    fault.IsFaithful file source (Cursor.stream (Cursor.start file source)).tokens := by
  have hstart : Cursor.closed source = [] ++ (Cursor.start file source).rest := rfl
  rcases (compile_eq_error_iff_run options source file fault).mp h with
    ⟨stop, hnext⟩ | ⟨start, state, hbegin, hsource⟩
  · obtain ⟨text, offset, location, hfaults, hlocation, hplace, hline⟩ :=
      Cursor.exists_place_of_next hnext (Cursor.isBehind_start file source) hstart
    exact ⟨location, _, hlocation, hplace, hline, Cause.isShown_of_faultsAt hfaults _ _,
      fun _ ↦ Cause.isOneLine_of_faultsAt hfaults⟩
  obtain ⟨first, cursor, hfirst, rfl⟩ := begin_eq_ok_iff.mp hbegin
  obtain ⟨hplaced, hfile, hfront⟩ :=
    isPlaced_of_next hfirst (Cursor.isBehind_start file source) hstart rfl
  have horiented : Generator.IsOriented file source ⟨cursor, first, .empty, .empty, 0, 1, #[]⟩ :=
    ⟨hplaced, Table.areNoted_empty, Table.areNoted_empty, Table.areNoted_empty, hfront, hfile⟩
  have hblocks : Generate.KeepsBlocks (Lockstep.oriented file (options.setting source)).conduct
      Generate.block Generate.block := by
    refine Generate.keepsBlocks_block rfl ?_
    rintro state _ depth ⟨_, rfl, rfl, hstate⟩
    exact ⟨state.supply, rfl, rfl, hstate.1, hstate.2, hstate.3, hstate.4, hstate.5, hstate.6⟩
  have hagrees := Generate.keeps_sourceTextWith hblocks ⟨cursor, rfl, rfl, horiented⟩
  rw [← Generate.sourceText_eq, hsource] at hagrees
  obtain ⟨_, _, _, _, hstalled | ⟨location, rest, hlocation, hplace, hline, hshown, honeLine⟩⟩ :=
    hagrees.exists_fails id
  · exact absurd hstalled (Generate.ne_stalled_of_sourceText hsource)
  refine ⟨location, rest, hlocation, hplace, hline, hshown.mono ?_, honeLine⟩
  intro expected found hcause token htoken
  obtain ⟨before, after, hstream, _⟩ := exists_refused_of_sourceText hfirst hsource hcause
  rw [List.mem_singleton] at htoken
  rw [htoken, hstream]
  simp

/-- The lines of a report, if its parts take one line each. -/
theorem lines_report {d : Diagnostic} {file : String} {line column : Nat} {text : List Char}
    (hlocation : d.location = some ⟨file, line, column⟩)
    (hline : d.sourceLine = some (String.ofList text)) (hcolumn : 1 ≤ column)
    (hfile : '\n' ∉ file.toList) (htext : '\n' ∉ text) (hcause : d.cause.IsOneLine) :
    Text.lines d.report.toList =
      ([d.headline, "    " ++ String.ofList text,
        String.ofList (List.replicate (column + 3) ' ') ++ "^"] ++ d.advice).map String.toList := by
  have hexcerpt : d.excerpt = ["    " ++ String.ofList text,
      String.ofList (List.replicate (column + 3) ' ') ++ "^"] := by
    have hpositive : column ≠ 0 := by omega
    simp [Diagnostic.excerpt, hlocation, hline, hpositive]
  have hreport : d.report = "\n".intercalate ([d.headline, "    " ++ String.ofList text,
      String.ofList (List.replicate (column + 3) ' ') ++ "^"] ++ d.advice) := by
    rw [Diagnostic.report, hexcerpt]
    rfl
  rw [hreport]
  refine Text.lines_intercalate (by simp) fun piece hpiece ↦ ?_
  rcases List.mem_append.mp hpiece with hfront | hadvice
  · simp only [List.mem_cons, List.not_mem_nil, or_false] at hfront
    rcases hfront with rfl | rfl | rfl
    · have hplace : '\n' ∉ (Location.mk file line column).text.toList :=
        Location.lineFeed_not_mem_text hfile
      simp only [Diagnostic.headline, hlocation]
      simp [toString, hplace, hcause.1]
    · simpa using htext
    · simp
  · unfold Diagnostic.advice at hadvice
    split at hadvice
    · simp at hadvice
    · simp at hadvice
    · rename_i hint _ hhint
      obtain rfl : piece = s!"hint: {hint}" := by simpa using hadvice
      simp [toString, hcause.2 hint hhint]

/-- Every fault of a compilation points at what is wrong. Its place has a line and a column of the
source text, it quotes that line, and from the column on the line goes on with the offending
character, name or lexeme, or ends there if that is a line feed or the end of the input. If the file
is named in one line, then the report consists of the headline, the quoted line, a caret under the
column and the hint if there is one. -/
theorem exists_line_of_compile (options : Options) (source file : String) {fault : Diagnostic}
    (h : options.compile source file = .error fault) :
    ∃ (line column : Nat) (text : List Char),
      fault.location = some ⟨file, line, column⟩ ∧
      1 ≤ line ∧ line ≤ (Text.lines (Cursor.closed source)).length ∧
      (Text.lines (Cursor.closed source))[line - 1]? = some text ∧
      fault.sourceLine = some (String.ofList text) ∧
      1 ≤ column ∧ column ≤ text.length + 1 ∧
      fault.cause.IsShown (Cursor.stream (Cursor.start file source)).tokens ⟨file, line, column⟩
        (text.drop (column - 1)) ∧
      ('\n' ∉ file.toList → Text.lines fault.report.toList =
        ([fault.headline, "    " ++ String.ofList text,
          String.ofList (List.replicate (column + 3) ' ') ++ "^"] ++ fault.advice).map
          String.toList) := by
  obtain ⟨_, rest, hlocation, hplace, hline, hshown, honeLine⟩ := isFaithful_of_compile h
  obtain ⟨line, column, text, rfl, hfirst, hlast, htext, hfeed, hleft, hright, hdrop⟩ :=
    hplace.exists_line
  rw [line?_eq_some hfirst htext] at hline
  rw [← hdrop] at hshown
  exact ⟨line, column, text, hlocation, hfirst, hlast, htext, hline, hleft, hright, hshown,
    fun hfile ↦ lines_report hlocation hline hleft hfile hfeed (honeLine hfile)⟩

/-- A variable without a value is reported at its place, behind an assignment that is in order. -/
theorem exists_line_of_compile_undeclared :
    ∃ fault, Options.standard.compile "LET a = 1\nPRINT a + b" "t" = .error fault ∧
      fault.location = some ⟨"t", 2, 11⟩ ∧
      Text.lines fault.report.toList =
        [fault.headline, "    PRINT a + b", "              ^",
          "hint: assign it first with 'LET b = ...' or 'INPUT b'"].map String.toList := by
  let fault : Diagnostic :=
    ⟨.undeclaredVariable "b" [], some ⟨"t", 2, 11⟩, some "PRINT a + b"⟩
  have hcompile : Options.standard.compile "LET a = 1\nPRINT a + b" "t" = .error fault := by
    decide +kernel
  obtain ⟨line, column, text, hlocation, _, _, _, hline, _, _, _, hreport⟩ :=
    exists_line_of_compile Options.standard _ _ hcompile
  obtain rfl : column = 11 := by
    have hcolumn : (11 : Int) = column := congrArg Location.column (Option.some.inj hlocation)
    omega
  rw [← Option.some.inj hline] at hreport
  exact ⟨fault, hcompile, rfl, hreport (by decide)⟩

end TeenyBasic
