import TeenyBasic.Proofs.CommandLine.Outcome
import TeenyBasic.Proofs.Generation.Continuation
import TeenyBasic.Proofs.Lexing.LineEnding

/-!
# Source files with line endings of two characters

When a source file is read, its line endings are unified, and a source text in memory is compiled as
it is. If every carriage return of the text is followed by a line feed, the two come to the same:
the tokens are worded alike, and so the same program is written, or the text is rejected for a cause
of the same form.

The main statement is `compileFile_of_isPaired`.
-/

namespace TeenyBasic

open Text

/-- The forms of causes: what is wrong, whatever it is about. -/
inductive Cause.Form where
  | unsupportedCharacter
  | forbiddenInString
  | missingFraction
  | unexpectedToken
  | nestedTooDeeply
  | undeclaredVariable
  | duplicateLabel
  | undefinedLabel
  | reservedName
  | unwritable
  | stated (family : Family)
  deriving DecidableEq, Repr

namespace Cause

def form : Cause → Form
  | .unsupportedCharacter .. => .unsupportedCharacter
  | .forbiddenInString .. => .forbiddenInString
  | .missingFraction => .missingFraction
  | .unexpectedToken .. => .unexpectedToken
  | .nestedTooDeeply .. => .nestedTooDeeply
  | .undeclaredVariable .. => .undeclaredVariable
  | .duplicateLabel .. => .duplicateLabel
  | .undefinedLabel .. => .undefinedLabel
  | .reservedName .. => .reservedName
  | .unconfigured | .unwritable .. => .unwritable
  | .stated family .. => .stated family

@[simp] theorem form_unplaced (cause : Cause) : cause.unplaced.form = cause.form := by
  cases cause <;> rfl

@[simp] theorem form_unifyLineEndings (cause : Cause) :
    cause.unifyLineEndings.form = cause.form := by
  cases cause <;> rfl

end Cause

/-- What two source texts come to that differ in places only: the same listing and the same names in
scope, or causes of the same form. -/
inductive Equivalent :
    Except Diagnostic (Listing × Scope) → Except Diagnostic (Listing × Scope) → Prop
  | ok {listing : Listing} {scope scope' : Scope} (h : scope.SameNames scope') :
    Equivalent (.ok (listing, scope)) (.ok (listing, scope'))
  | error {fault fault' : Diagnostic} (h : fault'.cause.form = fault.cause.form) :
    Equivalent (.error fault) (.error fault')

namespace Options

variable (options : Options) {source source' : String}

theorem equivalent_parseTokens {tokens tokens' : List Token}
    (h : tokens'.map Token.wording = tokens.map Token.wording) (scope : Scope) :
    Equivalent (options.parseTokens source tokens scope)
      (options.parseTokens source' tokens' scope) := by
  have hterms : (options.setting source).SameTerms (options.setting source') := ⟨rfl, rfl⟩
  have hwork : (Generator.idleIn scope tokens).SameWork .empty .empty (.idleIn scope tokens') :=
    ⟨⟨.empty, rfl, rfl⟩, .refl scope, rfl⟩
  have hbehind : substance ((Generator.idleIn scope tokens').current :: tokens') =
      substance ((Generator.idleIn scope tokens).current :: tokens) := by
    refine substance_of_map_eq ?_
    rw [List.map_cons, List.map_cons, h]
    rfl
  have hagrees := Generate.agrees_sourceText_of_substance hterms hwork hbehind
  have hstalled := Generator.verdict_ne_stalled (options.setting source) (.idleIn scope tokens)
  have hstalled' := Generator.verdict_ne_stalled (options.setting source') (.idleIn scope tokens')
  unfold parseTokens
  generalize Generate.sourceText (options.setting source) (.idleIn scope tokens) = result
    at hagrees hstalled
  generalize Generate.sourceText (options.setting source') (.idleIn scope tokens') = result'
    at hagrees hstalled'
  cases hagrees with
  | @ok _ state state' hstep _ =>
    obtain ⟨added, hlisting, hlisting'⟩ := hstep.listing_eq
    rw [Generator.verdict, Generator.verdict, hlisting'.trans hlisting.symm]
    exact .ok hstep.sameNames
  | error hcause =>
    refine .error ?_
    rw [← Cause.form_unplaced, hcause, Cause.form_unplaced]
  | stalled_left _ => exact absurd rfl hstalled
  | stalled_right _ => exact absurd rfl hstalled'

end Options

theorem Cause.form_ne_of_family {cause : Cause} (h : cause.family ≠ .other) :
    cause.form ≠ exhausted.cause.form := by
  cases cause with
  | stated family text hint =>
    have hfamily : family ≠ .other := h
    simpa [Cause.form, exhausted] using hfamily
  | _ => simp [Cause.form, exhausted]

/-- Source texts come to the same if the lists of their tokens do, and their lexical faults have
causes of the same form. -/
theorem Equivalent.of_listed {fault fault' : Option Diagnostic}
    {outcome outcome' listed listed' : Except Diagnostic (Listing × Scope)}
    (h : Equivalent listed listed') (hlisted : Listed fault outcome listed)
    (hlisted' : Listed fault' outcome' listed')
    (hform : fault'.map (·.cause.form) = fault.map (·.cause.form)) :
    Equivalent outcome outcome' := by
  cases hlisted with
  | same hfamily =>
    cases hlisted' with
    | same _ => exact h
    | exhausted _ =>
      cases h with
      | error hgiven => exact absurd hgiven.symm (Cause.form_ne_of_family (hfamily _ rfl))
  | exhausted hfault =>
    cases hlisted' with
    | same hfamily =>
      cases h with
      | error hgiven => exact absurd hgiven (Cause.form_ne_of_family (hfamily _ rfl))
    | exhausted hfault' =>
      rw [hfault, hfault'] at hform
      exact .error (Option.some.inj hform)

/-- A source text is parsed like the text with unified line endings. -/
theorem equivalent_parse (options : Options) {source : String} (h : IsPaired source.toList)
    (file file' : String) (scope : Scope) :
    Equivalent (options.parse file source scope)
      (options.parse file' (String.ofList (unifyLineEndings source.toList)) scope) := by
  obtain ⟨htokens, hfault⟩ := Cursor.stream_unifyLineEndings h file file'
  refine (options.equivalent_parseTokens htokens scope).of_listed (listed_parse ..)
    (listed_parse ..) ?_
  have hforms := congrArg (Option.map Cause.form) hfault
  simpa [Function.comp_def] using hforms

/-- Two compiled programs that are the same, up to the names of their sources. -/
structure Compilation.SameProgram (compilation compilation' : Compilation) : Prop where
  text_eq : compilation'.text = compilation.text
  variableNames_eq : compilation'.variableNames = compilation.variableNames
  labelNames_eq : compilation'.labelNames = compilation.labelNames
  tokenCount_eq : compilation'.tokenCount = compilation.tokenCount

namespace Options

variable {options : Options} {source file : String}

theorem exists_compile_of_parse {listing : Listing} {scope : Scope}
    (h : options.parse file source .empty = .ok (listing, scope)) :
    ∃ compilation, options.compile source file = .ok compilation ∧
      compilation.listing = listing ∧
      compilation.variableNames = scope.declaredVariables.names ∧
      compilation.labelNames = scope.declaredLabels.names := by
  have hmap := compile_eq_parse options file source
  rw [h] at hmap
  cases hcompile : options.compile source file with
  | error fault =>
    rw [hcompile] at hmap
    cases hmap
  | ok compilation =>
    rw [hcompile] at hmap
    obtain ⟨hlisting, hnames⟩ := Prod.mk.inj (Except.ok.inj hmap)
    obtain ⟨hvariables, hlabels⟩ := Prod.mk.inj hnames
    exact ⟨compilation, rfl, hlisting, hvariables, hlabels⟩

theorem compile_of_parse_error {fault : Diagnostic}
    (h : options.parse file source .empty = .error fault) :
    options.compile source file = .error fault := by
  have hmap := compile_eq_parse options file source
  rw [h] at hmap
  cases hcompile : options.compile source file with
  | error fault' =>
    rw [hcompile] at hmap
    obtain rfl := Except.error.inj hmap
    rfl
  | ok compilation =>
    rw [hcompile] at hmap
    cases hmap

theorem tokenCount_of_compile {compilation : Compilation}
    (h : options.compile source file = .ok compilation) :
    compilation.tokenCount = (Cursor.stream (Cursor.start file source)).tokens.length := by
  obtain ⟨_, _, _, _, _, _, _, rfl⟩ := (compile_eq_ok_iff options source file compilation).mp h
  rfl

/-- A source text is compiled like the text with unified line endings. -/
theorem compile_unifyLineEndings (options : Options) {source : String}
    (h : IsPaired source.toList) (file file' : String) :
    (∃ compilation compilation', options.compile source file = .ok compilation ∧
      options.compile (String.ofList (unifyLineEndings source.toList)) file' = .ok compilation' ∧
      compilation.SameProgram compilation') ∨
    ∃ fault fault', options.compile source file = .error fault ∧
      options.compile (String.ofList (unifyLineEndings source.toList)) file' = .error fault' ∧
      fault'.cause.form = fault.cause.form := by
  have hequivalent := equivalent_parse options h file file' .empty
  generalize hparse : options.parse file source .empty = left at hequivalent
  generalize hparse' : options.parse file' (String.ofList (unifyLineEndings source.toList))
    .empty = left' at hequivalent
  cases hequivalent with
  | ok hnames =>
    obtain ⟨compilation, hcompile, hlisting, hvariables, hlabels⟩ := exists_compile_of_parse hparse
    obtain ⟨compilation', hcompile', hlisting', hvariables', hlabels'⟩ :=
      exists_compile_of_parse hparse'
    have htokens := congrArg List.length (Cursor.stream_unifyLineEndings h file file').1
    simp only [List.length_map] at htokens
    refine .inl ⟨compilation, compilation', hcompile, hcompile', ?_, ?_, ?_, ?_⟩
    · rw [Compilation.text, Compilation.text, hlisting, hlisting']
    · rw [hvariables, hvariables', hnames.declaredVariables]
    · rw [hlabels, hlabels', hnames.declaredLabels]
    · rw [tokenCount_of_compile hcompile, tokenCount_of_compile hcompile', htokens]
  | @error fault fault' hform =>
    exact .inr ⟨fault, fault', compile_of_parse_error hparse, compile_of_parse_error hparse', hform⟩

end Options

section

variable {φ : Type} [FileAccess (StateM φ)] [SteadyFileAccess φ] {path : String} {files : φ}

theorem outcome_fetch_of_readAt {text : List Char} (hnull : holdsNull path = false)
    (h : (readAt path files).1 = .ok (Utf8.encode text)) :
    outcome (fetch path) files = (.ok (String.ofList (unifyLineEndings text)), files) := by
  have hentry := (LawfulFileAccess.readAt_eq_ok_iff path files _).mp h
  obtain ⟨spot, hspot, hfile⟩ := Option.bind_eq_some_iff.mp hentry
  have hrespelled := SteadyFileAccess.locate_ofSpelling path files spot hspot
  have hfound : (LawfulFileAccess.locate files (Path.ofSpelling path).text).bind
      (LawfulFileAccess.entryAt files) = some (.file (Utf8.encode text)) := by
    rw [hrespelled]
    exact hfile
  have hlook : look (Path.ofSpelling path).text files = (.ok .file, files) :=
    Prod.ext ((SteadyFileAccess.look_eq_file_iff _ files).mpr ⟨_, hfound⟩)
      (SteadyFileAccess.look_snd _ files)
  have hread : readAt (Path.ofSpelling path).text files = (.ok (Utf8.encode text), files) :=
    Prod.ext ((LawfulFileAccess.readAt_eq_ok_iff _ files _).mpr hfound)
      (SteadyFileAccess.readAt_snd _ files)
  have hrequire : outcome (requireSource path (Path.ofSpelling path)) files = (.ok (), files) := by
    have hstatus : outcome (FileAccess.status (Path.ofSpelling path).text) files =
        (.ok .file, files) := hlook
    unfold requireSource
    rw [holdsNull_ofSpelling hnull]
    simp only [Bool.false_eq_true, if_false]
    rw [outcome_bind, hstatus]
    rfl
  rw [fetch, outcome_bind, hrequire]
  dsimp only
  rw [CommandLine.outcome_readSource hread, Utf8.decode_encode]

/-- Compiling a file and compiling its text come to the same if every carriage return of the text is
followed by a line feed. Either both succeed with the same program text, the same variables, labels
and number of tokens, or both are rejected for causes of the same form. -/
theorem compileFile_of_isPaired (compiler : Compiler) {text : String}
    (hnull : holdsNull path = false)
    (hfile : (readAt path files).1 = .ok (Utf8.encode text.toList))
    (hpaired : IsPaired text.toList) (name : String) :
    (∃ compilation compilation', (compiler.compileSource text name).2 = .ok compilation ∧
      (outcome (compiler.compileFile path) files).1.2 = .ok compilation' ∧
      compilation.SameProgram compilation') ∨
    ∃ fault fault', (compiler.compileSource text name).2 = .error (.diagnosed fault) ∧
      (outcome (compiler.compileFile path) files).1.2 = .error (.diagnosed fault') ∧
      fault'.cause.form = fault.cause.form := by
  rw [outcome_compileFile, outcome_fetch_of_readAt hnull hfile]
  simp only [Compiler.compileSource]
  rcases compiler.options.compile_unifyLineEndings hpaired name path with
    ⟨compilation, compilation', hcompile, hcompile', hsame⟩ |
    ⟨fault, fault', hcompile, hcompile', hform⟩
  · rw [hcompile, hcompile']
    exact .inl ⟨compilation, compilation', rfl, rfl, hsame⟩
  · rw [hcompile, hcompile']
    exact .inr ⟨fault, fault', rfl, rfl, hform⟩

end

/-- A working directory with one file. -/
def FileStore.single (name text : String) : FileStore :=
  ⟨[([name], .file (Utf8.encode text.toList))], []⟩

/-- A string that breaks off at its line ending is refused in a file as it is in memory, though for
a line feed in the one and for a carriage return in the other. -/
theorem compileFile_of_isPaired_brokenString :
    let text := "# note\r\nLET a = 1\r\n\r\nPRINT \"a\r\n"
    IsPaired text.toList ∧ ∃ fault fault',
      ((Compiler.fresh .standard).compileSource text "").2 = .error (.diagnosed fault) ∧
      (outcome ((Compiler.fresh .standard).compileFile "p.teeny")
        (FileStore.single "p.teeny" text)).1.2 = .error (.diagnosed fault') ∧
      fault.cause = .forbiddenInString "\r" ∧ fault'.cause.form = .forbiddenInString := by
  intro text
  have hpaired : IsPaired text.toList := by decide
  have hfile : (readAt "p.teeny" (FileStore.single "p.teeny" text)).1 =
      .ok (Utf8.encode text.toList) := by
    decide +kernel
  have hsource : ((Compiler.fresh .standard).compileSource text "").2 =
      .error (.diagnosed ⟨.forbiddenInString "\r", some ⟨"", 4, 9⟩, some "PRINT \"a\r"⟩) := by
    decide +kernel
  refine ⟨hpaired, ?_⟩
  rcases compileFile_of_isPaired (Compiler.fresh .standard) (by decide) hfile hpaired "" with
    ⟨compilation, _, hok, _⟩ | ⟨fault, fault', hfails, hfails', hform⟩
  · rw [hsource] at hok
    cases hok
  · rw [hsource] at hfails
    cases hfails
    exact ⟨_, fault', hsource, hfails', rfl, hform⟩

end TeenyBasic
