import TeenyBasic.Compiler
import TeenyBasic.Proofs.Generation.Conformance
import TeenyBasic.Proofs.Lexing.Stream
import TeenyBasic.Proofs.Source.Grammar

/-!
# Outcomes of compilations

A compilation runs a generator over the cursor at the start of a source text. Recognition and
conformance together say when it succeeds and what it gives: the tokens of the text must form a
program whose blocks and names are in order, and the result is the translation of that program.

The main statements are `compile_eq_ok_iff` and what follows from it: `exists_unique_translation`,
on the result of a compilation that succeeds, and `exists_compile_iff`, on which texts are accepted.
-/

namespace TeenyBasic

open Source

theorem begin_eq_ok_iff {source file : String} {start : Generator Cursor} :
    Generator.begin (Cursor.start file source) .empty = .ok start ↔
      ∃ first cursor, Cursor.next (Cursor.start file source) = .ok first cursor ∧
        start = ⟨cursor, first, .empty, .empty, 0, 1, #[]⟩ := by
  unfold Generator.begin
  cases hnext : Cursor.next (Cursor.start file source) with
  | ok first cursor =>
    have hpull : TokenSupply.pull.run (Cursor.start file source) = .ok first cursor := hnext
    rw [hpull]
    constructor
    · intro h
      cases h
      exact ⟨first, cursor, rfl, rfl⟩
    · rintro ⟨_, _, hfirst, rfl⟩
      cases hfirst
      rfl
  | error fault cursor =>
    have hpull : TokenSupply.pull.run (Cursor.start file source) = .error fault cursor := hnext
    simp [hpull]

/-- A compilation succeeds when its generator comes to the end of the source text. -/
theorem compile_eq_ok_iff_run (options : Options) (source file : String)
    (compilation : Compilation) :
    options.compile source file = .ok compilation ↔
      ∃ start state, Generator.begin (Cursor.start file source) .empty = .ok start ∧
        Generate.sourceText (options.setting source) start = .ok () state ∧
        compilation = Compilation.ofGenerator file state := by
  unfold Options.compile Options.attempt
  cases hbegin : Generator.begin (Cursor.start file source) .empty with
  | error fault => simp
  | ok start =>
    dsimp only
    unfold Generator.run
    cases hsource : Generate.sourceText (options.setting source) start with
    | ok value state =>
      have hrun : (Generate.sourceText.run (options.setting source)).run start = .ok value state :=
        hsource
      rw [hrun]
      constructor
      · intro h
        cases h
        exact ⟨start, state, rfl, hsource, rfl⟩
      · rintro ⟨_, state', hstart, hsource', rfl⟩
        cases hstart
        rw [hsource] at hsource'
        cases hsource'
        rfl
    | error fault state =>
      have hrun : (Generate.sourceText.run (options.setting source)).run start =
          .error fault state := hsource
      rw [hrun]
      constructor
      · intro h
        cases h
      · rintro ⟨_, state', hstart, hsource', rfl⟩
        cases hstart
        rw [hsource] at hsource'
        cases hsource'

theorem begin_eq_error_iff {source file : String} {fault : Diagnostic} :
    Generator.begin (Cursor.start file source) .empty = .error fault ↔
      ∃ stop, Cursor.next (Cursor.start file source) = .error fault stop := by
  unfold Generator.begin
  cases hnext : Cursor.next (Cursor.start file source) with
  | ok first cursor =>
    have hpull : TokenSupply.pull.run (Cursor.start file source) = .ok first cursor := hnext
    simp [hpull]
  | error fault' stop =>
    have hpull : TokenSupply.pull.run (Cursor.start file source) = .error fault' stop := hnext
    simp [hpull]

/-- A compilation fails when the first token cannot be read, or when its generator fails. -/
theorem compile_eq_error_iff_run (options : Options) (source file : String) (fault : Diagnostic) :
    options.compile source file = .error fault ↔
      (∃ stop, Cursor.next (Cursor.start file source) = .error fault stop) ∨
      ∃ start state, Generator.begin (Cursor.start file source) .empty = .ok start ∧
        Generate.sourceText (options.setting source) start = .error fault state := by
  unfold Options.compile Options.attempt
  rw [← begin_eq_error_iff]
  cases hbegin : Generator.begin (Cursor.start file source) .empty with
  | error fault' => simp
  | ok start =>
    dsimp only
    unfold Generator.run
    cases hsource : Generate.sourceText (options.setting source) start with
    | ok value state =>
      have hrun : (Generate.sourceText.run (options.setting source)).run start = .ok value state :=
        hsource
      simp [hrun, hsource]
    | error fault' state =>
      have hrun : (Generate.sourceText.run (options.setting source)).run start =
          .error fault' state := hsource
      simp [hrun, hsource]

/-- The compilation that a program stands for, given the names that its mentions leave in the scope
and the number of its tokens. -/
def translation (options : Options) (file : String) (program : Program) (scope : Scope)
    (tokenCount : Nat) : Compilation where
  file := file
  listing :=
    ⟨closedLines (Generate.prologue ++ scope.declaredVariables.names.map declarationLine),
     closedLines (program.lines options.numberFormat ++ Generate.epilogue)⟩
  variableNames := scope.declaredVariables.names
  labelNames := scope.declaredLabels.names
  tokenCount := tokenCount

/-- The state in which a run over the tokens of a program ends holds its translation. -/
theorem ofGenerator_eq_translation {options : Options} {source file : String} {program : Program}
    {scope : Scope} {tokens : List Token} {first : Token} {cursor : Cursor}
    {last : Outlook Cursor} {state : Generator Cursor}
    (h : Generate.Effect (Generate.opened ⟨cursor, first, .empty, .empty, 0, 1, #[]⟩) tokens last
      (closedLines (program.lines (options.setting source).numberFormat ++ Generate.epilogue))
      scope state) :
    Compilation.ofGenerator file state =
      translation options file program scope (tokens ++ [last.2]).length := by
  obtain ⟨names, hnames, hheader⟩ := h.declares
  have hvariables : scope.declaredVariables.names = names := by
    rw [hnames]
    rfl
  have hbody : state.listing.body =
      closedLines (program.lines options.numberFormat ++ Generate.epilogue) := by
    rw [h.body_eq]
    exact String.empty_append
  have hheader' : state.listing.header =
      closedLines (Generate.prologue ++ names.map declarationLine) := by
    rw [hheader, closedLines_append]
    exact congrArg (· ++ _) String.empty_append
  have hcount : state.pulled = (tokens ++ [last.2]).length := by
    rw [h.pulled_eq, List.length_append, Nat.add_comm]
    rfl
  have hlisting : state.listing =
      ⟨closedLines (Generate.prologue ++ names.map declarationLine),
       closedLines (program.lines options.numberFormat ++ Generate.epilogue)⟩ := by
    rw [← hheader', ← hbody]
  rw [Compilation.ofGenerator, translation, hlisting, h.scope_eq, hcount, hvariables]

/-- The run over a source text whose tokens form a program that keeps to the limit on nesting: it
fails at the first name that something is wrong with, or goes on to check the jumps with the
translation of the program written. -/
theorem sourceText_of_stream {options : Options} {source file : String} {program : Program}
    {first : Token} {cursor : Cursor}
    (hfirst : Cursor.next (Cursor.start file source) = .ok first cursor)
    (hfault : (Cursor.stream (Cursor.start file source)).fault = none)
    (hderives : program.Derives (Cursor.stream (Cursor.start file source)).tokens)
    (hlimit : Generate.WithinLimit (options.setting source) 0 program.depth) :
    match Scope.empty.enterAll program.mentions with
    | .ok scope => ∃ state : Generator Cursor,
        Generate.sourceText (options.setting source) ⟨cursor, first, .empty, .empty, 0, 1, #[]⟩ =
          Generate.checkLabels (options.setting source) state ∧ state.scope = scope ∧
        Compilation.ofGenerator file state = translation options file program scope
          (Cursor.stream (Cursor.start file source)).tokens.length
    | .error (cause, location) => ∃ state,
        Generate.sourceText (options.setting source) ⟨cursor, first, .empty, .empty, 0, 1, #[]⟩ =
          .error ⟨cause, some location, (options.setting source).line? location.line⟩ state := by
  obtain ⟨first', cursor', tokens, last, hfirst', hpasses, hinner, htokens⟩ :=
    Cursor.exists_passes_of_stream hfault
  rw [hfirst] at hfirst'
  cases hfirst'
  rw [htokens] at hderives
  have hrun := Generate.sourceText_of_derives (options.setting source)
    ⟨cursor, first, .empty, .empty, 0, 1, #[]⟩ hderives hinner hpasses hlimit
  dsimp only at hrun
  cases henter : Scope.empty.enterAll program.mentions with
  | error objection =>
    rw [henter] at hrun
    exact hrun
  | ok scope =>
    rw [henter] at hrun
    obtain ⟨state, hstate, heffect⟩ := hrun
    rw [htokens]
    exact ⟨state, hstate, heffect.scope_eq, ofGenerator_eq_translation heffect⟩

/-- What is asked of a source text and what it is translated to. -/
theorem compile_eq_ok_iff (options : Options) (source file : String) (compilation : Compilation) :
    options.compile source file = .ok compilation ↔
      (Cursor.stream (Cursor.start file source)).fault = none ∧
      ∃ program scope, program.Derives (Cursor.stream (Cursor.start file source)).tokens ∧
        Generate.WithinLimit (options.setting source) 0 program.depth ∧
        Scope.empty.enterAll program.mentions = .ok scope ∧ scope.unresolved = [] ∧
        compilation = translation options file program scope
          (Cursor.stream (Cursor.start file source)).tokens.length := by
  rw [compile_eq_ok_iff_run]
  constructor
  · rintro ⟨start, state, hbegin, hsource, rfl⟩
    obtain ⟨first, cursor, hfirst, rfl⟩ := begin_eq_ok_iff.mp hbegin
    obtain ⟨program, tokens, hderives, hpasses, hlimit⟩ :=
      Generate.exists_program_of_sourceText hsource
    obtain ⟨hinside, hend⟩ := hderives.inside
    have hstream := Cursor.stream_of_passes hfirst hpasses hinside hend
    have hfault : (Cursor.stream (Cursor.start file source)).fault = none := by rw [hstream]
    have hprogram : program.Derives (Cursor.stream (Cursor.start file source)).tokens := by
      rw [hstream]
      exact hderives
    have hrun := sourceText_of_stream hfirst hfault hprogram hlimit
    cases henter : Scope.empty.enterAll program.mentions with
    | error objection =>
      rw [henter] at hrun
      obtain ⟨_, hfail⟩ := hrun
      rw [hfail] at hsource
      cases hsource
    | ok scope =>
      rw [henter] at hrun
      obtain ⟨state', hcheck, hscope, htranslation⟩ := hrun
      rw [hcheck] at hsource
      obtain ⟨hresolved, rfl⟩ := Generate.checkLabels_eq_ok_iff.mp hsource
      rw [hscope] at hresolved
      exact ⟨hfault, program, scope, hprogram, hlimit, henter, hresolved, htranslation⟩
  · rintro ⟨hfault, program, scope, hderives, hlimit, henter, hresolved, rfl⟩
    obtain ⟨first, cursor, _, _, hfirst, _⟩ := Cursor.exists_passes_of_stream hfault
    have hrun := sourceText_of_stream hfirst hfault hderives hlimit
    rw [henter] at hrun
    obtain ⟨state, hcheck, rfl, htranslation⟩ := hrun
    have hpass : Generate.checkLabels (options.setting source) state = .ok () state :=
      Generate.checkLabels_eq_ok_iff.mpr ⟨hresolved, rfl⟩
    exact ⟨_, state, begin_eq_ok_iff.mpr ⟨first, cursor, hfirst, rfl⟩, hcheck.trans hpass,
      htranslation.symm⟩

theorem text_translation (options : Options) (file : String) (program : Program) (scope : Scope)
    (tokenCount : Nat) :
    (translation options file program scope tokenCount).text =
      closedLines (Generate.prologue ++ scope.declaredVariables.names.map declarationLine ++
        program.lines options.numberFormat ++ Generate.epilogue) := by
  calc
    _ = closedLines (Generate.prologue ++ scope.declaredVariables.names.map declarationLine) ++
        closedLines (program.lines options.numberFormat ++ Generate.epilogue) := rfl
    _ = _ := by rw [← closedLines_append, List.append_assoc _ (program.lines options.numberFormat)]

/-- A compilation that succeeds has read the tokens of exactly one program. Its text is made of the
prologue, the declarations of the variables in the order in which they are first given a value, the
lines of the statements and the epilogue, and it lists these variables and the labels in order. -/
theorem exists_unique_translation (options : Options) (source file : String)
    (compilation : Compilation) (h : options.compile source file = .ok compilation) :
    (Cursor.stream (Cursor.start file source)).fault = none ∧
    ∃ program : Program, program.Derives (Cursor.stream (Cursor.start file source)).tokens ∧
      (∀ other : Program,
        other.Derives (Cursor.stream (Cursor.start file source)).tokens → other = program) ∧
      compilation.text = closedLines (Generate.prologue ++
        program.variableNames.map declarationLine ++ program.lines options.numberFormat ++
        Generate.epilogue) ∧
      compilation.variableNames = program.variableNames ∧
      compilation.labelNames = program.labelNames := by
  obtain ⟨hfault, program, scope, hderives, _, henter, _, rfl⟩ :=
    (compile_eq_ok_iff options source file compilation).mp h
  have hrecords := records_of_enterAll henter
  have hunique : ∀ other : Program,
      other.Derives (Cursor.stream (Cursor.start file source)).tokens → other = program :=
    fun other hother ↦ Program.eq_of_derives hother hderives
  have htext := text_translation options file program scope
    (Cursor.stream (Cursor.start file source)).tokens.length
  rw [hrecords.variableNames] at htext
  exact ⟨hfault, program, hderives, hunique, htext, hrecords.variableNames, hrecords.labelNames⟩

/-- A variable that is first given a value inside a loop is declared before it. -/
theorem exists_unique_translation_loop : ∃ (compilation : Compilation) (program : Program),
    Options.standard.compile "WHILE 1 > 0 REPEAT\nINPUT a\nENDWHILE" "" = .ok compilation ∧
    program.Derives
      (Cursor.stream (Cursor.start "" "WHILE 1 > 0 REPEAT\nINPUT a\nENDWHILE")).tokens ∧
    program.variableNames = ["a"] := by
  have hcompile : Options.standard.compile "WHILE 1 > 0 REPEAT\nINPUT a\nENDWHILE" "" =
      .ok ⟨"", ⟨"#include <stdio.h>\nint main(int argc, char *argv[]) \x7b\nfloat a;\n",
        "while (1>0) \x7b\n" ++ "if (0 == scanf(\"%f\", &a)) \x7b\na = 0;\nscanf(\"%*s\");\n\x7d\n" ++
          "\x7d\nreturn 0;\n\x7d\n"⟩, ["a"], [], 12⟩ := by
    decide +kernel
  obtain ⟨_, program, hderives, _, _, hvariables, _⟩ :=
    exists_unique_translation Options.standard _ _ _ hcompile
  exact ⟨_, program, hcompile, hderives, hvariables.symm⟩

/-- The texts that are accepted: those without lexical faults whose tokens form a program of the
grammar, if its blocks keep to the limit on nesting, its names are in order and every jump goes to
some label. -/
theorem exists_compile_iff (options : Options) (hdepth : 1 ≤ options.maxDepth)
    (source file : String) :
    (∃ compilation, options.compile source file = .ok compilation) ↔
      (Cursor.stream (Cursor.start file source)).fault = none ∧
      Grammar.kinds (Cursor.stream (Cursor.start file source)).tokens ∈ Grammar.program ∧
      ∀ program : Program, program.Derives (Cursor.stream (Cursor.start file source)).tokens →
        (program.depth : Int) ≤ options.maxDepth ∧ WellNamed program.mentions ∧
        ∀ name ∈ namesInRole .jump program.mentions,
          name ∈ namesInRole .label program.mentions := by
  constructor
  · rintro ⟨compilation, h⟩
    obtain ⟨hfault, program, scope, hderives, hlimit, henter, hresolved, _⟩ :=
      (compile_eq_ok_iff options source file compilation).mp h
    have hgrammar := (Grammar.mem_program_iff _).mpr ⟨program, hderives⟩
    have hlevel : (program.depth : Int) ≤ options.maxDepth := by
      rcases hlimit with hflat | hdeep
      · rw [hflat]
        exact Int.le_trans (by decide) hdepth
      · rw [Nat.zero_add] at hdeep
        exact hdeep
    have hjumps := (records_of_enterAll henter).unresolved_eq_nil_iff.mp hresolved
    have hnames := (exists_enterAll_iff program.mentions).mp ⟨scope, henter⟩
    have hall : ∀ other : Program,
        other.Derives (Cursor.stream (Cursor.start file source)).tokens →
        (other.depth : Int) ≤ options.maxDepth ∧ WellNamed other.mentions ∧
        ∀ name ∈ namesInRole .jump other.mentions, name ∈ namesInRole .label other.mentions := by
      intro other hother
      rw [Program.eq_of_derives hother hderives]
      exact ⟨hlevel, hnames, hjumps⟩
    exact ⟨hfault, hgrammar, hall⟩
  · rintro ⟨hfault, hgrammar, hall⟩
    obtain ⟨program, hderives⟩ := (Grammar.mem_program_iff _).mp hgrammar
    obtain ⟨hlevel, hnames, hjumps⟩ := hall program hderives
    obtain ⟨scope, henter⟩ := (exists_enterAll_iff program.mentions).mpr hnames
    have hlimit : Generate.WithinLimit (options.setting source) 0 program.depth := by
      right
      rw [Nat.zero_add]
      exact hlevel
    have hresolved := (records_of_enterAll henter).unresolved_eq_nil_iff.mpr hjumps
    exact ⟨_, (compile_eq_ok_iff options source file _).mpr
      ⟨hfault, program, scope, hderives, hlimit, henter, hresolved, rfl⟩⟩

/-- A program of a label and a jump to it is accepted under the standard options, so its tokens are
in the grammar. -/
theorem exists_compile_iff_jump :
    1 ≤ Options.standard.maxDepth ∧
    (∃ compilation, Options.standard.compile "LABEL a\nGOTO a" "" = .ok compilation) ∧
    Grammar.kinds (Cursor.stream (Cursor.start "" "LABEL a\nGOTO a")).tokens ∈ Grammar.program := by
  have haccepted : ∃ compilation,
      Options.standard.compile "LABEL a\nGOTO a" "" = .ok compilation :=
    ⟨⟨"", ⟨"#include <stdio.h>\nint main(int argc, char *argv[]) \x7b\n",
      "a:\ngoto a;\nreturn 0;\n\x7d\n"⟩, [], ["a"], 7⟩, by decide +kernel⟩
  have hconditions := (exists_compile_iff Options.standard (by decide) _ _).mp haccepted
  exact ⟨by decide, haccepted, hconditions.2.1⟩

end TeenyBasic
