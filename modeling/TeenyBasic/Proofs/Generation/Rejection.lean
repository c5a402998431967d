import TeenyBasic.Proofs.Generation.Compilation
import TeenyBasic.Proofs.Source.Objection

/-!
# Rejected names

A source text whose tokens form a program, with blocks that keep to the limit on nesting, can only
be rejected for its names. It is rejected for the first objection to a mention, from left to right.
If there is none, it is rejected for the first jump to a label that is declared nowhere; that comes
to light at the end, when the whole program has been translated.

The main statement is `compile_eq_error_iff_of_derives`.
-/

namespace TeenyBasic

open Source

/-- The diagnostic of a cause at a place of a source text, with the line that holds the place. -/
def Diagnostic.inSource (source : String) (cause : Cause) (location : Location) : Diagnostic :=
  ⟨cause, some location, Text.line? (Cursor.closed source) location.line⟩

theorem Generate.checkLabels_of_head? {σ : Type} {setting : Setting} {state : Generator σ}
    {target : Name} (hname : state.scope.unresolved.head? = some target.spelling)
    (hplace : state.scope.referencedLabels.find? target.spelling = some target.location) :
    checkLabels setting state = .error
      (.inSource setting.source (.undefinedLabel target.spelling) target.location) state := by
  have hget : (get : Generate σ (Generator σ)) setting state = .ok state state := rfl
  obtain ⟨rest, hrest⟩ := List.head?_eq_some_iff.mp hname
  rw [checkLabels, bind_of_ok hget, hrest]
  dsimp only
  rw [hplace]
  rfl

section

variable (options : Options) {source file : String} {program : Program}

theorem withinLimit_of_le (h : (program.depth : Int) ≤ options.maxDepth) :
    Generate.WithinLimit (options.setting source) 0 program.depth := by
  right
  rw [Nat.zero_add]
  exact h

theorem compile_of_isFirstObjection {mention : Mention} {cause : Cause}
    (hfault : (Cursor.stream (Cursor.start file source)).fault = none)
    (hderives : program.Derives (Cursor.stream (Cursor.start file source)).tokens)
    (hdepth : (program.depth : Int) ≤ options.maxDepth)
    (h : IsFirstObjection program.mentions mention cause) :
    options.compile source file = .error (.inSource source cause mention.name.location) := by
  obtain ⟨first, cursor, _, _, hfirst, _⟩ := Cursor.exists_passes_of_stream hfault
  have hrun := sourceText_of_stream hfirst hfault hderives (withinLimit_of_le options hdepth)
  have henter := (enterAll_eq_error_iff program.mentions cause mention.name.location).mpr
    ⟨mention, h, rfl⟩
  rw [henter] at hrun
  obtain ⟨state, hstate⟩ := hrun
  rw [compile_eq_error_iff_run]
  exact .inr ⟨_, state, begin_eq_ok_iff.mpr ⟨first, cursor, hfirst, rfl⟩, hstate⟩

/-- If there is no objection to any name, a first open jump ends the run. What has been written then
is the translation of the whole program. -/
theorem run_of_isFirstOpenJump {target : Name}
    (hfault : (Cursor.stream (Cursor.start file source)).fault = none)
    (hderives : program.Derives (Cursor.stream (Cursor.start file source)).tokens)
    (hdepth : (program.depth : Int) ≤ options.maxDepth)
    (hnames : ∀ mention cause, ¬ IsObjection program.mentions mention cause)
    (h : IsFirstOpenJump program.mentions target) :
    ∃ start state, Generator.begin (Cursor.start file source) .empty = .ok start ∧
      Generate.sourceText (options.setting source) start =
        .error (.inSource source (.undefinedLabel target.spelling) target.location) state ∧
      state.listing.output = closedLines (Generate.prologue ++
        program.variableNames.map declarationLine ++ program.lines options.numberFormat ++
        Generate.epilogue) := by
  obtain ⟨first, cursor, _, _, hfirst, _⟩ := Cursor.exists_passes_of_stream hfault
  obtain ⟨scope, henter⟩ :=
    (exists_enterAll_iff program.mentions).mpr ((wellNamed_iff program.mentions).mpr hnames)
  have hrecords := records_of_enterAll henter
  have hrun := sourceText_of_stream hfirst hfault hderives (withinLimit_of_le options hdepth)
  rw [henter] at hrun
  obtain ⟨state, hcheck, rfl, htranslation⟩ := hrun
  obtain ⟨hname, hplace⟩ := h.head?_unresolved (locates_of_enterAll henter) hrecords
  have hfails : Generate.checkLabels (options.setting source) state = _ :=
    Generate.checkLabels_of_head? hname hplace
  have htext : state.listing.output = _ :=
    (congrArg Compilation.text htranslation).trans (text_translation _ _ _ _ _)
  rw [hrecords.variableNames] at htext
  exact ⟨_, state, begin_eq_ok_iff.mpr ⟨first, cursor, hfirst, rfl⟩, hcheck.trans hfails, htext⟩

theorem exists_compilation_of_names
    (hfault : (Cursor.stream (Cursor.start file source)).fault = none)
    (hderives : program.Derives (Cursor.stream (Cursor.start file source)).tokens)
    (hdepth : (program.depth : Int) ≤ options.maxDepth)
    (hnames : ∀ mention cause, ¬ IsObjection program.mentions mention cause)
    (hjumps : ∀ target, ¬ IsOpenJump program.mentions target) :
    ∃ compilation, options.compile source file = .ok compilation := by
  obtain ⟨scope, henter⟩ :=
    (exists_enterAll_iff program.mentions).mpr ((wellNamed_iff program.mentions).mpr hnames)
  have hresolved : scope.unresolved = [] := by
    rw [(records_of_enterAll henter).unresolved_eq_nil_iff]
    intro name hname
    obtain ⟨⟨role, target⟩, hmention, rfl, rfl⟩ := mem_namesInRole_iff.mp hname
    by_contra hopen
    exact hjumps target ⟨hmention, hopen⟩
  exact ⟨_, (compile_eq_ok_iff options source file _).mpr
    ⟨hfault, program, scope, hderives, withinLimit_of_le options hdepth, henter, hresolved, rfl⟩⟩

end

theorem family_of_objection? {before : List Mention} {mention : Mention} {cause : Cause}
    (h : objection? before mention = some cause) : cause.family = .semantic := by
  obtain ⟨role, name⟩ := mention
  cases role with
  | target | reading | jump =>
    simp only [objection?] at h
    split at h <;> cases h
    rfl
  | label =>
    simp only [objection?] at h
    split at h
    · cases h
      rfl
    · obtain ⟨first, _, rfl⟩ := Option.map_eq_some_iff.mp h
      rfl

theorem Generator.run_of_error {σ : Type} [TokenSupply σ] {setting : Setting}
    {start state : Generator σ} {fault : Diagnostic}
    (h : Generate.sourceText setting start = .error fault state) :
    start.run setting = (state, some fault) := by
  have hrun : (Generate.sourceText.run setting).run start = .error fault state := h
  rw [Generator.run, hrun]

/-- The names of a program and the fault they are rejected for. A text without lexical faults whose
tokens form a program within the limit on nesting is rejected for its names exactly when there is an
objection to one of them or a jump is left open. The fault is the first objection from left to
right, at its mention; only if there is none, it is the first open jump, at that jump, and then the
translation of the whole program has been written. -/
theorem compile_eq_error_iff_of_derives (options : Options) (source file : String)
    (program : Program) (hfault : (Cursor.stream (Cursor.start file source)).fault = none)
    (hderives : program.Derives (Cursor.stream (Cursor.start file source)).tokens)
    (hdepth : (program.depth : Int) ≤ options.maxDepth) :
    ((∃ fault, options.compile source file = .error fault ∧ fault.cause.family = .semantic) ↔
      (∃ mention cause, IsObjection program.mentions mention cause) ∨
        ∃ target, IsOpenJump program.mentions target) ∧
    ∀ fault, options.compile source file = .error fault ↔
      (∃ mention cause, IsFirstObjection program.mentions mention cause ∧
        fault = .inSource source cause mention.name.location) ∨
      (∀ mention cause, ¬ IsObjection program.mentions mention cause) ∧
        ∃ target, IsFirstOpenJump program.mentions target ∧
          fault = .inSource source (.undefinedLabel target.spelling) target.location ∧
          ∃ start state, Generator.begin (Cursor.start file source) .empty = .ok start ∧
            start.run (options.setting source) = (state, some fault) ∧
            state.listing.output = closedLines (Generate.prologue ++
              program.variableNames.map declarationLine ++ program.lines options.numberFormat ++
              Generate.epilogue) := by
  have hobjection {mention : Mention} {cause : Cause}
      (h : IsFirstObjection program.mentions mention cause) :
      options.compile source file = .error (.inSource source cause mention.name.location) :=
    compile_of_isFirstObjection options hfault hderives hdepth h
  have hopenJump {target : Name}
      (hnames : ∀ mention cause, ¬ IsObjection program.mentions mention cause)
      (h : IsFirstOpenJump program.mentions target) :
      options.compile source file =
        .error (.inSource source (.undefinedLabel target.spelling) target.location) := by
    obtain ⟨start, state, hbegin, hrun, _⟩ :=
      run_of_isFirstOpenJump options hfault hderives hdepth hnames h
    exact (compile_eq_error_iff_run options source file _).mpr (.inr ⟨start, state, hbegin, hrun⟩)
  by_cases hwrong : ∃ mention cause, IsObjection program.mentions mention cause
  · obtain ⟨mention, cause, hmention⟩ := hwrong
    obtain ⟨first, cause', hfirst⟩ := exists_isFirstObjection hmention
    have hcompile := hobjection hfirst
    have hfamily : cause'.family = .semantic := by
      obtain ⟨_, _, _, hcause, _⟩ := hfirst
      exact family_of_objection? hcause
    refine ⟨iff_of_true ⟨_, hcompile, hfamily⟩ (.inl ⟨mention, cause, hmention⟩), fun fault ↦ ?_⟩
    constructor
    · intro h
      rw [hcompile] at h
      cases h
      exact .inl ⟨first, cause', hfirst, rfl⟩
    · rintro (⟨other, _, hother, rfl⟩ | ⟨hnames, _⟩)
      · exact hobjection hother
      · exact absurd hmention (hnames mention cause)
  have hnames : ∀ mention cause, ¬ IsObjection program.mentions mention cause :=
    fun mention cause hmention ↦ hwrong ⟨mention, cause, hmention⟩
  by_cases hopen : ∃ target, IsOpenJump program.mentions target
  · obtain ⟨target, htarget⟩ := hopen
    obtain ⟨first, hfirst⟩ := exists_isFirstOpenJump htarget
    have hcompile := hopenJump hnames hfirst
    refine ⟨iff_of_true ⟨_, hcompile, rfl⟩ (.inr ⟨target, htarget⟩), fun fault ↦ ?_⟩
    constructor
    · intro h
      rw [hcompile] at h
      cases h
      obtain ⟨start, state, hbegin, hrun, houtput⟩ :=
        run_of_isFirstOpenJump options hfault hderives hdepth hnames hfirst
      exact .inr ⟨hnames, first, hfirst, rfl, start, state, hbegin, Generator.run_of_error hrun,
        houtput⟩
    · rintro (⟨other, cause, hother, _⟩ | ⟨_, other, hother, rfl, _⟩)
      · exact absurd hother.isObjection (hnames other cause)
      · exact hopenJump hnames hother
  · obtain ⟨compilation, hcompile⟩ := exists_compilation_of_names options hfault hderives hdepth
      hnames fun target htarget ↦ hopen ⟨target, htarget⟩
    refine ⟨iff_of_false (by simp [hcompile]) ?_, fun fault ↦ iff_of_false (by simp [hcompile]) ?_⟩
    · exact fun h ↦ h.elim hwrong hopen
    · rintro (⟨other, cause, hother, _⟩ | ⟨_, other, hother, _⟩)
      · exact hnames other cause hother.isObjection
      · exact hopen ⟨other, hother.isOpenJump⟩

/-- The second of two labels with one name is rejected, and the report leads back to the first; the
open jump behind it is not reported. -/
theorem compile_eq_error_iff_of_derives_labels : ∃ program : Program,
    (Cursor.stream (Cursor.start "" "LABEL a\nLABEL a\nGOTO b")).fault = none ∧
    program.Derives (Cursor.stream (Cursor.start "" "LABEL a\nLABEL a\nGOTO b")).tokens ∧
    (program.depth : Int) ≤ Options.standard.maxDepth ∧
    Options.standard.compile "LABEL a\nLABEL a\nGOTO b" "" =
      .error ⟨.duplicateLabel "a" (some ⟨"", 1, 7⟩), some ⟨"", 2, 7⟩, some "LABEL a"⟩ := by
  let first : Name := ⟨"a", ⟨"", 1, 7⟩⟩
  let second : Name := ⟨"a", ⟨"", 2, 7⟩⟩
  let target : Name := ⟨"b", ⟨"", 3, 6⟩⟩
  let body : List Token :=
    [⟨.keyword .LABEL, "LABEL", ⟨"", 1, 1⟩⟩, ⟨.identifier, "a", ⟨"", 1, 7⟩⟩,
     ⟨.newline, "\n", ⟨"", 1, 8⟩⟩, ⟨.keyword .LABEL, "LABEL", ⟨"", 2, 1⟩⟩,
     ⟨.identifier, "a", ⟨"", 2, 7⟩⟩, ⟨.newline, "\n", ⟨"", 2, 8⟩⟩,
     ⟨.keyword .GOTO, "GOTO", ⟨"", 3, 1⟩⟩, ⟨.identifier, "b", ⟨"", 3, 6⟩⟩,
     ⟨.newline, "\n", ⟨"", 3, 7⟩⟩]
  have hfault : (Cursor.stream (Cursor.start "" "LABEL a\nLABEL a\nGOTO b")).fault = none := by
    decide +kernel
  have htokens : (Cursor.stream (Cursor.start "" "LABEL a\nLABEL a\nGOTO b")).tokens =
      body ++ [⟨.endOfInput, "", ⟨"", 4, 1⟩⟩] := by
    decide +kernel
  have hbody : Program.DerivesBody [.label first, .label second, .jump target] body :=
    ⟨[_, _], [_], _, rfl, ⟨_, _, rfl, rfl, rfl, rfl⟩, by simp [IsLineEnd],
      [_, _], [_], _, rfl, ⟨_, _, rfl, rfl, rfl, rfl⟩, by simp [IsLineEnd],
      [_, _], [_], _, rfl, ⟨_, _, rfl, rfl, rfl, rfl⟩, by simp [IsLineEnd], rfl⟩
  have hderives : Program.Derives [.label first, .label second, .jump target]
      (Cursor.stream (Cursor.start "" "LABEL a\nLABEL a\nGOTO b")).tokens :=
    ⟨[], body, _, htokens, by simp, hbody, rfl⟩
  have hfirst : IsFirstObjection (Program.mentions [.label first, .label second, .jump target])
      ⟨.label, second⟩ (.duplicateLabel "a" (some ⟨"", 1, 7⟩)) := by
    refine ⟨[⟨.label, first⟩], [⟨.jump, target⟩], rfl, by decide, ?_⟩
    rw [← wellNamed_iff, ← exists_enterAll_iff]
    exact ⟨_, rfl⟩
  have hreported := (compile_eq_error_iff_of_derives Options.standard _ "" _ hfault hderives
    (by decide)).2
  exact ⟨_, hfault, hderives, by decide, (hreported _).mpr (.inl ⟨_, _, hfirst, by decide +kernel⟩)⟩

end TeenyBasic
