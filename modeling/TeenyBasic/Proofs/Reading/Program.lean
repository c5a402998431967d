import TeenyBasic.Proofs.CLanguage.Program
import TeenyBasic.Proofs.Generation.Compilation
import TeenyBasic.Proofs.Reading.Comparison
import TeenyBasic.Proofs.Reading.Statement

/-!
# When a translation is a program of C

Each statement is translated to statements of C, apart from a label, which is only the front of one.
What follows a label completes it, and the main function ends with a return statement, so a label
may end a program. A block ends with its brace, so a label may not end a block.

The main statement is `isProgram_iff_of_compile`: what a compilation gives is a program of C exactly
when no block ends with a label and every printed text can be copied into a literal.
-/

namespace TeenyBasic.Source

open C (AreStatements IsStatement Reads Divides)

/-- Decides whether a statement is a label. -/
def Statement.isLabel : Statement → Bool
  | .label _ => true
  | _ => false

/-- Decides whether the last of a list of statements is a label. -/
def Program.endsWithLabel (program : Program) : Bool :=
  program.getLast?.any Statement.isLabel

mutual

/-- Decides whether no block of a statement ends with a label. -/
def Statement.labelsLead : Statement → Bool
  | .block _ _ body => !Program.endsWithLabel body && Program.labelsLead body
  | _ => true

def Program.labelsLead : Program → Bool
  | [] => true
  | statement :: rest => statement.labelsLead && Program.labelsLead rest

end

theorem derives_named {name : String} (h : name ∉ C.keywords) {level : Nat}
    (hlevel : level ≤ C.Level.primary) : C.Derives level [.word name] (.named name) :=
  (C.Derives.named h).lower hlevel (Nat.le_refl _)

theorem derives_quoted (body : List Char) {level : Nat} (hlevel : level ≤ C.Level.primary) :
    C.Derives level [.quoted body] (.text (String.ofList body)) :=
  C.Derives.text.lower hlevel (Nat.le_refl _)

theorem derives_zero {level : Nat} (hlevel : level ≤ C.Level.primary) :
    C.Derives level [.number "0"] (.constant "0") :=
  (C.Derives.constant rfl).lower hlevel (Nat.le_refl _)

theorem derives_call {name : String} (hname : name ∉ C.keywords) {arguments : List C.Token}
    {tree : C.Tree} (h : C.Derives C.Level.expression arguments tree) {level : Nat}
    (hlevel : level ≤ C.Level.suffixed) :
    C.Derives level (.word name :: .mark "(" :: (arguments ++ [.mark ")"]))
      (.call (.named name) tree) :=
  (C.Derives.call (derives_named hname (by decide)) h).lower hlevel (by decide)

theorem isStatement_printText (body : List Char) :
    IsStatement [.word "printf", .mark "(", .quoted body, .mark ")", .mark ";"] :=
  .expression (derives_call (by decide) (derives_quoted body (by decide)) (by decide))

theorem isStatement_print (body : List Char) {value : Expression}
    (h : Expression.IsSpelled value) (hnames : Unreserved (Expression.mentions value)) :
    IsStatement (.word "printf" :: .mark "(" :: .quoted body :: .mark "," :: .mark "(" ::
      .word "float" :: .mark ")" :: .mark "(" ::
      (Expression.cTokens value ++ [.mark ")", .mark ")", .mark ";"])) := by
  have hvalue : C.Derives C.Level.cast
      (.mark "(" :: (Expression.cTokens value ++ [.mark ")"])) (Expression.cTree value) :=
    (C.Derives.parenthesised ((Expression.cDerives_iff h hnames _).mpr rfl)).lower
      (by decide) (by decide)
  have hcast : C.Derives C.Level.assignment
      (.mark "(" :: .word "float" :: .mark ")" :: .mark "(" ::
        (Expression.cTokens value ++ [.mark ")"])) (.cast "float" (Expression.cTree value)) :=
    (C.Derives.cast (by decide) hvalue).lower (by decide) (by decide)
  have harguments : C.Derives C.Level.expression
      (.quoted body :: .mark "," :: .mark "(" :: .word "float" :: .mark ")" :: .mark "(" ::
        (Expression.cTokens value ++ [.mark ")"])) _ :=
    C.Derives.binary rfl (derives_quoted body (by decide)) hcast
  have hprintf : "printf" ∉ C.keywords := by decide
  have hcall : IsStatement _ := .expression (derives_call hprintf harguments (by decide))
  simpa using hcall

theorem isStatement_assign {name : String} {tokens : List C.Token} {tree : C.Tree}
    (hname : name ∉ C.keywords) (h : C.Derives C.Level.assignment tokens tree) :
    IsStatement (.word name :: .mark "=" :: (tokens ++ [.mark ";"])) :=
  .expression ((C.Derives.assign (derives_named hname (by decide)) h).lower (by decide) (by decide))

theorem isStatement_input {name : String} (hname : name ∉ C.keywords) :
    IsStatement [.word "if", .mark "(", .number "0", .mark "==", .word "scanf", .mark "(",
      .quoted "%f".toList, .mark ",", .mark "&", .word name, .mark ")", .mark ")",
      .mark "\x7b", .word name, .mark "=", .number "0", .mark ";", .word "scanf",
      .mark "(", .quoted "%*s".toList, .mark ")", .mark ";", .mark "\x7d"] := by
  have haddress : C.Derives C.Level.assignment [.mark "&", .word name]
      (.unary "&" (.named name)) :=
    (C.Derives.unary (by decide) (derives_named hname (by decide))).lower (by decide) (by decide)
  have hscan : C.Derives C.Level.relational
      [.word "scanf", .mark "(", .quoted "%f".toList, .mark ",", .mark "&", .word name, .mark ")"]
      _ :=
    derives_call (by decide)
      (C.Derives.binary rfl (derives_quoted "%f".toList (by decide)) haddress) (by decide)
  have htest : C.Derives C.Level.expression
      [.number "0", .mark "==", .word "scanf", .mark "(", .quoted "%f".toList, .mark ",",
       .mark "&", .word name, .mark ")"] _ :=
    (C.Derives.binary rfl (derives_zero (by decide)) hscan).lower (by decide) (by decide)
  have hreset : IsStatement [.word name, .mark "=", .number "0", .mark ";"] :=
    isStatement_assign hname (derives_zero (by decide))
  have hdiscard : IsStatement
      [.word "scanf", .mark "(", .quoted "%*s".toList, .mark ")", .mark ";"] :=
    .expression (derives_call (by decide) (derives_quoted _ (by decide)) (by decide))
  exact .block (by decide) htest (.cons hreset (.cons hdiscard .nil))

theorem unreserved_append {a b : List Mention} :
    Unreserved (a ++ b) ↔ Unreserved a ∧ Unreserved b := by
  simp [Unreserved, or_imp, forall_and]

theorem Statement.cTokens_ne_nil (format : String) (statement : Statement) :
    statement.cTokens format ≠ [] := by
  cases statement <;> simp [Statement.cTokens]

theorem Program.cTokens_ne_nil {program : Program} (h : program ≠ []) (format : String) :
    program.cTokens format ≠ [] := by
  obtain ⟨statement, rest, rfl⟩ := List.exists_cons_of_ne_nil h
  simp [Program.cTokens, Statement.cTokens_ne_nil]

theorem Program.endsWithLabel_cons (statement : Statement) (rest : Program) :
    Program.endsWithLabel (statement :: rest) =
      if rest = [] then statement.isLabel else rest.endsWithLabel := by
  cases rest with
  | nil => rfl
  | cons next rest => simp [Program.endsWithLabel, List.getLast?_cons_cons]

mutual

/-- A statement is complete in front of other statements; only a label needs one of them. -/
theorem Statement.areStatements (format : String) : (statement : Statement) →
    statement.IsSpelled → Unreserved statement.mentions → statement.labelsLead = true →
    ∀ {more : List C.Token}, AreStatements more → (statement.isLabel = true → more ≠ []) →
    AreStatements (statement.cTokens format ++ more)
  | .printText text, _, _, _, _, hmore, _ => .cons (isStatement_printText _) hmore
  | .print value, hspelled, hnames, _, _, hmore, _ =>
    .cons (isStatement_print _ hspelled hnames) hmore
  | .block form condition body, hspelled, hnames, hleads, _, hmore, _ => by
    rw [Statement.mentions, unreserved_append] at hnames
    rw [Statement.labelsLead, Bool.and_eq_true, Bool.not_eq_true'] at hleads
    have hword : form.word ∈ ["if", "while"] := by cases form <;> decide
    have htest := Condition.cDerives hspelled.1 hnames.1
    have hbody : AreStatements (Program.cTokens format body) := by
      have hrow := Program.areStatements format body hspelled.2 hnames.2 hleads.2 .nil
        (by simp [hleads.1])
      simpa using hrow
    exact .cons (.block hword htest hbody) hmore
  | .label name, hspelled, hnames, _, _, hmore, hne =>
    hmore.label (not_mem_keywords hspelled (hnames _ List.mem_cons_self)) (hne rfl)
  | .jump target, hspelled, hnames, _, _, hmore, _ =>
    .cons (.jump (not_mem_keywords hspelled (hnames _ List.mem_cons_self))) hmore
  | .assign target value, hspelled, hnames, _, _, hmore, _ => by
    have hvalue : Unreserved (Expression.mentions value) :=
      fun mention hmention ↦ hnames mention (List.mem_cons_of_mem _ hmention)
    have hderives : C.Derives C.Level.assignment (Expression.cTokens value) _ :=
      (Expression.cDerives hspelled.2 hvalue).lower (by decide) (by decide)
    exact .cons (isStatement_assign
      (not_mem_keywords hspelled.1 (hnames _ List.mem_cons_self)) hderives) hmore
  | .input target, hspelled, hnames, _, _, hmore, _ =>
    .cons (isStatement_input (not_mem_keywords hspelled (hnames _ List.mem_cons_self))) hmore

/-- Statements in whose blocks no label comes last are statements of C in front of others, which may
only be missing if the last of the statements is no label. -/
theorem Program.areStatements (format : String) : (program : Program) →
    program.IsSpelled → Unreserved program.mentions → program.labelsLead = true →
    ∀ {more : List C.Token}, AreStatements more → (program.endsWithLabel = true → more ≠ []) →
    AreStatements (program.cTokens format ++ more)
  | [], _, _, _, _, hmore, _ => hmore
  | statement :: rest, hspelled, hnames, hleads, more, hmore, hne => by
    rw [Program.mentions, unreserved_append] at hnames
    rw [Program.labelsLead, Bool.and_eq_true] at hleads
    rw [Program.endsWithLabel_cons] at hne
    have hrest : Program.endsWithLabel rest = true → more ≠ [] := by
      intro hends
      apply hne
      split
      · rename_i hnil
        rw [hnil] at hends
        cases hends
      · exact hends
    have htail := Program.areStatements format rest hspelled.2 hnames.2 hleads.2 hmore hrest
    have hlabel : statement.isLabel = true → Program.cTokens format rest ++ more ≠ [] := by
      intro hlabel
      by_cases hnil : rest = []
      · rw [if_pos hnil] at hne
        simp [hne hlabel]
      · simp [Program.cTokens_ne_nil hnil]
    rw [Program.cTokens, List.append_assoc]
    exact Statement.areStatements format statement hspelled.1 hnames.1 hleads.1 htail hlabel

end

theorem Program.getLast?_cTokens {program : Program} (h : program.endsWithLabel = true)
    (format : String) : (program.cTokens format).getLast? = some (.mark ":") := by
  induction program with
  | nil => cases h
  | cons statement rest ih =>
    rw [Program.endsWithLabel_cons] at h
    rw [Program.cTokens]
    split at h
    · rename_i hnil
      rw [hnil, Program.cTokens, List.append_nil]
      cases statement <;> first | rfl | cases h
    · rw [List.getLast?_append, ih h]
      rfl

mutual

theorem Statement.labelsLead_of_isChain (format : String) : (statement : Statement) →
    (statement.cTokens format).IsChain C.MayFollow → statement.labelsLead = true
  | .block form condition body, h => by
    have hinner : List.IsChain C.MayFollow
        (Program.cTokens format body ++ [.mark "\x7d"]) := by
      apply h.infix
      apply List.IsSuffix.isInfix
      exact ⟨.word form.word :: .mark "(" :: (condition.cTokens ++ [.mark ")", .mark "\x7b"]),
        by simp [Statement.cTokens]⟩
    rw [List.isChain_append] at hinner
    rw [Statement.labelsLead, Bool.and_eq_true, Bool.not_eq_true', Bool.eq_false_iff]
    constructor
    · intro hends
      have hlast := Program.getLast?_cTokens hends format
      exact hinner.2.2 _ hlast _ rfl ⟨rfl, rfl⟩
    · exact Program.labelsLead_of_isChain format body hinner.1
  | .printText _, _ | .print _, _ | .label _, _ | .jump _, _ | .assign _ _, _ | .input _, _ => rfl

/-- A label at the end of a block stands directly before a closing brace. -/
theorem Program.labelsLead_of_isChain (format : String) : (program : Program) →
    (program.cTokens format).IsChain C.MayFollow → program.labelsLead = true
  | [], _ => rfl
  | statement :: rest, h => by
    rw [Program.cTokens, List.isChain_append] at h
    rw [Program.labelsLead, Bool.and_eq_true]
    exact ⟨Statement.labelsLead_of_isChain format statement h.1,
      Program.labelsLead_of_isChain format rest h.2.1⟩

end

theorem divides_mainHead :
    Divides (closedLines ["int main(int argc, char *argv[]) \x7b"]).toList true C.mainHead := by
  have htext : (closedLines ["int main(int argc, char *argv[]) \x7b"]).toList =
      "int".toList ++ (' ' :: ("main".toList ++ ("(".toList ++ ("int".toList ++ (' ' ::
        ("argc".toList ++ (",".toList ++ (' ' :: ("char".toList ++ (' ' :: ("*".toList ++
          ("argv".toList ++ ("[".toList ++ ("]".toList ++ (")".toList ++ (' ' ::
            ("\x7b".toList ++ ['\n']))))))))))))))))) := by
    simp
  rw [htext]
  apply C.divides_of_reads (by decide)
  intro rest
  apply Reads.word_append (by decide) (C.stops_cons.mpr (by decide))
  apply Reads.blank_cons rfl
  apply Reads.word_append (by decide) (C.stops_cons.mpr (by decide))
  apply Reads.closed_append (by decide)
  apply Reads.word_append (by decide) (C.stops_cons.mpr (by decide))
  apply Reads.blank_cons rfl
  apply Reads.word_append (by decide) (C.stops_cons.mpr (by decide))
  apply Reads.closed_append (by decide)
  apply Reads.blank_cons rfl
  apply Reads.word_append (by decide) (C.stops_cons.mpr (by decide))
  apply Reads.blank_cons rfl
  apply Reads.mark_append_word (by decide) (by decide)
  apply Reads.word_append (by decide) (C.stops_cons.mpr (by decide))
  apply Reads.closed_append (by decide)
  apply Reads.closed_append (by decide)
  apply Reads.closed_append (by decide)
  apply Reads.blank_cons rfl
  apply Reads.closed_append (by decide)
  exact Reads.blank_cons rfl (C.reads_nil rest)

/-- The tokens of a declaration. -/
def declarationTokens (name : String) : List C.Token :=
  [.word "float", .word name, .mark ";"]

theorem divides_declaration {name : String} (h : Lexeme.IsWord name.toList) :
    Divides (closedLines [declarationLine name]).toList true (declarationTokens name) := by
  have htext : (closedLines [declarationLine name]).toList =
      "float".toList ++ (' ' :: (name.toList ++ (";".toList ++ ['\n']))) := by
    simp [declarationLine, toString]
  rw [htext]
  apply C.divides_of_reads
  · simpa using plain_of_isWord h
  · intro rest
    apply Reads.word_append (by decide) (C.stops_cons.mpr (by decide))
    apply Reads.blank_cons rfl
    apply Reads.word_append h (C.stops_cons.mpr (by decide))
    apply Reads.closed_append (by decide)
    exact Reads.blank_cons rfl (C.reads_nil rest)

theorem divides_declarations {names : List String}
    (h : ∀ name ∈ names, Lexeme.IsWord name.toList) :
    Divides (closedLines (names.map declarationLine)).toList true
      (names.flatMap declarationTokens) := by
  induction names with
  | nil => simpa using C.divides_nil
  | cons name names ih =>
    have hall := (divides_declaration (h name List.mem_cons_self)).append
      (ih fun other hother ↦ h other (List.mem_cons_of_mem _ hother))
    simpa using hall

theorem areDeclarations {names : List String} (h : ∀ name ∈ names, name ∉ C.keywords) :
    C.AreDeclarations (names.flatMap declarationTokens) := by
  induction names with
  | nil => exact .nil
  | cons name names ih =>
    exact .cons (h name List.mem_cons_self) (ih fun other hother ↦
      h other (List.mem_cons_of_mem _ hother))

/-- The tokens of the last lines of a program. -/
def epilogueTokens : List C.Token :=
  [.word "return", .number "0", .mark ";", .mark "\x7d"]

theorem divides_epilogue : Divides (closedLines Generate.epilogue).toList true epilogueTokens := by
  have htext : (closedLines Generate.epilogue).toList =
      "return".toList ++ (' ' :: ("0".toList ++ (";".toList ++ ('\n' :: ("\x7d".toList ++
        ['\n']))))) := by
    simp [Generate.epilogue]
  rw [htext]
  apply C.divides_of_reads (by decide)
  intro rest
  apply Reads.word_append (by decide) (C.stops_cons.mpr (by decide))
  apply Reads.blank_cons rfl
  apply Reads.number_append isNumeral_zero (C.stops_cons.mpr (by decide))
  apply Reads.closed_append (by decide)
  apply Reads.blank_cons rfl
  apply Reads.closed_append (by decide)
  exact Reads.blank_cons rfl (C.reads_nil rest)

/-! ## Whole programs -/

/-- The tokens of the main function that declares variables and holds the statements of a
program. -/
def mainTokens (format : String) (names : List String) (program : Program) : List C.Token :=
  C.mainHead ++ names.flatMap declarationTokens ++ program.cTokens format ++ epilogueTokens

theorem divides_main {format : String} (hformat : NumberFormat.isConversion format.toList = true)
    {names : List String} (hnames : ∀ name ∈ names, Lexeme.IsWord name.toList) {program : Program}
    (hprogram : program.IsSpelled) :
    Divides (closedLines ("int main(int argc, char *argv[]) \x7b" :: names.map declarationLine ++
        program.lines format ++ Generate.epilogue)).toList program.textsFit
      (mainTokens format names program) := by
  have hall := ((divides_mainHead.append (divides_declarations hnames)).append
    (Program.divides hformat program hprogram)).append divides_epilogue
  simpa [mainTokens] using hall

theorem isMain_iff (format : String) {names : List String}
    (hnames : ∀ name ∈ names, name ∉ C.keywords) {program : Program}
    (hprogram : program.IsSpelled) (hmentions : Unreserved program.mentions) :
    C.IsMain (mainTokens format names program) ↔ program.labelsLead = true := by
  constructor
  · intro h
    apply Program.labelsLead_of_isChain format
    apply h.isChain.infix
    exact ⟨C.mainHead ++ names.flatMap declarationTokens, epilogueTokens, rfl⟩
  · intro hleads
    have hreturn : AreStatements [.word "return", .number "0", .mark ";"] :=
      .cons (.result (derives_zero (by decide))) .nil
    have hstatements := Program.areStatements format program hprogram hmentions hleads hreturn
      (by simp)
    exact ⟨_, _, by simp [mainTokens, epilogueTokens], areDeclarations hnames, hstatements⟩

theorem isIncludeLine : C.IsIncludeLine "#include <stdio.h>".toList :=
  ⟨"stdio.h".toList, by decide, by decide, by simp⟩

theorem isProgram_cons_iff (text : String) :
    C.IsProgram ("#include <stdio.h>\n" ++ text).toList ↔
      ∃ tokens, C.split (C.withoutTrigraphs text.toList) = some tokens ∧ C.IsMain tokens := by
  have hreplaced : C.withoutTrigraphs ("#include <stdio.h>\n" ++ text).toList =
      "#include <stdio.h>".toList ++ '\n' :: C.withoutTrigraphs text.toList := by
    rw [String.toList_append, C.withoutTrigraphs_append (by decide)]
    simp
  have hline : ∀ c ∈ "#include <stdio.h>".toList, decide (c ≠ '\n') = true := by
    simp
  have htake : ("#include <stdio.h>".toList ++ '\n' :: C.withoutTrigraphs text.toList).takeWhile
      (· ≠ '\n') = "#include <stdio.h>".toList :=
    Lexeme.takeWhile_append_of_stops hline (by simp)
  have hdrop : ("#include <stdio.h>".toList ++ '\n' :: C.withoutTrigraphs text.toList).dropWhile
      (· ≠ '\n') = '\n' :: C.withoutTrigraphs text.toList := by
    rw [List.dropWhile_append_of_pos hline]
    simp
  have hskip : C.split ('\n' :: C.withoutTrigraphs text.toList) =
      C.split (C.withoutTrigraphs text.toList) := by
    have hblank := C.reads_blank (c := '\n') rfl (C.withoutTrigraphs text.toList)
    simpa [Reads] using hblank
  calc
    _ ↔ C.IsIncludeLine "#include <stdio.h>".toList ∧ ∃ tokens,
        C.split ('\n' :: C.withoutTrigraphs text.toList) = some tokens ∧ C.IsMain tokens := by
      rw [C.IsProgram, hreplaced, htake, hdrop]
    _ ↔ ∃ tokens, C.split ('\n' :: C.withoutTrigraphs text.toList) = some tokens ∧
        C.IsMain tokens := and_iff_right isIncludeLine
    _ ↔ _ := by rw [hskip]

/-- The lines that stand for a program are a program of C exactly when no block ends with a label
and every printed text can be copied into a literal. -/
theorem isProgram_iff {format : String} (hformat : NumberFormat.isConversion format.toList = true)
    {names : List String} (hnames : ∀ name ∈ names, Lexeme.IsWord name.toList ∧ name ∉ C.keywords)
    {program : Program} (hprogram : program.IsSpelled) (hmentions : Unreserved program.mentions) :
    C.IsProgram (closedLines (Generate.prologue ++ names.map declarationLine ++
        program.lines format ++ Generate.epilogue)).toList ↔
      program.labelsLead = true ∧ program.textsFit = true := by
  have hdivides := divides_main hformat (fun name hname ↦ (hnames name hname).1) hprogram []
  have hmain := isMain_iff format (fun name hname ↦ (hnames name hname).2) hprogram hmentions
  have hlines : closedLines (Generate.prologue ++ names.map declarationLine ++
        program.lines format ++ Generate.epilogue) =
      "#include <stdio.h>\n" ++ closedLines ("int main(int argc, char *argv[]) \x7b" ::
        names.map declarationLine ++ program.lines format ++ Generate.epilogue) := by
    simp [Generate.prologue]
  have hnothing : C.split (C.withoutTrigraphs []) = some [] := C.split_nil
  rw [List.append_nil, hnothing] at hdivides
  rw [hlines, isProgram_cons_iff, hdivides, ← hmain]
  cases program.textsFit <;> simp

end TeenyBasic.Source

namespace TeenyBasic

open Source

theorem isSpelled_of_stream {cursor : Cursor} {program : Program}
    (hfault : (Cursor.stream cursor).fault = none)
    (hderives : program.Derives (Cursor.stream cursor).tokens) : program.IsSpelled := by
  obtain ⟨first, cursor', tokens, last, _, _, hinner, htokens⟩ :=
    Cursor.exists_passes_of_stream hfault
  obtain ⟨blank, body, stop, hsplit, _, hbody, _⟩ := hderives
  rw [htokens, ← List.append_assoc] at hsplit
  obtain ⟨rfl, _⟩ := List.append_inj' hsplit rfl
  exact hbody.isSpelled fun token htoken ↦
    (hinner token (List.mem_append_right _ htoken)).wellSpelled

/-- What a compilation gives is a program of C exactly when no block of the source program ends with
a label and every text that it prints can be copied into a literal. -/
theorem isProgram_iff_of_compile (options : Options) (hvalid : options.Valid)
    (source file : String) (compilation : Compilation)
    (h : options.compile source file = .ok compilation) :
    ∃ program : Program, program.Derives (Cursor.stream (Cursor.start file source)).tokens ∧
      (C.IsProgram compilation.text.toList ↔
        program.labelsLead = true ∧ program.textsFit = true) := by
  obtain ⟨hfault, program, scope, hderives, _, henter, _, rfl⟩ :=
    (compile_eq_ok_iff options source file compilation).mp h
  have hspelled := isSpelled_of_stream hfault hderives
  have hnamed := (exists_enterAll_iff program.mentions).mp ⟨scope, henter⟩
  have hwords : ∀ name ∈ scope.declaredVariables.names,
      Lexeme.IsWord name.toList ∧ name ∉ C.keywords := by
    intro name hname
    rw [(records_of_enterAll henter).variableNames, List.mem_eraseDups, namesInRole,
      List.mem_map] at hname
    obtain ⟨mention, hmention, rfl⟩ := hname
    have hmem := (List.mem_filter.mp hmention).1
    have hword := Program.spelledNames program hspelled mention hmem
    exact ⟨hword, not_mem_keywords hword (hnamed.unreserved mention hmem)⟩
  rw [text_translation]
  exact ⟨program, hderives, isProgram_iff hvalid.2 hwords hspelled hnamed.unreserved⟩

/-- A text is printed, and the result is a program of C exactly if the text fits. -/
theorem isProgram_iff_of_compile_print : Options.standard.Valid ∧
    ∃ (compilation : Compilation) (program : Program),
      Options.standard.compile "PRINT \"a\"" "" = .ok compilation ∧
      program.Derives (Cursor.stream (Cursor.start "" "PRINT \"a\"")).tokens ∧
      (C.IsProgram compilation.text.toList ↔
        program.labelsLead = true ∧ program.textsFit = true) := by
  have hcompile : Options.standard.compile "PRINT \"a\"" "" =
      .ok ⟨"", ⟨"#include <stdio.h>\nint main(int argc, char *argv[]) \x7b\n",
        "printf(\"a\\n\");\nreturn 0;\n\x7d\n"⟩, [], [], 4⟩ := by
    decide +kernel
  obtain ⟨program, hderives, hprogram⟩ :=
    isProgram_iff_of_compile Options.standard Options.standard_valid _ _ _ hcompile
  exact ⟨Options.standard_valid, _, program, hcompile, hderives, hprogram⟩

def one : Expression := ⟨⟨⟨none, .number "1"⟩, []⟩, []⟩

/-- A branch in which the only statement is a label. -/
def labelInBranch : Program :=
  [.block .conditional ⟨⟨one, [(.equal, one)]⟩, by simp⟩ [.label ⟨"a", ⟨"", 2, 7⟩⟩]]

/-- A label before the end of a block is accepted, but the result is no program of C. -/
theorem not_isProgram_of_labelInBranch : ∃ compilation,
    Options.standard.compile "IF 1 == 1 THEN\nLABEL a\nENDIF" "" = .ok compilation ∧
    ¬ C.IsProgram compilation.text.toList := by
  have hcompile : Options.standard.compile "IF 1 == 1 THEN\nLABEL a\nENDIF" "" =
      .ok ⟨"", ⟨"#include <stdio.h>\nint main(int argc, char *argv[]) \x7b\n",
        "if (1==1) \x7b\na:\n\x7d\nreturn 0;\n\x7d\n"⟩, [], ["a"], 12⟩ := by
    decide +kernel
  have hlines : closedLines (Generate.prologue ++ [].map declarationLine ++
        labelInBranch.lines "%.2f" ++ Generate.epilogue) =
      "#include <stdio.h>\nint main(int argc, char *argv[]) \x7b\n" ++
        "if (1==1) \x7b\na:\n\x7d\nreturn 0;\n\x7d\n" := by
    decide +kernel
  have hone : Primary.IsSpelled (.number "1") := by
    left
    decide
  have hspelled : labelInBranch.IsSpelled := by
    have hcondition : ∀ expression ∈ [one, one], Expression.IsSpelled expression := by
      simpa [one, Expression.IsSpelled, Term.IsSpelled, Chain.items] using hone
    have hlabel : Lexeme.IsWord "a".toList := by decide
    exact ⟨⟨hcondition, hlabel, trivial⟩, trivial⟩
  have hmentions : Unreserved labelInBranch.mentions := by
    unfold Unreserved
    decide
  have hformat : NumberFormat.isConversion "%.2f".toList = true := by decide
  have hnames : ∀ name ∈ ([] : List String), Lexeme.IsWord name.toList ∧ name ∉ C.keywords := by
    simp
  have hprogram := isProgram_iff hformat hnames hspelled hmentions
  rw [hlines] at hprogram
  exact ⟨_, hcompile, fun h ↦ absurd (hprogram.mp h).1 (by decide)⟩

end TeenyBasic
