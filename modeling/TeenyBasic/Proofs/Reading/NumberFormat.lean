import TeenyBasic.Proofs.CLanguage.Conversion
import TeenyBasic.Proofs.Reading.Occurrence
import TeenyBasic.Proofs.Reading.Recovery

/-!
# What formats for numbers come to

A format that is accepted is a percent sign, flags, digits, perhaps a point and further digits, and
the letter f. The digits may come from any script, but `printf` knows those of ASCII only. So an
accepted format is one conversion of C exactly if it has no other digits, and exactly then the line
that prints an expression has a format with one directive, which consumes its one argument, and a
line feed.

The main statement is `isNumericConversion_iff_of_check`.
-/

namespace TeenyBasic

open Text.Quoted Text.Utf8 Text.DecimalDigit

namespace NumberFormat

/-- All digits of a format are those of ASCII. -/
def HasPlainDigits (format : List Char) : Prop :=
  ∀ c ∈ format, isDecimalDigit c = true → c.isDigit = true

instance : DecidablePred HasPlainDigits := fun format ↦ List.decidableBAll _ format

theorem isDigit_of_isAscii {c : Char} (hascii : C.IsAscii c) (h : isDecimalDigit c = true) :
    c.isDigit = true := by
  have hbeyond : ∀ run ∈ runs.tail, 128 ≤ run.1 := by decide
  obtain ⟨run, hrun, hinside⟩ := List.any_eq_true.mp h
  simp only [Bool.and_eq_true, decide_eq_true_eq] at hinside
  rcases List.mem_cons.mp hrun with rfl | hrun
  · simp only [Char.isDigit, Bool.and_eq_true, decide_eq_true_eq, UInt32.le_iff_toNat_le]
    exact hinside
  · have hlow := hbeyond run hrun
    unfold C.IsAscii at hascii
    omega

theorem hasPlainDigits_of_isAscii {format : List Char} (h : ∀ c ∈ format, C.IsAscii c) :
    HasPlainDigits format :=
  fun c hc ↦ isDigit_of_isAscii (h c hc)

theorem isFlag_eq (c : Char) : C.isFlag c = isFlag c := by
  simp [C.isFlag, isFlag, Bool.or_assoc]

theorem exists_precision_of_isPrecision {text : List Char} (h : isPrecision text = true)
    (hplain : HasPlainDigits text) :
    ∃ precision, text = precision ++ ['f'] ∧ C.IsPrecision precision := by
  unfold isPrecision at h
  split at h
  · exact ⟨[], rfl, Or.inl rfl⟩
  · rename_i rest
    rw [Bool.and_eq_true, beq_iff_eq] at h
    have hsplit := List.takeWhile_append_dropWhile (p := isDecimalDigit) (l := rest)
    rw [h.2] at hsplit
    refine ⟨'.' :: rest.takeWhile isDecimalDigit, by rw [List.cons_append, hsplit],
      Or.inr ⟨_, rfl, fun c hc ↦ ?_⟩⟩
    have hmem : c ∈ '.' :: rest := List.mem_cons_of_mem _ (List.takeWhile_subset _ hc)
    exact hplain c hmem (List.mem_takeWhile_imp hc)
  · cases h

theorem exists_directive_of_isConversion {format : List Char} (h : isConversion format = true)
    (hplain : HasPlainDigits format) :
    ∃ d : C.Directive, d.IsNumeric ∧ d.width.head? ≠ some '0' ∧ format = '%' :: d.text := by
  unfold isConversion at h
  split at h
  · rename_i rest
    have hflags := List.takeWhile_append_dropWhile (p := isFlag) (l := rest)
    have hzero := List.head?_dropWhile_not isFlag rest
    generalize hsized : rest.dropWhile isFlag = sized at h hflags hzero
    have hwidth := List.takeWhile_append_dropWhile (p := isDecimalDigit) (l := sized)
    have hmem : ∀ c ∈ sized, c ∈ '%' :: rest := by
      intro c hc
      rw [← hflags]
      simp [hc]
    have hbehind : HasPlainDigits (sized.dropWhile isDecimalDigit) :=
      fun c hc ↦ hplain c (hmem c (List.dropWhile_subset _ hc))
    obtain ⟨precision, hprecision, hdigits⟩ := exists_precision_of_isPrecision h hbehind
    rw [hprecision] at hwidth
    refine ⟨⟨rest.takeWhile isFlag, sized.takeWhile isDecimalDigit, precision, [], 'f'⟩,
      ⟨fun c hc ↦ ?_, fun c hc ↦ ?_, hdigits, rfl, rfl⟩, ?_, ?_⟩
    · rw [isFlag_eq]
      exact List.mem_takeWhile_imp hc
    · exact hplain c (hmem c (List.takeWhile_subset _ hc)) (List.mem_takeWhile_imp hc)
    · intro hhead
      rw [List.head?_takeWhile, Option.filter_eq_some_iff] at hhead
      rw [hhead.1] at hzero
      cases hzero
    · simp [C.Directive.text, hwidth, hflags]
  · cases h

/-- An accepted format is one conversion of C exactly if its digits are those of ASCII. -/
theorem isNumericConversion_iff {format : List Char} (h : isConversion format = true) :
    C.IsNumericConversion format ↔ HasPlainDigits format := by
  constructor
  · rintro ⟨d, hd, rfl⟩
    refine hasPlainDigits_of_isAscii fun c hc ↦ ?_
    rcases List.mem_cons.mp hc with rfl | hc
    · decide
    · exact hd.isAscii c hc
  · intro hplain
    obtain ⟨d, hd, _, hformat⟩ := exists_directive_of_isConversion h hplain
    exact ⟨d, hd, hformat⟩

theorem literalBytes_lineBody {format : List Char} (h : isConversion format = true) :
    C.literalBytes (Source.lineBody format) = some (encode (format ++ ['\n'])) := by
  have hbackslash : ∀ c ∈ format, c ≠ backslash :=
    fun c hc ↦ (Source.isConversionPart_of_isConversion h c hc).ne.2.2.1
  have hend : C.literalBytes [backslash, 'n'] = some (encode ['\n']) := by decide
  rw [Source.lineBody, C.literalBytes_append hbackslash, hend, encode_append]
  rfl

theorem formatItems?_of_isConversion {format : List Char} (h : isConversion format = true) :
    C.formatItems? (encode (format ++ ['\n'])) =
      C.itemsAfter 0 (C.byteChars (encode (format ++ ['\n']))) := by
  have hpart : ¬ Source.IsConversionPart '\x00' := by
    rintro (hflag | hdigit | hother)
    · cases hflag
    · revert hdigit
      decide
    · revert hother
      decide
  have hnull : '\x00' ∉ format ++ ['\n'] := by
    have hformat : '\x00' ∉ format :=
      fun hmem ↦ hpart (Source.isConversionPart_of_isConversion h _ hmem)
    simpa using hformat
  rw [C.formatItems?, C.takeWhile_encode hnull]

/-- A line feed behind an accepted format gives one directive for a number and the line feed exactly
if the digits of the format are those of ASCII. -/
theorem formatItems?_iff {format : List Char} (h : isConversion format = true) :
    (∃ d : C.Directive, d.IsNumeric ∧
      C.formatItems? (encode (format ++ ['\n'])) = some [.directive d, .plain '\n']) ↔
      HasPlainDigits format := by
  rw [formatItems?_of_isConversion h]
  constructor
  · rintro ⟨d, _, hitems⟩
    obtain ⟨hwritten, hascii⟩ := C.flatMap_text_of_itemsAfter (Nat.zero_le _) hitems
    have hbytes : ∀ c ∈ C.byteChars (encode (format ++ ['\n'])), C.IsAscii c := by
      rw [List.drop_zero] at hwritten
      rw [← hwritten]
      simpa [C.Item.text, or_imp, forall_and] using
        ⟨by decide, hascii d List.mem_cons_self, by decide⟩
    refine hasPlainDigits_of_isAscii fun c hc ↦ ?_
    exact C.isAscii_of_byteChars hbytes c (List.mem_append_left _ hc)
  · intro hplain
    obtain ⟨d, hd, hzero, rfl⟩ := exists_directive_of_isConversion h hplain
    refine ⟨d, hd, ?_⟩
    have hascii : ∀ c ∈ '%' :: d.text ++ ['\n'], C.IsAscii c := by
      rw [List.forall_mem_append, List.forall_mem_cons, List.forall_mem_singleton]
      exact ⟨⟨by decide, hd.isAscii⟩, by decide⟩
    rw [C.byteChars_encode hascii]
    exact C.itemsAfter_directive (C.directive?_of_isNumeric hd hzero _) (by decide)

end NumberFormat

namespace Source

mutual

/-- The expressions whose values a statement prints, in the order in which they are written. -/
def Statement.printedValues : Statement → List Expression
  | .print value => [value]
  | .block _ _ body => Program.printedValues body
  | _ => []

def Program.printedValues : Program → List Expression
  | [] => []
  | statement :: rest => statement.printedValues ++ Program.printedValues rest

end

/-- The line that prints the value of an expression. -/
def valueLine (format : String) (value : Expression) : String :=
  s!"printf(\"{format}\\n\", (float)({Expression.text value}));"

mutual

/-- A printed value has a line of its own, and its expression is one of the program. -/
theorem Statement.valueLine_mem_lines (format : String) {value : Expression} :
    (statement : Statement) → value ∈ statement.printedValues →
    valueLine format value ∈ statement.lines format ∧ value ∈ statement.expressions
  | .print other, h => by
    obtain rfl := List.mem_singleton.mp h
    exact ⟨List.mem_singleton_self _, List.mem_singleton_self _⟩
  | .block form condition body, h => by
    obtain ⟨hline, hmem⟩ := Program.valueLine_mem_lines format body h
    exact ⟨by simp [Statement.lines, hline], List.mem_append_right _ hmem⟩
  | .printText _, h | .label _, h | .jump _, h | .assign _ _, h | .input _, h => by cases h

theorem Program.valueLine_mem_lines (format : String) {value : Expression} :
    (program : Program) → value ∈ program.printedValues →
    valueLine format value ∈ program.lines format ∧ value ∈ program.expressions
  | [], h => by cases h
  | statement :: rest, h => by
    rw [Program.printedValues, List.mem_append] at h
    rcases h with hfirst | hrest
    · obtain ⟨hline, hmem⟩ := Statement.valueLine_mem_lines format statement hfirst
      exact ⟨List.mem_append_left _ hline, List.mem_append_left _ hmem⟩
    · obtain ⟨hline, hmem⟩ := Program.valueLine_mem_lines format rest hrest
      exact ⟨List.mem_append_right _ hline, List.mem_append_right _ hmem⟩

end

section

variable {format : String} {value : Expression}
  (hformat : NumberFormat.isConversion format.toList = true) (hvalue : Expression.IsSpelled value)
  (hnames : Unreserved (Expression.mentions value))

include hvalue hnames in
theorem derives_argument :
    C.Derives C.Level.assignment
      (.mark "(" :: .word "float" :: .mark ")" :: .mark "(" ::
        (Expression.cTokens value ++ [.mark ")"])) (.cast "float" (Expression.cTree value)) := by
  have hinner := (Expression.cDerives_iff hvalue hnames _).mpr rfl
  have hoperand : C.Derives C.Level.cast _ _ :=
    (C.Derives.parenthesised hinner).lower (by decide) (by decide)
  exact (C.Derives.cast (by decide) hoperand).lower (by decide) (by decide)

include hformat hvalue in
theorem split_valueLine :
    C.split (C.withoutTrigraphs (closedLines [valueLine format value]).toList) =
      some (.word "printf" :: .mark "(" :: .quoted (lineBody format.toList) :: .mark "," ::
        ((.mark "(" :: .word "float" :: .mark ")" :: .mark "(" ::
          (Expression.cTokens value ++ [.mark ")"])) ++ [.mark ")", .mark ";"])) := by
  have hdivides := divides_print hformat hvalue []
  have hend : C.split (C.withoutTrigraphs []) = some [] := C.split_nil
  rw [List.append_nil, if_pos rfl, hend] at hdivides
  rw [valueLine, hdivides]
  simp

include hformat hvalue hnames in
/-- The line that prints the value of an expression has a format with one directive, which consumes
its one argument, and a line feed, exactly if the digits of the format are those of ASCII. -/
theorem isFormattedCall_valueLine_iff :
    (∃ d : C.Directive, d.IsNumeric ∧ d.arguments = 1 ∧
      C.IsFormattedCall (closedLines [valueLine format value]).toList
        [.directive d, .plain '\n'] (.cast "float" (Expression.cTree value))) ↔
      NumberFormat.HasPlainDigits format.toList := by
  have hsplit := split_valueLine hformat hvalue
  have hbytes := NumberFormat.literalBytes_lineBody hformat
  rw [← NumberFormat.formatItems?_iff hformat]
  constructor
  · rintro ⟨d, hd, _, body, tokens, bytes, hcall, _, hbody, hitems⟩
    rw [hsplit] at hcall
    obtain rfl : lineBody format.toList = body := by
      have hliterals : some (C.Token.quoted (lineBody format.toList)) = some (.quoted body) :=
        congrArg (fun tokens ↦ tokens[2]?) (Option.some.inj hcall)
      injection hliterals with hliterals
      injection hliterals with _ _ hstrings
      simpa using congrArg String.toList hstrings
    rw [hbytes] at hbody
    obtain rfl := Option.some.inj hbody
    exact ⟨d, hd, hitems⟩
  · rintro ⟨d, hd, hitems⟩
    exact ⟨d, hd, hd.arguments_eq, _, _, _, hsplit, derives_argument hvalue hnames, hbytes, hitems⟩

end

end Source

open Source

/-- Every accepted format is one conversion of C exactly if its digits are those of ASCII, and in
every translation made with it, exactly then the lines that print the value of an expression have a
format with one directive, which consumes the one argument, and a line feed. -/
theorem isNumericConversion_iff_of_check {options accepted : Options}
    (h : options.check = .ok accepted) :
    (C.IsNumericConversion accepted.numberFormat.toList ↔
      NumberFormat.HasPlainDigits accepted.numberFormat.toList) ∧
    ∀ (source file : String) (compilation : Compilation),
      accepted.compile source file = .ok compilation →
      ∃ (program : Program) (names : List String),
        program.Derives (Cursor.stream (Cursor.start file source)).tokens ∧
        compilation.text = closedLines (Generate.prologue ++ names.map declarationLine ++
          program.lines accepted.numberFormat ++ Generate.epilogue) ∧
        ∀ value ∈ program.printedValues,
          valueLine accepted.numberFormat value ∈ program.lines accepted.numberFormat ∧
          ((∃ d : C.Directive, d.IsNumeric ∧ d.arguments = 1 ∧
            C.IsFormattedCall (closedLines [valueLine accepted.numberFormat value]).toList
              [.directive d, .plain '\n'] (.cast "float" (Expression.cTree value))) ↔
            NumberFormat.HasPlainDigits accepted.numberFormat.toList) := by
  obtain ⟨rfl, _, hformat⟩ := (Options.check_eq_ok_iff options accepted).mp h
  refine ⟨NumberFormat.isNumericConversion_iff hformat, ?_⟩
  intro source file compilation hcompile
  obtain ⟨program, names, hderives, htext, hspelled, hnames⟩ :=
    exists_derivation_of_compile hcompile
  refine ⟨program, names, hderives, htext, fun value hvalue ↦ ?_⟩
  obtain ⟨hline, hmem⟩ := Program.valueLine_mem_lines accepted.numberFormat program hvalue
  have hstands := Program.standsIn_of_expression program hmem
  have hunreserved : Unreserved (Expression.mentions value) := fun mention hmention ↦
    hnames mention (hstands.names_subset hmention)
  exact ⟨hline, isFormattedCall_valueLine_iff hformat (hstands.isSpelled hspelled) hunreserved⟩

/-- The standard options with another format for numbers. -/
def Options.formatting (format : String) : Options :=
  { standard with numberFormat := format }

/-- A format with flags, a width and a precision in digits of ASCII shows the one argument. -/
theorem isNumericConversion_iff_of_check_padded :
    (Options.formatting "%-08.3f").check = .ok (.formatting "%-08.3f") ∧
    C.IsNumericConversion "%-08.3f".toList ∧
    ∃ (compilation : Compilation) (d : C.Directive),
      (Options.formatting "%-08.3f").compile "PRINT 1" "" = .ok compilation ∧
      compilation.text = closedLines (Generate.prologue ++
        [valueLine "%-08.3f" one] ++ Generate.epilogue) ∧
      d.IsNumeric ∧ d.arguments = 1 ∧
      C.IsFormattedCall (closedLines [valueLine "%-08.3f" one]).toList
        [.directive d, .plain '\n'] (.cast "float" (Expression.cTree one)) := by
  have hcheck : (Options.formatting "%-08.3f").check = .ok (.formatting "%-08.3f") := by decide
  have hplain : NumberFormat.HasPlainDigits "%-08.3f".toList := by decide
  have hcompile : (Options.formatting "%-08.3f").compile "PRINT 1" "" =
      .ok ⟨"", ⟨"#include <stdio.h>\nint main(int argc, char *argv[]) \x7b\n",
        "printf(\"%-08.3f\\n\", (float)(1));\nreturn 0;\n\x7d\n"⟩, [], [], 4⟩ := by
    decide +kernel
  have htokens : (Cursor.stream (Cursor.start "" "PRINT 1")).tokens =
      [⟨.keyword .PRINT, "PRINT", ⟨"", 1, 1⟩⟩, ⟨.number, "1", ⟨"", 1, 7⟩⟩,
       ⟨.newline, "\n", ⟨"", 1, 8⟩⟩, ⟨.endOfInput, "", ⟨"", 2, 1⟩⟩] := by
    decide +kernel
  have hprint : Program.Derives [.print one]
      (Cursor.stream (Cursor.start "" "PRINT 1")).tokens := by
    rw [htokens]
    refine ⟨[], [_, _, _], _, rfl, by simp,
      ⟨[_, _], [_], [], rfl, ⟨_, [_], rfl, rfl, ?_⟩, by simp [IsLineEnd], rfl⟩, rfl⟩
    exact ⟨[_], [], rfl, ⟨[_], [], rfl, ⟨_, rfl, rfl, rfl⟩, rfl⟩, rfl⟩
  obtain ⟨hformat, hlines⟩ := isNumericConversion_iff_of_check hcheck
  obtain ⟨program, _, hderives, _, hvalues⟩ := hlines "PRINT 1" "" _ hcompile
  obtain rfl := Program.eq_of_derives hderives hprint
  obtain ⟨d, hd, harguments, hcall⟩ := (hvalues one List.mem_cons_self).2.mpr hplain
  exact ⟨hcheck, hformat.mpr hplain, _, d, hcompile, by decide +kernel, hd, harguments, hcall⟩

/-- A width in a digit of another script is accepted and copied into the line, where no directive
starts with it. -/
theorem not_isNumericConversion_of_foreignDigit :
    (Options.formatting "%\u0663f").check = .ok (.formatting "%\u0663f") ∧
    ¬ C.IsNumericConversion "%\u0663f".toList ∧
    (∃ compilation, (Options.formatting "%\u0663f").compile "PRINT 1" "" = .ok compilation ∧
      compilation.text = closedLines (Generate.prologue ++
        [valueLine "%\u0663f" one] ++ Generate.epilogue)) ∧
    C.literalBytes (lineBody "%\u0663f".toList) = some (encode "%\u0663f\n".toList) ∧
    C.formatItems? (encode "%\u0663f\n".toList) = none := by
  have hformat : NumberFormat.isConversion "%\u0663f".toList = true := by decide
  have hcompile : (Options.formatting "%\u0663f").compile "PRINT 1" "" =
      .ok ⟨"", ⟨"#include <stdio.h>\nint main(int argc, char *argv[]) \x7b\n",
        "printf(\"%\u0663f\\n\", (float)(1));\nreturn 0;\n\x7d\n"⟩, [], [], 4⟩ := by
    decide +kernel
  have hdigits : ¬ NumberFormat.HasPlainDigits "%\u0663f".toList := by decide
  exact ⟨by decide, mt (NumberFormat.isNumericConversion_iff hformat).mp hdigits,
    ⟨_, hcompile, by decide +kernel⟩, NumberFormat.literalBytes_lineBody hformat, by decide +kernel⟩

end TeenyBasic
