import TeenyBasic.Proofs.CLanguage.Format
import TeenyBasic.Proofs.Reading.Recovery

/-!
# What printed texts come to

A statement that prints a text becomes a call of `printf` whose format is the text itself. The
characters that a text may hold leave out percent signs, backslashes, quotation marks and line ends,
so that the call is complete and its format asks for no conversion. Still the text is not always
printed as it stands: C replaces trigraphs in it, by which even backslashes can appear, and `printf`
stops at a null character. A text that has neither is printed exactly, followed by a line feed; any
other comes out shorter, since nothing that C puts in the place of a trigraph or an escape is as
long as what it replaces.

The main statement is `prints_iff_of_compile`.
-/

namespace TeenyBasic.Source

open Text.Quoted Text.Utf8

mutual

/-- The texts that a statement prints as they stand, in the order in which they are written. -/
def Statement.printedTexts : Statement → List String
  | .printText text => [text]
  | .block _ _ body => Program.printedTexts body
  | _ => []

def Program.printedTexts : Program → List String
  | [] => []
  | statement :: rest => statement.printedTexts ++ Program.printedTexts rest

end

/-- The line that prints a text. -/
def printLine (text : String) : String :=
  s!"printf(\"{text}\\n\");"

mutual

/-- A printed text has a line of its own. -/
theorem Statement.printLine_mem_lines (format : String) {text : String} :
    (statement : Statement) → text ∈ statement.printedTexts →
    printLine text ∈ statement.lines format
  | .printText other, h => by
    obtain rfl := List.mem_singleton.mp h
    exact List.mem_singleton_self _
  | .block form condition body, h => by
    have hbody := Program.printLine_mem_lines format body h
    simp [Statement.lines, hbody]
  | .print _, h | .label _, h | .jump _, h | .assign _ _, h | .input _, h => by cases h

theorem Program.printLine_mem_lines (format : String) {text : String} :
    (program : Program) → text ∈ program.printedTexts → printLine text ∈ program.lines format
  | [], h => by cases h
  | statement :: rest, h => by
    rw [Program.printedTexts, List.mem_append] at h
    rw [Program.lines, List.mem_append]
    exact h.imp (Statement.printLine_mem_lines format statement)
      (Program.printLine_mem_lines format rest)

end

/-- The texts of the strings among tokens. -/
def stringTexts (tokens : List Token) : List String :=
  (tokens.filter (·.kind = .string)).map Token.spelling

@[simp] theorem stringTexts_append (a b : List Token) :
    stringTexts (a ++ b) = stringTexts a ++ stringTexts b := by
  simp [stringTexts]

theorem stringTexts_cons_of_ne {token : Token} (h : token.kind ≠ .string) (rest : List Token) :
    stringTexts (token :: rest) = stringTexts rest := by
  simp [stringTexts, h]

theorem stringTexts_eq_nil {tokens : List Token} (h : ∀ token ∈ tokens, token.kind ≠ .string) :
    stringTexts tokens = [] := by
  rw [stringTexts, List.map_eq_nil_iff, List.filter_eq_nil_iff]
  simpa using h

theorem AreOperands.stringTexts_eq_nil {tokens : List Token} (h : AreOperands tokens) :
    stringTexts tokens = [] := by
  apply Source.stringTexts_eq_nil
  intro token htoken hkind
  have hoperand := h token htoken
  rw [hkind] at hoperand
  cases hoperand

theorem IsLineEnd.stringTexts_eq_nil {tokens : List Token} (h : IsLineEnd tokens) :
    stringTexts tokens = [] :=
  Source.stringTexts_eq_nil fun token htoken ↦ by simp [h.2 token htoken]

theorem KeywordDerives.stringTexts_eq_nil {keyword : Keyword} {name : Name} {tokens : List Token}
    (h : KeywordDerives keyword name tokens) : stringTexts tokens = [] := by
  obtain ⟨word, token, rfl, hword, htoken, _⟩ := h
  apply Source.stringTexts_eq_nil
  simp [hword, htoken]

mutual

/-- The strings among the tokens of a statement are the texts that it prints. -/
theorem Statement.DerivesFront.stringTexts_eq : {statement : Statement} → {tokens : List Token} →
    statement.DerivesFront tokens → stringTexts tokens = statement.printedTexts
  | .printText text, _, h => by
    obtain ⟨word, token, rfl, hword, htoken, rfl⟩ := h
    rw [stringTexts_cons_of_ne (by simp [hword])]
    simp [stringTexts, htoken, Statement.printedTexts]
  | .print value, _, h => by
    obtain ⟨word, tokens, rfl, hword, hvalue⟩ := h
    rw [stringTexts_cons_of_ne (by simp [hword])]
    exact (Expression.Derives.areOperands hvalue).stringTexts_eq_nil
  | .block form condition body, _, h => by
    obtain ⟨opening, test, middle, ends, inner, closing, rfl, hopening, htest, hmiddle, hends,
      hinner, hclosing⟩ := h
    have hlast : stringTexts [closing] = [] := Source.stringTexts_eq_nil (by simp [hclosing])
    rw [stringTexts_cons_of_ne (by simp [hopening]), stringTexts_append,
      htest.areOperands.stringTexts_eq_nil, stringTexts_cons_of_ne (by simp [hmiddle]),
      stringTexts_append, hends.stringTexts_eq_nil, stringTexts_append,
      Program.DerivesBody.stringTexts_eq hinner, hlast, List.append_nil]
    rfl
  | .label _, _, h => KeywordDerives.stringTexts_eq_nil h
  | .jump _, _, h => KeywordDerives.stringTexts_eq_nil h
  | .assign target value, _, h => by
    obtain ⟨front, sign, back, rfl, hfront, hsign, hvalue⟩ := h
    rw [stringTexts_append, hfront.stringTexts_eq_nil, stringTexts_cons_of_ne (by simp [hsign])]
    exact (Expression.Derives.areOperands hvalue).stringTexts_eq_nil
  | .input _, _, h => KeywordDerives.stringTexts_eq_nil h

theorem Program.DerivesBody.stringTexts_eq : {program : Program} → {tokens : List Token} →
    program.DerivesBody tokens → stringTexts tokens = program.printedTexts
  | [], _, h => by
    obtain rfl : _ = [] := h
    rfl
  | statement :: rest, _, h => by
    obtain ⟨front, ends, back, rfl, hfront, hends, hback⟩ := h
    rw [stringTexts_append, Statement.DerivesFront.stringTexts_eq hfront, stringTexts_append,
      hends.stringTexts_eq_nil, Program.DerivesBody.stringTexts_eq hback]
    rfl

end

theorem Program.Derives.stringTexts_eq {program : Program} {tokens : List Token}
    (h : program.Derives tokens) : stringTexts tokens = program.printedTexts := by
  obtain ⟨blank, body, last, rfl, hblank, hbody, hlast⟩ := h
  have hfirst : stringTexts blank = [] :=
    Source.stringTexts_eq_nil fun token htoken ↦ by simp [hblank token htoken]
  have hend : stringTexts [last] = [] := Source.stringTexts_eq_nil (by simp [hlast])
  rw [stringTexts_append, hfirst, stringTexts_append, hbody.stringTexts_eq, hend, List.append_nil,
    List.nil_append]

section

variable {text : String} (h : ∀ c ∈ text.toList, Lexeme.isStringText c = true)

include h

theorem ne_of_isStringText : ∀ c ∈ text.toList, c ≠ backslash ∧ c ≠ '%' := by
  intro c hc
  have htext := h c hc
  refine ⟨?_, ?_⟩ <;> rintro rfl <;> revert htext <;> decide

/-- The line that prints a text is one call, unless an escape in it does not fit. -/
theorem callOutput?_printLine :
    C.callOutput? (closedLines [printLine text]).toList =
      if textFits text then
        (C.literalBytes (lineBody (C.withoutTrigraphs text.toList))).bind C.printed?
      else none := by
  have hsplit := divides_printText h []
  rw [List.append_nil] at hsplit
  unfold C.callOutput? printLine
  rw [hsplit]
  cases textFits text with
  | false => rfl
  | true =>
    have hend : C.split (C.withoutTrigraphs []) = some [] := C.split_nil
    simp [hend, C.Token.quoted]

theorem callOutput?_of_withoutTrigraphs_eq
    (htrigraphs : C.withoutTrigraphs text.toList = text.toList) :
    C.callOutput? (closedLines [printLine text]).toList =
      C.printed? (encode (text.toList ++ ['\n'])) := by
  have hbackslash := fun c hc ↦ (ne_of_isStringText h c hc).1
  have hfits : textFits text = true := by
    rw [textFits, htrigraphs, lineBody, C.escapesFit_append hbackslash]
    decide
  have hend : C.literalBytes [backslash, 'n'] = some (encode ['\n']) := by decide
  rw [callOutput?_printLine h, if_pos hfits, htrigraphs, lineBody,
    C.literalBytes_append hbackslash, hend, encode_append]
  rfl

theorem withoutTrigraphs_eq_of_callOutput?
    (hprinted : C.callOutput? (closedLines [printLine text]).toList =
      some (encode (text.toList ++ ['\n']))) :
    C.withoutTrigraphs text.toList = text.toList := by
  rw [callOutput?_printLine h] at hprinted
  split at hprinted
  · obtain ⟨bytes, hbytes, houtput⟩ := Option.bind_eq_some_iff.mp hprinted
    have hbackslash : backslash ∈ lineBody (C.withoutTrigraphs text.toList) := by simp [lineBody]
    have hshort := C.length_literalBytes_lt hbackslash hbytes
    have hwhole := C.length_le_of_printed? houtput
    rw [lineBody, encode_append, List.length_append] at hshort
    rw [encode_append, List.length_append] at hwhole
    have hend : (encode [backslash, 'n']).length = 2 := rfl
    have hfeed : (encode ['\n']).length = 1 := rfl
    rcases C.withoutTrigraphs_eq_or_lt text.toList with heq | hlt
    · exact heq
    · omega
  · cases hprinted

/-- A text is printed as it stands exactly if it holds neither trigraphs nor null characters. -/
theorem callOutput?_eq_iff :
    C.callOutput? (closedLines [printLine text]).toList =
        some (encode (text.toList ++ ['\n'])) ↔
      C.withoutTrigraphs text.toList = text.toList ∧ '\x00' ∉ text.toList := by
  have hpercent : '%' ∉ text.toList ++ ['\n'] := by
    have hne : '%' ∉ text.toList := fun hmem ↦ (ne_of_isStringText h _ hmem).2 rfl
    simpa using hne
  have hnull : '\x00' ∉ text.toList ++ ['\n'] ↔ '\x00' ∉ text.toList := by simp
  constructor
  · intro hprinted
    have htrigraphs := withoutTrigraphs_eq_of_callOutput? h hprinted
    rw [callOutput?_of_withoutTrigraphs_eq h htrigraphs, C.printed?_encode_iff hpercent,
      hnull] at hprinted
    exact ⟨htrigraphs, hprinted⟩
  · rintro ⟨htrigraphs, hnone⟩
    rw [callOutput?_of_withoutTrigraphs_eq h htrigraphs, C.printed?_encode_iff hpercent, hnull]
    exact hnone

end

end TeenyBasic.Source

namespace TeenyBasic

open Source

/-- In every translation, each text that the program prints has a line, and this line prints exactly
that text and a line feed if and only if the text holds neither trigraphs nor null characters. -/
theorem prints_iff_of_compile (options : Options) (source file : String)
    (compilation : Compilation) (h : options.compile source file = .ok compilation) :
    ∃ (program : Program) (names : List String),
      program.Derives (Cursor.stream (Cursor.start file source)).tokens ∧
      program.printedTexts = stringTexts (Cursor.stream (Cursor.start file source)).tokens ∧
      compilation.text = closedLines (Generate.prologue ++ names.map declarationLine ++
        program.lines options.numberFormat ++ Generate.epilogue) ∧
      ∀ text ∈ program.printedTexts,
        printLine text ∈ program.lines options.numberFormat ∧
        (C.callOutput? (closedLines [printLine text]).toList =
            some (Text.Utf8.encode (text.toList ++ ['\n'])) ↔
          C.withoutTrigraphs text.toList = text.toList ∧ '\x00' ∉ text.toList) := by
  obtain ⟨_, program, scope, hderives, _, _, _, rfl⟩ :=
    (compile_eq_ok_iff options source file compilation).mp h
  have htexts := hderives.stringTexts_eq
  refine ⟨program, _, hderives, htexts.symm, text_translation options file program scope _,
    fun text htext ↦ ⟨Program.printLine_mem_lines options.numberFormat program htext, ?_⟩⟩
  rw [← htexts] at htext
  obtain ⟨token, htoken, rfl⟩ := List.mem_map.mp htext
  obtain ⟨hmem, hkind⟩ := List.mem_filter.mp htoken
  exact callOutput?_eq_iff ((Cursor.wellSpelled_of_mem_stream hmem).string (by simpa using hkind))

/-- Question marks at the end of a text are printed. -/
theorem prints_iff_of_compile_questions :
    ∃ (compilation : Compilation) (program : Program),
      Options.standard.compile "PRINT \"é??\"" "" = .ok compilation ∧
      program.Derives (Cursor.stream (Cursor.start "" "PRINT \"é??\"")).tokens ∧
      program.printedTexts = ["é??"] ∧
      C.callOutput? (closedLines [printLine "é??"]).toList =
        some (Text.Utf8.encode "é??\n".toList) := by
  have hcompile : Options.standard.compile "PRINT \"é??\"" "" =
      .ok ⟨"", ⟨"#include <stdio.h>\nint main(int argc, char *argv[]) \x7b\n",
        "printf(\"é??\\n\");\nreturn 0;\n\x7d\n"⟩, [], [], 4⟩ := by
    decide +kernel
  have htokens : stringTexts (Cursor.stream (Cursor.start "" "PRINT \"é??\"")).tokens =
      ["é??"] := by
    decide +kernel
  obtain ⟨program, _, hderives, htexts, _, hprints⟩ :=
    prints_iff_of_compile Options.standard "PRINT \"é??\"" "" _ hcompile
  rw [htokens] at htexts
  have hline := (hprints "é??" (by simp [htexts])).2
  exact ⟨_, program, hcompile, hderives, htexts, hline.mpr ⟨by decide +kernel, by decide +kernel⟩⟩

/-- A trigraph makes an escape of the character behind it, and a tabulator is printed. -/
theorem prints_tabulator_of_trigraph :
    (∃ compilation, Options.standard.compile "PRINT \"a??/tb\"" "" = .ok compilation) ∧
      stringTexts (Cursor.stream (Cursor.start "" "PRINT \"a??/tb\"")).tokens = ["a??/tb"] ∧
      C.callOutput? (closedLines [printLine "a??/tb"]).toList =
        some (Text.Utf8.encode "a\tb\n".toList) ∧
      C.callOutput? (closedLines [printLine "a??/tb"]).toList ≠
        some (Text.Utf8.encode "a??/tb\n".toList) := by
  have hcompile : Options.standard.compile "PRINT \"a??/tb\"" "" =
      .ok ⟨"", ⟨"#include <stdio.h>\nint main(int argc, char *argv[]) \x7b\n",
        "printf(\"a??/tb\\n\");\nreturn 0;\n\x7d\n"⟩, [], [], 4⟩ := by
    decide +kernel
  have hspelled : "a??/tb".toList.all Lexeme.isStringText = true := by decide +kernel
  have houtput : C.callOutput? (closedLines [printLine "a??/tb"]).toList =
      some (Text.Utf8.encode "a\tb\n".toList) := by
    rw [callOutput?_printLine (List.all_eq_true.mp hspelled)]
    decide +kernel
  refine ⟨⟨_, hcompile⟩, by decide +kernel, houtput, ?_⟩
  rw [houtput]
  decide +kernel

end TeenyBasic
