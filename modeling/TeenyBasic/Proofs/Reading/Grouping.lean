import TeenyBasic.Proofs.Reading.Occurrence

/-!
# How the tests of a program are grouped

The condition of a block is written between the parentheses of an `if` or a `while`, comparisons as
they stand. C reads what is written there in one way only, and whether this is the grouping from
left to right depends on the order of the comparisons alone.

The main statement is `groupsLeft_iff_of_compile`.
-/

namespace TeenyBasic

open Source

/-- In every translation, each test of the program has a line. C reads the condition in it in one
way, which groups the comparisons from left to right if and only if no comparison of order stands
behind one for equality. -/
theorem groupsLeft_iff_of_compile (options : Options) (source file : String)
    (compilation : Compilation) (h : options.compile source file = .ok compilation) :
    ∃ (program : Program) (names : List String),
      program.Derives (Cursor.stream (Cursor.start file source)).tokens ∧
      compilation.text = closedLines (Generate.prologue ++ names.map declarationLine ++
        program.lines options.numberFormat ++ Generate.epilogue) ∧
      ∀ test ∈ program.tests, test.line ∈ program.lines options.numberFormat ∧
        ∃ (tokens : List C.Token) (reading : C.Tree),
          C.split test.condition.text.toList = some tokens ∧
          (∀ tree, C.Derives C.Level.expression tokens tree ↔ tree = reading) ∧
          (reading = test.condition.leftTree ↔ OrdersFirst test.condition.chain.rest) := by
  obtain ⟨program, names, hderives, htext, hspelled, hnames⟩ := exists_derivation_of_compile h
  refine ⟨program, names, hderives, htext, ?_⟩
  intro test htest
  have hstands := Program.standsIn_of_test program htest
  have hcondition := hstands.isSpelled hspelled
  have hunreserved : Unreserved test.condition.mentions := fun mention hmention ↦
    hnames mention (hstands.names_subset hmention)
  obtain ⟨line, hline, rfl⟩ := hstands.exists_line options.numberFormat
  exact ⟨hline, _, _, (Condition.reads hcondition C.stops_nil).split_eq,
    Condition.cDerives_iff hcondition hunreserved, test.condition.cTree_eq_leftTree_iff⟩

namespace Source

def Expression.number (spelling : String) : Expression := ⟨⟨⟨none, .number spelling⟩, []⟩, []⟩

theorem Expression.derives_number {token : Token} (h : token.kind = .number) :
    Expression.Derives (.number token.spelling) [token] :=
  ⟨[token], [], rfl, ⟨[token], [], rfl, ⟨token, rfl, h, rfl⟩, rfl⟩, rfl⟩

theorem Expression.isSpelled_number {spelling : String} (h : Lexeme.IsNumeral spelling.toList) :
    Expression.IsSpelled (.number spelling) := by
  have hprimary : Primary.IsSpelled (.number spelling) := h
  simpa [Expression.number, Expression.IsSpelled, Term.IsSpelled, Chain.items] using hprimary

/-- Two comparisons between numbers. -/
def twoComparisons (first second : Comparison) (a b c : String) : Condition :=
  ⟨⟨.number a, [(first, .number b), (second, .number c)]⟩, by simp⟩

theorem derives_twoComparisons {first second : Comparison} {a b c sign sign' : Token}
    (ha : a.kind = .number) (hsign : sign.kind = .comparison first) (hb : b.kind = .number)
    (hsign' : sign'.kind = .comparison second) (hc : c.kind = .number) :
    (twoComparisons first second a.spelling b.spelling c.spelling).Derives
      [a, sign, b, sign', c] :=
  ⟨[a], [sign, b, sign', c], rfl, Expression.derives_number ha,
    ⟨sign, [b], [sign', c], rfl, hsign, Expression.derives_number hb,
      ⟨sign', [c], [], rfl, hsign', Expression.derives_number hc, rfl⟩⟩⟩

end Source

/-- A comparison of order in front of one for equality, in a loop. -/
theorem groupsLeft_iff_of_compile_loop :
    ∃ (compilation : Compilation) (program : Program) (tokens : List C.Token),
      Options.standard.compile "WHILE 1 < 2 == 3 REPEAT\nENDWHILE" "" = .ok compilation ∧
      program.Derives
        (Cursor.stream (Cursor.start "" "WHILE 1 < 2 == 3 REPEAT\nENDWHILE")).tokens ∧
      "while (1<2==3) \x7b" ∈ program.lines "%.2f" ∧
      C.split "1<2==3".toList = some tokens ∧
      ∀ tree, C.Derives C.Level.expression tokens tree ↔
        tree = .binary "==" (.binary "<" (.constant "1") (.constant "2")) (.constant "3") := by
  have hcompile : Options.standard.compile "WHILE 1 < 2 == 3 REPEAT\nENDWHILE" "" =
      .ok ⟨"", ⟨"#include <stdio.h>\nint main(int argc, char *argv[]) \x7b\n",
        "while (1<2==3) \x7b\n\x7d\nreturn 0;\n\x7d\n"⟩, [], [], 11⟩ := by
    decide +kernel
  have htokens : (Cursor.stream (Cursor.start "" "WHILE 1 < 2 == 3 REPEAT\nENDWHILE")).tokens =
      [⟨.keyword .WHILE, "WHILE", ⟨"", 1, 1⟩⟩, ⟨.number, "1", ⟨"", 1, 7⟩⟩,
       ⟨.comparison .less, "<", ⟨"", 1, 9⟩⟩, ⟨.number, "2", ⟨"", 1, 11⟩⟩,
       ⟨.comparison .equal, "==", ⟨"", 1, 13⟩⟩, ⟨.number, "3", ⟨"", 1, 16⟩⟩,
       ⟨.keyword .REPEAT, "REPEAT", ⟨"", 1, 18⟩⟩, ⟨.newline, "\n", ⟨"", 1, 24⟩⟩,
       ⟨.keyword .ENDWHILE, "ENDWHILE", ⟨"", 2, 1⟩⟩, ⟨.newline, "\n", ⟨"", 2, 9⟩⟩,
       ⟨.endOfInput, "", ⟨"", 3, 1⟩⟩] := by
    decide +kernel
  let condition := twoComparisons .less .equal "1" "2" "3"
  have hloop : Program.Derives [.block .loop condition []]
      (Cursor.stream (Cursor.start "" "WHILE 1 < 2 == 3 REPEAT\nENDWHILE")).tokens := by
    rw [htokens]
    refine ⟨[], _ :: _ :: _ :: _ :: _ :: _ :: _ :: _ :: _ :: [_], _, rfl, by simp,
      ⟨_ :: _ :: _ :: _ :: _ :: _ :: _ :: _ :: [_], [_], [], rfl, ?_, by simp [IsLineEnd], rfl⟩,
      rfl⟩
    exact ⟨_, [_, _, _, _, _], _, [_], [], _, rfl, rfl, derives_twoComparisons rfl rfl rfl rfl rfl,
      rfl, by simp [IsLineEnd], rfl, rfl⟩
  obtain ⟨program, _, hderives, _, htests⟩ :=
    groupsLeft_iff_of_compile Options.standard "WHILE 1 < 2 == 3 REPEAT\nENDWHILE" "" _ hcompile
  obtain rfl := Program.eq_of_derives hderives hloop
  obtain ⟨hline, tokens, reading, hsplit, hreading, hleft⟩ :=
    htests ⟨.loop, condition⟩ List.mem_cons_self
  rw [hleft.mpr (by decide)] at hreading
  exact ⟨_, _, tokens, hcompile, hderives, hline, hsplit, hreading⟩

/-- A comparison of order behind one for equality is accepted, and C lets it bind tighter. -/
theorem not_groupsLeft_of_orderBehindEquality :
    ∃ (compilation : Compilation) (tokens : List C.Token),
      Options.standard.compile "IF 1 == 2 < 3 THEN\nENDIF" "" = .ok compilation ∧
      compilation.text = closedLines (Generate.prologue ++ ["if (1==2<3) \x7b", "\x7d"] ++
        Generate.epilogue) ∧
      C.split "1==2<3".toList = some tokens ∧
      C.Derives C.Level.expression tokens
        (.binary "==" (.constant "1") (.binary "<" (.constant "2") (.constant "3"))) ∧
      ¬ C.Derives C.Level.expression tokens
        (.binary "<" (.binary "==" (.constant "1") (.constant "2")) (.constant "3")) := by
  have hcompile : Options.standard.compile "IF 1 == 2 < 3 THEN\nENDIF" "" =
      .ok ⟨"", ⟨"#include <stdio.h>\nint main(int argc, char *argv[]) \x7b\n",
        "if (1==2<3) \x7b\n\x7d\nreturn 0;\n\x7d\n"⟩, [], [], 11⟩ := by
    decide +kernel
  let condition := twoComparisons .equal .less "1" "2" "3"
  have hspelled : condition.IsSpelled := by
    intro expression hexpression
    have hoperands : expression ∈ [.number "1", .number "2", .number "3"] := hexpression
    simp only [List.mem_cons, List.not_mem_nil, or_false] at hoperands
    rcases hoperands with rfl | rfl | rfl <;>
      exact Expression.isSpelled_number (Or.inl (by decide))
  have hnames : Unreserved condition.mentions := by
    unfold Unreserved
    decide
  have hsplit := (Condition.reads hspelled C.stops_nil).split_eq
  have hreading := Condition.cDerives_iff hspelled hnames
  refine ⟨_, _, hcompile, by decide +kernel, hsplit, (hreading _).mpr rfl, ?_⟩
  rw [hreading]
  decide

end TeenyBasic
