import TeenyBasic.Proofs.Reading.Program

/-!
# Tests and expressions of a program

The conditions that the blocks of a program test, and the expressions that it holds in conditions,
assignments and printed values, at any depth. Each of them is shown by a line of the translation,
mentions no names but those of the program, and is spelled as the program is.
-/

namespace TeenyBasic.Source

/-- A part of a program, given by the lines that show it, the names that it mentions and how it has
to be spelled. -/
structure StandsIn (program : Program) (shows : String → Prop) (names : List Mention)
    (spelled : Prop) : Prop where
  exists_line (format : String) : ∃ line ∈ program.lines format, shows line
  names_subset : names ⊆ program.mentions
  isSpelled : program.IsSpelled → spelled

section

variable {program : Program} {shows : String → Prop} {names : List Mention} {spelled : Prop}

theorem StandsIn.head {statement : Statement} (h : StandsIn [statement] shows names spelled)
    (rest : Program) : StandsIn (statement :: rest) shows names spelled where
  exists_line format := by
    obtain ⟨line, hline, hshows⟩ := h.exists_line format
    have hmem : line ∈ statement.lines format := by simpa [Program.lines] using hline
    exact ⟨line, List.mem_append_left _ hmem, hshows⟩
  names_subset := by
    have hsubset : names ⊆ statement.mentions := by simpa [Program.mentions] using h.names_subset
    exact List.subset_append_of_subset_left _ hsubset
  isSpelled hspelled := h.isSpelled ⟨hspelled.1, trivial⟩

theorem StandsIn.tail (h : StandsIn program shows names spelled) (statement : Statement) :
    StandsIn (statement :: program) shows names spelled where
  exists_line format := by
    obtain ⟨line, hline, hshows⟩ := h.exists_line format
    exact ⟨line, List.mem_append_right _ hline, hshows⟩
  names_subset := List.subset_append_of_subset_right _ h.names_subset
  isSpelled hspelled := h.isSpelled hspelled.2

theorem StandsIn.inner (h : StandsIn program shows names spelled) (form : BlockForm)
    (condition : Condition) :
    StandsIn [.block form condition program] shows names spelled where
  exists_line format := by
    obtain ⟨line, hline, hshows⟩ := h.exists_line format
    exact ⟨line, by simp [Program.lines, Statement.lines, hline], hshows⟩
  names_subset := by
    intro mention hmention
    simp [Program.mentions, Statement.mentions, h.names_subset hmention]
  isSpelled hspelled := h.isSpelled hspelled.1.2

end

/-- The condition of a block, and the form of the block. -/
structure Test where
  form : BlockForm
  condition : Condition

/-- The line that a block with a test starts with. -/
def Test.line (test : Test) : String :=
  s!"{test.form.word} ({test.condition.text}) \x7b"

mutual

/-- The tests of a statement, in the order in which they are written. -/
def Statement.tests : Statement → List Test
  | .block form condition body => ⟨form, condition⟩ :: Program.tests body
  | _ => []

def Program.tests : Program → List Test
  | [] => []
  | statement :: rest => statement.tests ++ Program.tests rest

end

mutual

theorem Statement.standsIn_of_test {test : Test} : (statement : Statement) →
    test ∈ statement.tests →
    StandsIn [statement] (· = test.line) test.condition.mentions test.condition.IsSpelled
  | .block form condition body, h => by
    rcases List.mem_cons.mp h with rfl | hbody
    · exact {
        exists_line := fun format ↦ ⟨_, List.mem_cons_self, rfl⟩
        names_subset := by simp [Program.mentions, Statement.mentions]
        isSpelled := fun hspelled ↦ hspelled.1.1 }
    · exact (Program.standsIn_of_test body hbody).inner form condition
  | .printText _, h | .print _, h | .label _, h | .jump _, h | .assign _ _, h | .input _, h => by
    cases h

theorem Program.standsIn_of_test {test : Test} : (program : Program) → test ∈ program.tests →
    StandsIn program (· = test.line) test.condition.mentions test.condition.IsSpelled
  | [], h => by cases h
  | statement :: rest, h => by
    rcases List.mem_append.mp h with hfirst | hrest
    · exact (Statement.standsIn_of_test statement hfirst).head rest
    · exact (Program.standsIn_of_test rest hrest).tail statement

end

mutual

/-- The expressions of a statement, in the order in which they are written. -/
def Statement.expressions : Statement → List Expression
  | .print value => [value]
  | .assign _ value => [value]
  | .block _ condition body => condition.chain.items ++ Program.expressions body
  | _ => []

def Program.expressions : Program → List Expression
  | [] => []
  | statement :: rest => statement.expressions ++ Program.expressions rest

end

/-- A line in which the text of an expression is written. -/
def Expression.IsWrittenIn (expression : Expression) (line : String) : Prop :=
  (Expression.text expression).toList <:+: line.toList

theorem Chain.text_isInfix {ω α : Type} (item : α → String) (operator : ω → α → String)
    {chain : Chain ω α} {a : α} (h : a ∈ chain.items) :
    (item a).toList <:+: (chain.textBy item operator).toList := by
  rw [Chain.textBy, String.toList_append]
  rcases List.mem_cons.mp h with rfl | hrest
  · exact (List.prefix_append _ _).isInfix
  · obtain ⟨link, hlink, rfl⟩ := List.mem_map.mp hrest
    have hlinks : (operator link.1 link.2 ++ item link.2).toList <:+:
        (String.join (chain.rest.map fun link ↦ operator link.1 link.2 ++ item link.2)).toList := by
      rw [String.toList_join]
      exact List.infix_of_mem_flatten (List.mem_map_of_mem (List.mem_map_of_mem hlink))
    have hitem : (item link.2).toList <:+: (operator link.1 link.2 ++ item link.2).toList := by
      rw [String.toList_append]
      exact (List.suffix_append _ _).isInfix
    exact (hitem.trans hlinks).trans (List.suffix_append _ _).isInfix

theorem Chain.mentions_subset {ω α : Type} {mentions : α → List Mention} {chain : Chain ω α} {a : α}
    (h : a ∈ chain.items) : mentions a ⊆ chain.mentionsBy mentions := by
  intro mention hmention
  rw [Chain.mentionsBy, List.mem_append, List.mem_flatMap]
  rcases List.mem_cons.mp h with rfl | hrest
  · exact Or.inl hmention
  · obtain ⟨link, hlink, rfl⟩ := List.mem_map.mp hrest
    exact Or.inr ⟨link, hlink, hmention⟩

theorem Expression.IsWrittenIn.of_append {expression : Expression} {front text back : String}
    (h : (Expression.text expression).toList <:+: text.toList) :
    expression.IsWrittenIn (front ++ text ++ back) := by
  rw [Expression.IsWrittenIn, String.toList_append, String.toList_append]
  exact h.trans (List.infix_append _ _ _)

mutual

theorem Statement.standsIn_of_expression {expression : Expression} : (statement : Statement) →
    expression ∈ statement.expressions →
    StandsIn [statement] expression.IsWrittenIn (Expression.mentions expression)
      (Expression.IsSpelled expression)
  | .print value, h => by
    obtain rfl := List.mem_singleton.mp h
    exact {
      exists_line := fun format ↦ ⟨_, List.mem_singleton_self _, .of_append (List.infix_refl _)⟩
      names_subset := by simp [Program.mentions, Statement.mentions]
      isSpelled := fun hspelled ↦ hspelled.1 }
  | .assign target value, h => by
    obtain rfl := List.mem_singleton.mp h
    exact {
      exists_line := fun format ↦ ⟨_, List.mem_singleton_self _, .of_append (List.infix_refl _)⟩
      names_subset := by simp [Program.mentions, Statement.mentions]
      isSpelled := fun hspelled ↦ hspelled.1.2 }
  | .block form condition body, h => by
    rcases List.mem_append.mp h with htest | hbody
    · have htext := Chain.text_isInfix Expression.text (fun comparison _ ↦ comparison.symbol) htest
      exact {
        exists_line := fun format ↦ ⟨_, List.mem_cons_self, .of_append htext⟩
        names_subset := fun mention hmention ↦
          List.mem_append_left _ (List.mem_append_left _ (Chain.mentions_subset htest hmention))
        isSpelled := fun hspelled ↦ hspelled.1.1 expression htest }
    · exact (Program.standsIn_of_expression body hbody).inner form condition
  | .printText _, h | .label _, h | .jump _, h | .input _, h => by cases h

theorem Program.standsIn_of_expression {expression : Expression} : (program : Program) →
    expression ∈ program.expressions →
    StandsIn program expression.IsWrittenIn (Expression.mentions expression)
      (Expression.IsSpelled expression)
  | [], h => by cases h
  | statement :: rest, h => by
    rcases List.mem_append.mp h with hfirst | hrest
    · exact (Statement.standsIn_of_expression statement hfirst).head rest
    · exact (Program.standsIn_of_expression rest hrest).tail statement

end

end TeenyBasic.Source

namespace TeenyBasic

open Source

/-- What a compilation gives is the translation of a program whose spellings and names are in
order. -/
theorem exists_derivation_of_compile {options : Options} {source file : String}
    {compilation : Compilation} (h : options.compile source file = .ok compilation) :
    ∃ (program : Program) (names : List String),
      program.Derives (Cursor.stream (Cursor.start file source)).tokens ∧
      compilation.text = closedLines (Generate.prologue ++ names.map declarationLine ++
        program.lines options.numberFormat ++ Generate.epilogue) ∧
      program.IsSpelled ∧ Unreserved program.mentions := by
  obtain ⟨hfault, program, scope, hderives, _, henter, _, rfl⟩ :=
    (compile_eq_ok_iff options source file compilation).mp h
  have hnamed := (exists_enterAll_iff program.mentions).mp ⟨scope, henter⟩
  exact ⟨program, _, hderives, text_translation options file program scope _,
    isSpelled_of_stream hfault hderives, hnamed.unreserved⟩

end TeenyBasic
