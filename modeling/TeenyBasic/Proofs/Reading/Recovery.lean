import TeenyBasic.Proofs.Reading.Essence
import TeenyBasic.Proofs.Reading.Program

/-!
# Recovering the source from its translation

Nothing of the essence of a source text is lost in its translation. A translation can be divided
into its lines, because none of them holds a line feed. The characters around the first word of a
line show which kind of statement it starts; only a test of input and a branch have to be told apart
further on, by an ampersand, and the two ways to print by the percent sign of the format. The line
then holds the name, the text or the expression of the statement between fixed texts, and C divides
the text of an expression in one way only.

The main statement is `essence_eq_of_text_eq`.
-/

namespace TeenyBasic.Source

open Text.Quoted

theorem append_inj_of_stops {p : Char → Bool} {a b rest rest' : List Char}
    (ha : ∀ c ∈ a, p c = true) (hb : ∀ c ∈ b, p c = true) (hrest : ∀ c ∈ rest.head?, p c = false)
    (hrest' : ∀ c ∈ rest'.head?, p c = false) (h : a ++ rest = b ++ rest') :
    a = b ∧ rest = rest' := by
  have htake := congrArg (List.takeWhile p) h
  rw [Lexeme.takeWhile_append_of_stops ha hrest, Lexeme.takeWhile_append_of_stops hb hrest']
    at htake
  subst htake
  exact ⟨rfl, List.append_cancel_left h⟩

theorem eq_of_closedLines_eq {a b : List String} (ha : ∀ line ∈ a, '\n' ∉ line.toList)
    (hb : ∀ line ∈ b, '\n' ∉ line.toList) (h : closedLines a = closedLines b) : a = b := by
  have hline : ∀ {line : String}, '\n' ∉ line.toList →
      ∀ c ∈ line.toList, decide (c ≠ '\n') = true := by
    intro line hline c hc
    exact decide_eq_true fun hfeed ↦ hline (hfeed ▸ hc)
  induction a generalizing b with
  | nil =>
    cases b with
    | nil => rfl
    | cons line b =>
      have hempty := congrArg String.toList h
      simp at hempty
  | cons line a ih =>
    cases b with
    | nil =>
      have hempty := congrArg String.toList h
      simp at hempty
    | cons line' b =>
      have hchars := congrArg String.toList h
      simp only [closedLines_cons, String.toList_append, List.append_assoc] at hchars
      obtain ⟨hfirst, hrest⟩ := append_inj_of_stops (hline (ha line List.mem_cons_self))
        (hline (hb line' List.mem_cons_self)) (by simp) (by simp) hchars
      have hothers := ih (fun l hl ↦ ha l (List.mem_cons_of_mem _ hl))
        (fun l hl ↦ hb l (List.mem_cons_of_mem _ hl))
        (String.toList_inj.mp (List.append_cancel_left hrest))
      rw [String.toList_inj.mp hfirst, hothers]

/-- The forms of the lines that statements start with, and of declarations. -/
inductive LineForm where
  | text | value | block (form : BlockForm) | label | jump | assign | input | declaration | other
  deriving DecidableEq

/-- The form of a line, given its first word and what follows that word. -/
def formOf (word : List Char) : List Char → LineForm
  | ':' :: _ => .label
  | ' ' :: '=' :: _ => .assign
  | ' ' :: '(' :: rest =>
    if '&' ∈ rest then .input
    else .block (if word = "if".toList then .conditional else .loop)
  | ' ' :: _ =>
    if word = "goto".toList then .jump
    else if word = "float".toList then .declaration
    else .other
  | '(' :: _ :: '%' :: _ => .value
  | '(' :: _ => .text
  | _ => .other

/-- The form of a line. -/
def lineForm (line : String) : LineForm :=
  formOf (line.toList.takeWhile Char.isAlphanum) (line.toList.dropWhile Char.isAlphanum)

theorem lineForm_eq {line : String} (word rest : List Char) (hline : line.toList = word ++ rest)
    (hword : ∀ c ∈ word, c.isAlphanum = true) (hrest : ∀ c ∈ rest.head?, c.isAlphanum = false) :
    lineForm line = formOf word rest := by
  rw [lineForm, hline, Lexeme.takeWhile_append_of_stops hword hrest,
    Lexeme.dropWhile_append_of_stops hword hrest]

/-- The form of the line that a statement starts with. -/
def Statement.form : Statement → LineForm
  | .printText _ => .text
  | .print _ => .value
  | .block form _ _ => .block form
  | .label _ => .label
  | .jump _ => .jump
  | .assign _ _ => .assign
  | .input _ => .input

theorem lineForm_printText {text : String} (h : ∀ c ∈ text.toList, Lexeme.isStringText c = true) :
    lineForm s!"printf(\"{text}\\n\");" = .text := by
  rw [lineForm_eq "printf".toList
    ('(' :: doubleQuote :: (text.toList ++ "\\n\");".toList))
    (by simp [toString, doubleQuote]) (Lexeme.isAlphanum_of_isWord (by decide)) (by simp)]
  cases htext : text.toList with
  | nil => rfl
  | cons c rest =>
    have hc := h c (by simp [htext])
    have hpercent : c ≠ '%' := by
      rintro rfl
      revert hc
      decide
    simp [formOf, hpercent]

theorem lineForm_print {format : String} (h : NumberFormat.isConversion format.toList = true)
    (value : String) : lineForm s!"printf(\"{format}\\n\", (float)({value}));" = .value := by
  rw [lineForm_eq "printf".toList ('(' :: doubleQuote ::
      (format.toList ++ ("\\n\", (float)(".toList ++ value.toList ++ "));".toList)))
    (by simp [toString, doubleQuote]) (Lexeme.isAlphanum_of_isWord (by decide)) (by simp)]
  unfold NumberFormat.isConversion at h
  split at h
  · rename_i hformat
    rw [hformat]
    rfl
  · cases h

theorem lineForm_block (form : BlockForm) {condition : Condition} (h : condition.IsSpelled) :
    lineForm s!"{form.word} ({condition.text}) \x7b" = .block form := by
  rw [lineForm_eq form.word.toList
    (' ' :: '(' :: (condition.text.toList ++ ") \x7b".toList))
    (by simp [toString]) (Lexeme.isAlphanum_of_isWord (by cases form <;> decide)) (by simp)]
  have htext : '&' ∉ condition.text.toList := fun hmem ↦
    (Condition.isExpressionPart_text h _ hmem).ne (by decide) rfl
  cases form <;> simp [formOf, htext, BlockForm.word]

theorem lineForm_label {name : String} (h : Lexeme.IsWord name.toList) :
    lineForm s!"{name}:" = .label := by
  rw [lineForm_eq name.toList [':'] (by simp [toString])
    (Lexeme.isAlphanum_of_isWord h) (by simp)]
  rfl

/-- A word with another word and a space before it. -/
theorem lineForm_named (word : String) {name : String} (hword : Lexeme.IsWord word.toList)
    (hname : Lexeme.IsWord name.toList) :
    lineForm (word ++ " " ++ name ++ ";") =
      if word.toList = "goto".toList then .jump
      else if word.toList = "float".toList then .declaration else .other := by
  obtain ⟨first, rest, hchars, hfirst, _⟩ := hname
  rw [lineForm_eq word.toList (' ' :: first :: (rest ++ [';']))
    (by simp [hchars]) (Lexeme.isAlphanum_of_isWord hword) (by simp)]
  have halphanum := Lexeme.isAlphanum_of_isAlpha hfirst
  have hequal : first ≠ '=' := Lexeme.ne_of_isAlphanum halphanum rfl
  have hopen : first ≠ '(' := Lexeme.ne_of_isAlphanum halphanum rfl
  simp [formOf, hequal, hopen]

theorem lineForm_assign {name : String} (h : Lexeme.IsWord name.toList) (value : String) :
    lineForm s!"{name} = {value};" = .assign := by
  rw [lineForm_eq name.toList (' ' :: '=' :: ' ' :: (value.toList ++ [';']))
    (by simp [toString]) (Lexeme.isAlphanum_of_isWord h) (by simp)]
  rfl

theorem lineForm_input (name : String) :
    lineForm s!"if (0 == scanf(\"%f\", &{name})) \x7b" = .input := by
  rw [lineForm_eq "if".toList
    (' ' :: '(' :: ("0 == scanf(\"%f\", &".toList ++ name.toList ++ ")) \x7b".toList))
    (by simp [toString]) (Lexeme.isAlphanum_of_isWord (by decide)) (by simp)]
  simp [formOf]

theorem lineForm_declarationLine {name : String} (h : Lexeme.IsWord name.toList) :
    lineForm (declarationLine name) = .declaration := by
  have hform := lineForm_named "float" (by decide) h
  simpa [declarationLine, toString] using hform

theorem Statement.exists_line {format : String}
    (hformat : NumberFormat.isConversion format.toList = true) {statement : Statement}
    (h : statement.IsSpelled) :
    ∃ line more, statement.lines format = line :: more ∧ lineForm line = statement.form := by
  cases statement with
  | printText text => exact ⟨_, _, rfl, lineForm_printText h⟩
  | print value => exact ⟨_, _, rfl, lineForm_print hformat _⟩
  | block form condition body => exact ⟨_, _, rfl, lineForm_block form h.1⟩
  | label name => exact ⟨_, _, rfl, lineForm_label h⟩
  | jump target => exact ⟨_, _, rfl, lineForm_named "goto" (by decide) h⟩
  | assign target value => exact ⟨_, _, rfl, lineForm_assign h.1 _⟩
  | input target => exact ⟨_, _, rfl, lineForm_input _⟩

/-- Lines that can stand behind the last statement of a block or of a program. -/
def LinesEnd (lines : List String) : Prop :=
  ∀ line ∈ lines.head?, lineForm line = .other

/-- Statements whose lines start alike have the same form. -/
theorem Statement.form_eq_of_lines_eq {format : String}
    (hformat : NumberFormat.isConversion format.toList = true) {a b : Statement}
    (ha : a.IsSpelled) (hb : b.IsSpelled) {rest rest' : List String}
    (h : a.lines format ++ rest = b.lines format ++ rest') : a.form = b.form := by
  obtain ⟨line, more, hline, hform⟩ := Statement.exists_line hformat ha
  obtain ⟨line', more', hline', hform'⟩ := Statement.exists_line hformat hb
  rw [hline, hline'] at h
  rw [← hform, ← hform', (List.cons.inj h).1]

theorem Statement.form_ne_other (statement : Statement) : statement.form ≠ .other := by
  cases statement <;> simp [Statement.form]

theorem Statement.form_ne_declaration (statement : Statement) :
    statement.form ≠ .declaration := by
  cases statement <;> simp [Statement.form]

theorem Statement.lines_ne_of_linesEnd {format : String}
    (hformat : NumberFormat.isConversion format.toList = true) {statement : Statement}
    (h : statement.IsSpelled) {rest lines : List String} (hlines : LinesEnd lines) :
    statement.lines format ++ rest ≠ lines := by
  rintro rfl
  obtain ⟨line, more, hline, hform⟩ := Statement.exists_line hformat h
  have hother := hlines line (by simp [hline])
  rw [hform] at hother
  exact statement.form_ne_other hother

theorem between_inj {front back a b : String} (h : front ++ a ++ back = front ++ b ++ back) :
    a = b := by
  have hchars := congrArg String.toList h
  simp only [String.toList_append, List.append_assoc] at hchars
  exact String.toList_inj.mp (List.append_cancel_right (List.append_cancel_left hchars))

theorem Expression.gists_eq_of_text_eq {a b : Expression} (ha : Expression.IsSpelled a)
    (hb : Expression.IsSpelled b) (h : Expression.text a = Expression.text b) :
    Expression.gists a = Expression.gists b := by
  have hsplit := (Expression.reads ha C.stops_nil).split_eq
  rw [h, (Expression.reads hb C.stops_nil).split_eq] at hsplit
  rw [Expression.gists, Expression.gists, Option.some.inj hsplit]

theorem Condition.gists_eq_of_text_eq {a b : Condition} (ha : a.IsSpelled) (hb : b.IsSpelled)
    (h : a.text = b.text) : a.gists = b.gists := by
  have hsplit := (Condition.reads ha C.stops_nil).split_eq
  rw [h, (Condition.reads hb C.stops_nil).split_eq] at hsplit
  rw [Condition.gists, Condition.gists, Option.some.inj hsplit]

theorem eq_of_assign_eq {name other value result : String} (hname : Lexeme.IsWord name.toList)
    (hother : Lexeme.IsWord other.toList) (h : s!"{name} = {value};" = s!"{other} = {result};") :
    name = other ∧ value = result := by
  have hchars := congrArg String.toList h
  have hsplit : name.toList ++ (" = " ++ value ++ ";").toList =
      other.toList ++ (" = " ++ result ++ ";").toList := by
    simpa [toString] using hchars
  obtain ⟨hnames, hrest⟩ := append_inj_of_stops (Lexeme.isAlphanum_of_isWord hname)
    (Lexeme.isAlphanum_of_isWord hother) (by simp) (by simp) hsplit
  exact ⟨String.toList_inj.mp hnames, between_inj (String.toList_inj.mp hrest)⟩

mutual

theorem Statement.gists_eq_of_lines_eq {format : String}
    (hformat : NumberFormat.isConversion format.toList = true) : (a b : Statement) →
    a.IsSpelled → b.IsSpelled → {rest rest' : List String} →
    a.lines format ++ rest = b.lines format ++ rest' → a.gists = b.gists ∧ rest = rest'
  | .printText text, b, ha, hb, _, _, h => by
    have hform := Statement.form_eq_of_lines_eq hformat ha hb h
    cases b with
    | printText text' =>
      obtain ⟨hline, hrest⟩ := List.cons.inj h
      have htext : text = text' := between_inj hline
      exact ⟨by rw [htext], hrest⟩
    | _ => cases hform
  | .print value, b, ha, hb, _, _, h => by
    have hform := Statement.form_eq_of_lines_eq hformat ha hb h
    cases b with
    | print value' =>
      obtain ⟨hline, hrest⟩ := List.cons.inj h
      have hvalue := Expression.gists_eq_of_text_eq ha hb (between_inj hline)
      exact ⟨by rw [Statement.gists, Statement.gists, hvalue], hrest⟩
    | _ => cases hform
  | .block form condition body, b, ha, hb, _, _, h => by
    have hform := Statement.form_eq_of_lines_eq hformat ha hb h
    cases b with
    | block form' condition' body' =>
      obtain rfl : form = form' := LineForm.block.inj hform
      simp only [Statement.lines, List.cons_append, List.append_assoc] at h
      obtain ⟨hline, hrest⟩ := List.cons.inj h
      have hcondition := Condition.gists_eq_of_text_eq ha.1 hb.1 (between_inj hline)
      have hclosing : ∀ rest, LinesEnd ("\x7d" :: rest) := by
        intro rest line hline
        obtain rfl : "\x7d" = line := by simpa using hline
        decide
      obtain ⟨hbody, hend⟩ := Program.gists_eq_of_lines_eq hformat body body' ha.2 hb.2
        (hclosing _) (hclosing _) hrest
      exact ⟨by rw [Statement.gists, Statement.gists, hcondition, hbody], (List.cons.inj hend).2⟩
    | _ => cases hform
  | .label name, b, ha, hb, _, _, h => by
    have hform := Statement.form_eq_of_lines_eq hformat ha hb h
    cases b with
    | label name' =>
      obtain ⟨hline, hrest⟩ := List.cons.inj h
      have hname : name.spelling = name'.spelling := by simpa [toString] using hline
      exact ⟨by rw [Statement.gists, Statement.gists, Name.gist, Name.gist, hname], hrest⟩
    | _ => cases hform
  | .jump target, b, ha, hb, _, _, h => by
    have hform := Statement.form_eq_of_lines_eq hformat ha hb h
    cases b with
    | jump target' =>
      obtain ⟨hline, hrest⟩ := List.cons.inj h
      have hname : target.spelling = target'.spelling := between_inj hline
      exact ⟨by rw [Statement.gists, Statement.gists, Name.gist, Name.gist, hname], hrest⟩
    | _ => cases hform
  | .assign target value, b, ha, hb, _, _, h => by
    have hform := Statement.form_eq_of_lines_eq hformat ha hb h
    cases b with
    | assign target' value' =>
      obtain ⟨hline, hrest⟩ := List.cons.inj h
      obtain ⟨hname, htext⟩ := eq_of_assign_eq ha.1 hb.1 hline
      have hvalue := Expression.gists_eq_of_text_eq ha.2 hb.2 htext
      exact ⟨by rw [Statement.gists, Statement.gists, Name.gist, Name.gist, hname, hvalue], hrest⟩
    | _ => cases hform
  | .input target, b, ha, hb, _, _, h => by
    have hform := Statement.form_eq_of_lines_eq hformat ha hb h
    cases b with
    | input target' =>
      obtain ⟨hline, hmore⟩ := List.cons.inj h
      have hname : target.spelling = target'.spelling := between_inj hline
      rw [hname] at hmore
      exact ⟨by rw [Statement.gists, Statement.gists, Name.gist, Name.gist, hname],
        List.append_cancel_left hmore⟩
    | _ => cases hform

/-- Statements in a row are recovered from their lines, up to where these end. -/
theorem Program.gists_eq_of_lines_eq {format : String}
    (hformat : NumberFormat.isConversion format.toList = true) : (a b : Program) →
    a.IsSpelled → b.IsSpelled → {rest rest' : List String} → LinesEnd rest → LinesEnd rest' →
    a.lines format ++ rest = b.lines format ++ rest' → a.gists = b.gists ∧ rest = rest'
  | [], [], _, _, _, _, _, _, h => ⟨rfl, h⟩
  | [], statement :: b, _, hb, _, _, hrest, _, h => by
    rw [Program.lines, Program.lines, List.nil_append, List.append_assoc] at h
    exact absurd h.symm (Statement.lines_ne_of_linesEnd hformat hb.1 hrest)
  | statement :: a, [], ha, _, _, _, _, hrest', h => by
    rw [Program.lines, Program.lines, List.nil_append, List.append_assoc] at h
    exact absurd h (Statement.lines_ne_of_linesEnd hformat ha.1 hrest')
  | statement :: a, statement' :: b, ha, hb, _, _, hrest, hrest', h => by
    rw [Program.lines, Program.lines, List.append_assoc, List.append_assoc] at h
    obtain ⟨hfirst, hmore⟩ :=
      Statement.gists_eq_of_lines_eq hformat statement statement' ha.1 hb.1 h
    obtain ⟨hothers, hend⟩ :=
      Program.gists_eq_of_lines_eq hformat a b ha.2 hb.2 hrest hrest' hmore
    exact ⟨by rw [Program.gists, Program.gists, hfirst, hothers], hend⟩

end

/-- The characters that end lines. -/
def IsLineBreak (c : Char) : Prop :=
  c = '\n' ∨ c = '\r'

section

variable {c : Char} (hc : IsLineBreak c)

include hc

theorem IsLineBreak.not_mem_of_isExpressionPart {text : List Char}
    (h : ∀ d ∈ text, IsExpressionPart d) : c ∉ text := by
  intro hmem
  have hpart := h c hmem
  revert hpart
  rcases hc with rfl | rfl <;> decide

theorem IsLineBreak.not_mem_of_isWord {text : List Char} (h : Lexeme.IsWord text) : c ∉ text :=
  hc.not_mem_of_isExpressionPart (isExpressionPart_of_isWord h)

theorem IsLineBreak.not_mem_of_isStringText {text : List Char}
    (h : ∀ d ∈ text, Lexeme.isStringText d = true) : c ∉ text := by
  intro hmem
  have htext := h c hmem
  revert htext
  rcases hc with rfl | rfl <;> decide

theorem IsLineBreak.not_mem_of_isConversion {format : List Char}
    (h : NumberFormat.isConversion format = true) : c ∉ format := by
  intro hmem
  have hpart := isConversionPart_of_isConversion h c hmem
  revert hpart
  unfold IsConversionPart
  rcases hc with rfl | rfl <;> decide

end

mutual

theorem Statement.lineBreak_not_mem_lines {c : Char} (hc : IsLineBreak c) {format : String}
    (hformat : NumberFormat.isConversion format.toList = true) : (statement : Statement) →
    statement.IsSpelled → ∀ line ∈ statement.lines format, c ∉ line.toList
  | .printText text, h => by
    have htext := hc.not_mem_of_isStringText h
    rcases hc with rfl | rfl <;> simpa [Statement.lines, toString] using htext
  | .print value, h => by
    have hconversion := hc.not_mem_of_isConversion hformat
    have hvalue := hc.not_mem_of_isExpressionPart (Expression.isExpressionPart_text h)
    rcases hc with rfl | rfl <;>
      simpa [Statement.lines, toString] using ⟨hconversion, hvalue⟩
  | .block form condition body, h => by
    have hword : c ∉ form.word.toList := by
      rcases hc with rfl | rfl <;> cases form <;> decide
    have hcondition := hc.not_mem_of_isExpressionPart (Condition.isExpressionPart_text h.1)
    have hbody := Program.lineBreak_not_mem_lines hc hformat body h.2
    rcases hc with rfl | rfl <;>
      simpa [Statement.lines, toString, or_imp, forall_and] using ⟨⟨hword, hcondition⟩, hbody⟩
  | .label name, h => by
    have hname := hc.not_mem_of_isWord h
    rcases hc with rfl | rfl <;> simpa [Statement.lines, toString] using hname
  | .jump target, h => by
    have hname := hc.not_mem_of_isWord h
    rcases hc with rfl | rfl <;> simpa [Statement.lines, toString] using hname
  | .assign target value, h => by
    have hname := hc.not_mem_of_isWord h.1
    have hvalue := hc.not_mem_of_isExpressionPart (Expression.isExpressionPart_text h.2)
    rcases hc with rfl | rfl <;> simpa [Statement.lines, toString] using ⟨hname, hvalue⟩
  | .input target, h => by
    have hname := hc.not_mem_of_isWord h
    rcases hc with rfl | rfl <;> simpa [Statement.lines, toString] using hname

theorem Program.lineBreak_not_mem_lines {c : Char} (hc : IsLineBreak c) {format : String}
    (hformat : NumberFormat.isConversion format.toList = true) : (program : Program) →
    program.IsSpelled → ∀ line ∈ program.lines format, c ∉ line.toList
  | [], _ => by simp [Program.lines]
  | statement :: rest, h => by
    have hstatement := Statement.lineBreak_not_mem_lines hc hformat statement h.1
    have hrest := Program.lineBreak_not_mem_lines hc hformat rest h.2
    intro line hline
    rw [Program.lines, List.mem_append] at hline
    exact hline.elim (hstatement line) (hrest line)

end

/-! ## Whole texts -/

/-- The lines of the main function, from its declarations to its end. -/
def mainLines (format : String) (names : List String) (program : Program) : List String :=
  names.map declarationLine ++ (program.lines format ++ Generate.epilogue)

section

variable {format : String} {names : List String} {program : Program}

theorem lineBreak_not_mem_mainLines {c : Char} (hc : IsLineBreak c)
    (hformat : NumberFormat.isConversion format.toList = true)
    (hnames : ∀ name ∈ names, Lexeme.IsWord name.toList) (hprogram : program.IsSpelled) :
    ∀ line ∈ Generate.prologue ++ mainLines format names program, c ∉ line.toList := by
  have hprologue : ∀ line ∈ Generate.prologue, c ∉ line.toList := by
    rcases hc with rfl | rfl <;> decide
  have hepilogue : ∀ line ∈ Generate.epilogue, c ∉ line.toList := by
    rcases hc with rfl | rfl <;> decide
  have hstatements := Program.lineBreak_not_mem_lines hc hformat program hprogram
  have hdeclarations : ∀ line ∈ names.map declarationLine, c ∉ line.toList := by
    intro line hline
    obtain ⟨name, hname, rfl⟩ := List.mem_map.mp hline
    have hword := hc.not_mem_of_isWord (hnames name hname)
    rcases hc with rfl | rfl <;> simpa [declarationLine, toString] using hword
  intro line hline
  simp only [mainLines, List.mem_append] at hline
  rcases hline with hline | hline | hline | hline
  · exact hprologue line hline
  · exact hdeclarations line hline
  · exact hstatements line hline
  · exact hepilogue line hline

theorem linesEnd_epilogue : LinesEnd Generate.epilogue := by
  intro line hline
  obtain rfl : "return 0;" = line := by simpa [Generate.epilogue] using hline
  decide

theorem dropWhile_mainLines (hformat : NumberFormat.isConversion format.toList = true)
    (hnames : ∀ name ∈ names, Lexeme.IsWord name.toList) (hprogram : program.IsSpelled) :
    (mainLines format names program).dropWhile (lineForm · = .declaration) =
      program.lines format ++ Generate.epilogue := by
  apply Lexeme.dropWhile_append_of_stops
  · intro line hline
    obtain ⟨name, hname, rfl⟩ := List.mem_map.mp hline
    exact decide_eq_true (lineForm_declarationLine (hnames name hname))
  · intro line hline
    apply decide_eq_false
    cases program with
    | nil =>
      rw [linesEnd_epilogue line hline]
      simp
    | cons statement rest =>
      obtain ⟨first, more, hfirst, hform⟩ := Statement.exists_line hformat hprogram.1
      obtain rfl : first = line := by simpa [Program.lines, hfirst] using hline
      rw [hform]
      exact statement.form_ne_declaration

end

/-- The gists of a program are recovered from the text of its translation. -/
theorem Program.gists_eq_of_text_eq {format : String}
    (hformat : NumberFormat.isConversion format.toList = true) {names names' : List String}
    (hnames : ∀ name ∈ names, Lexeme.IsWord name.toList)
    (hnames' : ∀ name ∈ names', Lexeme.IsWord name.toList) {a b : Program} (ha : a.IsSpelled)
    (hb : b.IsSpelled)
    (h : closedLines (Generate.prologue ++ names.map declarationLine ++ a.lines format ++
        Generate.epilogue) =
      closedLines (Generate.prologue ++ names'.map declarationLine ++ b.lines format ++
        Generate.epilogue)) : a.gists = b.gists := by
  have hlines : Generate.prologue ++ mainLines format names a =
      Generate.prologue ++ mainLines format names' b := by
    apply eq_of_closedLines_eq (lineBreak_not_mem_mainLines (.inl rfl) hformat hnames ha)
      (lineBreak_not_mem_mainLines (.inl rfl) hformat hnames' hb)
    simpa only [mainLines, List.append_assoc] using h
  have hmain := List.append_cancel_left hlines
  have hstatements := dropWhile_mainLines hformat hnames ha
  rw [hmain, dropWhile_mainLines hformat hnames' hb] at hstatements
  exact (Program.gists_eq_of_lines_eq hformat a b ha hb linesEnd_epilogue linesEnd_epilogue
    hstatements.symm).1

end TeenyBasic.Source

namespace TeenyBasic

open Source

/-- The text of a compilation that succeeds, and the program that it is made from. -/
theorem exists_program_of_compile {options : Options} {source file : String}
    {compilation : Compilation} (h : options.compile source file = .ok compilation) :
    ∃ (program : Program) (names : List String),
      essence (Cursor.stream (Cursor.start file source)).tokens =
        program.gists ++ [(.endOfInput, "")] ∧
      program.IsSpelled ∧ (∀ name ∈ names, Lexeme.IsWord name.toList) ∧
      compilation.text = closedLines (Generate.prologue ++ names.map declarationLine ++
        program.lines options.numberFormat ++ Generate.epilogue) := by
  obtain ⟨hfault, program, scope, hderives, _, henter, _, rfl⟩ :=
    (compile_eq_ok_iff options source file compilation).mp h
  have hspelled := isSpelled_of_stream hfault hderives
  have hessence := hderives.essence_eq fun token htoken ↦
    Cursor.wellSpelled_of_mem_stream htoken
  have hnames : ∀ name ∈ scope.declaredVariables.names, Lexeme.IsWord name.toList := by
    intro name hname
    rw [(records_of_enterAll henter).variableNames, List.mem_eraseDups, namesInRole,
      List.mem_map] at hname
    obtain ⟨mention, hmention, rfl⟩ := hname
    exact Program.spelledNames program hspelled mention (List.mem_filter.mp hmention).1
  exact ⟨program, _, hessence, hspelled, hnames, text_translation options file program scope _⟩

/-- Source texts with the same translation have the same essence: they differ in nothing but the
places of their tokens, the number of line ends where there are any, and zeros in front of
numbers. -/
theorem essence_eq_of_text_eq (options : Options) (hvalid : options.Valid)
    (source file source' file' : String) (compilation compilation' : Compilation)
    (h : options.compile source file = .ok compilation)
    (h' : options.compile source' file' = .ok compilation')
    (htext : compilation.text = compilation'.text) :
    essence (Cursor.stream (Cursor.start file source)).tokens =
      essence (Cursor.stream (Cursor.start file' source')).tokens := by
  obtain ⟨program, names, hessence, hspelled, hnames, hlines⟩ := exists_program_of_compile h
  obtain ⟨program', names', hessence', hspelled', hnames', hlines'⟩ := exists_program_of_compile h'
  rw [hlines, hlines'] at htext
  have hgists := Program.gists_eq_of_text_eq hvalid.2 hnames hnames' hspelled hspelled' htext
  rw [hessence, hessence', hgists]

/-- Two ways to write that a variable is given the value seven. -/
theorem essence_eq_of_text_eq_zeros : Options.standard.Valid ∧
    ∃ compilation compilation' : Compilation,
      Options.standard.compile "\nLET a = 007" "" = .ok compilation ∧
      Options.standard.compile "LET a=7 # seven\n\n" "" = .ok compilation' ∧
      compilation.text = compilation'.text ∧
      essence (Cursor.stream (Cursor.start "" "\nLET a = 007")).tokens =
        essence (Cursor.stream (Cursor.start "" "LET a=7 # seven\n\n")).tokens := by
  have hcompile : Options.standard.compile "\nLET a = 007" "" =
      .ok ⟨"", ⟨"#include <stdio.h>\nint main(int argc, char *argv[]) \x7b\nfloat a;\n",
        "a = 7;\nreturn 0;\n\x7d\n"⟩, ["a"], [], 7⟩ := by
    decide +kernel
  have hcompile' : Options.standard.compile "LET a=7 # seven\n\n" "" =
      .ok ⟨"", ⟨"#include <stdio.h>\nint main(int argc, char *argv[]) \x7b\nfloat a;\n",
        "a = 7;\nreturn 0;\n\x7d\n"⟩, ["a"], [], 8⟩ := by
    decide +kernel
  exact ⟨Options.standard_valid, _, _, hcompile, hcompile', rfl,
    essence_eq_of_text_eq _ Options.standard_valid _ _ _ _ _ _ hcompile hcompile' rfl⟩

end TeenyBasic
