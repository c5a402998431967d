import TeenyBasic.Options
import TeenyBasic.Proofs.CLanguage.Literal
import TeenyBasic.Proofs.Reading.Expression

/-!
# How C divides statements

The lines of a statement are divided into tokens line by line, since no token goes on behind a line
end. Only printed texts can be in the way: they are copied into literals as they are, and where a
trigraph puts a backslash into one, the characters behind it need not be an escape.

The main statement is `Program.divides`, which covers both outcomes.
-/

namespace TeenyBasic.Source

open C (Reads Divides Plain)
open Text.Quoted

/-- The characters of a literal that prints a text and ends the line. -/
def lineBody (text : List Char) : List Char :=
  text ++ [backslash, 'n']

mutual

/-- The tokens of the lines that stand for a statement. -/
def Statement.cTokens (format : String) : Statement → List C.Token
  | .printText text =>
    [.word "printf", .mark "(", C.Token.quoted (lineBody (C.withoutTrigraphs text.toList)), .mark ")",
     .mark ";"]
  | .print value =>
    .word "printf" :: .mark "(" :: C.Token.quoted (lineBody format.toList) :: .mark "," :: .mark "(" ::
      .word "float" :: .mark ")" :: .mark "(" ::
      (Expression.cTokens value ++ [.mark ")", .mark ")", .mark ";"])
  | .block form condition body =>
    .word form.word :: .mark "(" ::
      (condition.cTokens ++ .mark ")" :: .mark "\x7b" ::
        (Program.cTokens format body ++ [.mark "\x7d"]))
  | .label name => [.word name.spelling, .mark ":"]
  | .jump target => [.word "goto", .word target.spelling, .mark ";"]
  | .assign target value =>
    .word target.spelling :: .mark "=" :: (Expression.cTokens value ++ [.mark ";"])
  | .input target =>
    [.word "if", .mark "(", .number "0", .mark "==", .word "scanf", .mark "(",
     C.Token.quoted "%f".toList, .mark ",", .mark "&", .word target.spelling, .mark ")", .mark ")",
     .mark "\x7b", .word target.spelling, .mark "=", .number "0", .mark ";", .word "scanf",
     .mark "(", C.Token.quoted "%*s".toList, .mark ")", .mark ";", .mark "\x7d"]

def Program.cTokens (format : String) : Program → List C.Token
  | [] => []
  | statement :: rest => statement.cTokens format ++ Program.cTokens format rest

end

mutual

/-- Names are words, numbers are numerals, and texts hold no character that is forbidden in
strings. -/
def Statement.IsSpelled : Statement → Prop
  | .printText text => ∀ c ∈ text.toList, Lexeme.isStringText c = true
  | .print value => Expression.IsSpelled value
  | .block _ condition body => condition.IsSpelled ∧ Program.IsSpelled body
  | .label name => Lexeme.IsWord name.spelling.toList
  | .jump target => Lexeme.IsWord target.spelling.toList
  | .assign target value => Lexeme.IsWord target.spelling.toList ∧ Expression.IsSpelled value
  | .input target => Lexeme.IsWord target.spelling.toList

def Program.IsSpelled : Program → Prop
  | [] => True
  | statement :: rest => statement.IsSpelled ∧ Program.IsSpelled rest

end

theorem KeywordDerives.isWord {keyword : Keyword} {name : Name} {tokens : List Token}
    (h : KeywordDerives keyword name tokens) (hspelled : ∀ token ∈ tokens, token.WellSpelled) :
    Lexeme.IsWord name.spelling.toList := by
  obtain ⟨word, token, rfl, _, hkind, rfl⟩ := h
  exact (hspelled token (by simp)).identifier hkind

mutual

theorem Statement.DerivesFront.isSpelled : {statement : Statement} → {tokens : List Token} →
    statement.DerivesFront tokens → (∀ token ∈ tokens, token.WellSpelled) → statement.IsSpelled
  | .printText text, _, h, hspelled => by
    obtain ⟨word, token, rfl, _, hkind, rfl⟩ := h
    exact (hspelled token (by simp)).string hkind
  | .print value, _, h, hspelled => by
    obtain ⟨word, rest, rfl, _, hvalue⟩ := h
    exact (Expression.Derives.toC hvalue fun t ht ↦ hspelled t (by simp [ht])).1
  | .block form condition body, _, h, hspelled => by
    obtain ⟨opening, test, middle, ends, inner, closing, rfl, _, hcondition, _, _, hbody, _⟩ := h
    exact ⟨(hcondition.toC fun t ht ↦ hspelled t (by simp [ht])).1,
      Program.DerivesBody.isSpelled hbody fun t ht ↦ hspelled t (by simp [ht])⟩
  | .label name, _, h, hspelled => KeywordDerives.isWord h hspelled
  | .jump target, _, h, hspelled => KeywordDerives.isWord h hspelled
  | .assign target value, _, h, hspelled => by
    obtain ⟨front, sign, back, rfl, htarget, _, hvalue⟩ := h
    exact ⟨htarget.isWord fun t ht ↦ hspelled t (by simp [ht]),
      (Expression.Derives.toC hvalue fun t ht ↦ hspelled t (by simp [ht])).1⟩
  | .input target, _, h, hspelled => KeywordDerives.isWord h hspelled

theorem Program.DerivesBody.isSpelled : {program : Program} → {tokens : List Token} →
    program.DerivesBody tokens → (∀ token ∈ tokens, token.WellSpelled) → program.IsSpelled
  | [], _, _, _ => trivial
  | statement :: rest, _, h, hspelled => by
    obtain ⟨front, ends, back, rfl, hstatement, _, hrest⟩ := h
    exact ⟨Statement.DerivesFront.isSpelled hstatement fun t ht ↦ hspelled t (by simp [ht]),
      Program.DerivesBody.isSpelled hrest fun t ht ↦ hspelled t (by simp [ht])⟩

end

/-- The names that are mentioned are words. -/
def SpelledNames (mentions : List Mention) : Prop :=
  ∀ mention ∈ mentions, Lexeme.IsWord mention.name.spelling.toList

theorem spelledNames_append {a b : List Mention} :
    SpelledNames (a ++ b) ↔ SpelledNames a ∧ SpelledNames b := by
  simp [SpelledNames, or_imp, forall_and]

theorem spelledNames_singleton {mention : Mention} :
    SpelledNames [mention] ↔ Lexeme.IsWord mention.name.spelling.toList := by
  simp [SpelledNames]

theorem Chain.spelledNames {ω α : Type} {mentions : α → List Mention} {chain : Chain ω α}
    (h : ∀ a ∈ chain.items, SpelledNames (mentions a)) :
    SpelledNames (chain.mentionsBy mentions) := by
  intro mention hmention
  rw [Chain.mentionsBy, List.mem_append, List.mem_flatMap] at hmention
  rcases hmention with hfirst | ⟨link, hlink, hmention⟩
  · exact h chain.first List.mem_cons_self mention hfirst
  · exact h link.2 (List.mem_cons_of_mem _ (List.mem_map_of_mem hlink)) mention hmention

theorem Primary.spelledNames {primary : Primary} (h : primary.IsSpelled) :
    SpelledNames primary.mentions := by
  cases primary with
  | number spelling => simp [Primary.mentions, SpelledNames]
  | named name => exact spelledNames_singleton.mpr h

theorem Expression.spelledNames {expression : Expression} (h : Expression.IsSpelled expression) :
    SpelledNames (Expression.mentions expression) :=
  Chain.spelledNames fun term hterm ↦ Chain.spelledNames fun signed hsigned ↦
    Primary.spelledNames (h term hterm signed hsigned)

mutual

theorem Statement.spelledNames : (statement : Statement) → statement.IsSpelled →
    SpelledNames statement.mentions
  | .printText _, _ => by simp [Statement.mentions, SpelledNames]
  | .print value, h => Expression.spelledNames h
  | .block _ condition body, h => by
    rw [Statement.mentions, spelledNames_append]
    exact ⟨Chain.spelledNames fun expression hexpression ↦
      Expression.spelledNames (h.1 expression hexpression), Program.spelledNames body h.2⟩
  | .label name, h => spelledNames_singleton.mpr h
  | .jump target, h => spelledNames_singleton.mpr h
  | .assign target value, h =>
    spelledNames_append.mpr ⟨spelledNames_singleton.mpr h.1, Expression.spelledNames h.2⟩
  | .input target, h => spelledNames_singleton.mpr h

theorem Program.spelledNames : (program : Program) → program.IsSpelled →
    SpelledNames program.mentions
  | [], _ => by simp [Program.mentions, SpelledNames]
  | statement :: rest, h => by
    rw [Program.mentions, spelledNames_append]
    exact ⟨Statement.spelledNames statement h.1, Program.spelledNames rest h.2⟩

end

/-- The characters that expressions and conditions are written with: letters, digits, points, the
characters of operators and comparisons, and spaces. -/
def IsExpressionPart (c : Char) : Prop :=
  c.isAlphanum = true ∨ c ∈ ['.', ' ', '+', '-', '*', '/', '=', '!', '<', '>']

instance : DecidablePred IsExpressionPart := fun _ ↦ inferInstanceAs (Decidable (_ ∨ _))

theorem IsExpressionPart.ne {c d : Char} (h : IsExpressionPart c) (hd : ¬ IsExpressionPart d) :
    c ≠ d := by
  rintro rfl
  exact hd h

theorem isExpressionPart_of_isWord {text : List Char} (h : Lexeme.IsWord text) :
    ∀ c ∈ text, IsExpressionPart c :=
  fun c hc ↦ Or.inl (Lexeme.isAlphanum_of_isWord h c hc)

theorem isExpressionPart_of_isNumeral {text : List Char} (h : Lexeme.IsNumeral text) :
    ∀ c ∈ text, IsExpressionPart c := by
  obtain ⟨first, tail, rfl, hfirst, htail⟩ := Lexeme.exists_digit_of_isNumeral h
  have hpart : ∀ c, c.isDigit = true ∨ c = '.' → IsExpressionPart c := by
    rintro c (hdigit | rfl)
    · exact Or.inl (by simp [Char.isAlphanum, hdigit])
    · decide
  intro c hc
  rcases List.mem_cons.mp hc with rfl | hc
  · exact hpart _ (Or.inl hfirst)
  · exact hpart c (htail c hc)

theorem Primary.isExpressionPart_text {primary : Primary} (h : primary.IsSpelled) :
    ∀ c ∈ primary.text.toList, IsExpressionPart c := by
  cases primary with
  | number spelling =>
    rw [Primary.text, Numeral.decimal, String.toList_ofList]
    exact isExpressionPart_of_isNumeral (isNumeral_decimalChars h)
  | named name => exact isExpressionPart_of_isWord h

theorem Signed.isExpressionPart_text {signed : Signed} (h : signed.primary.IsSpelled) :
    ∀ c ∈ signed.text.toList, IsExpressionPart c := by
  obtain ⟨sign, primary⟩ := signed
  have hprimary := Primary.isExpressionPart_text h
  cases sign with
  | none => exact hprimary
  | some sign =>
    have hsign : ∀ c ∈ sign.operator.symbol.toList, IsExpressionPart c := by
      cases sign <;> simp [Sign.operator, Operator.symbol, IsExpressionPart]
    intro c hc
    rw [Signed.text, String.toList_append, List.mem_append] at hc
    exact hc.elim (hsign c) (hprimary c)

theorem Chain.isExpressionPart_text {ω α : Type} {item : α → String} {operator : ω → α → String}
    {chain : Chain ω α} (hitem : ∀ a ∈ chain.items, ∀ c ∈ (item a).toList, IsExpressionPart c)
    (hoperator : ∀ link ∈ chain.rest, ∀ c ∈ (operator link.1 link.2).toList, IsExpressionPart c) :
    ∀ c ∈ (chain.textBy item operator).toList, IsExpressionPart c := by
  obtain ⟨first, links⟩ := chain
  intro c hc
  rw [Chain.textBy, String.toList_append, List.mem_append, String.toList_join,
    List.mem_flatMap] at hc
  rcases hc with hc | ⟨text, htext, hc⟩
  · exact hitem first List.mem_cons_self c hc
  · obtain ⟨link, hlink, rfl⟩ := List.mem_map.mp htext
    rw [String.toList_append, List.mem_append] at hc
    rcases hc with hc | hc
    · exact hoperator link hlink c hc
    · exact hitem link.2 (List.mem_cons_of_mem _ (List.mem_map_of_mem hlink)) c hc

theorem Term.isExpressionPart_text {term : Term} (h : Term.IsSpelled term) :
    ∀ c ∈ (Term.text term).toList, IsExpressionPart c := by
  apply Chain.isExpressionPart_text
  · intro signed hsigned
    exact Signed.isExpressionPart_text (h signed hsigned)
  · intro link _
    cases link.1 <;> simp [Scaling.operator, Operator.symbol, IsExpressionPart]

theorem Expression.isExpressionPart_text {expression : Expression}
    (h : Expression.IsSpelled expression) :
    ∀ c ∈ (Expression.text expression).toList, IsExpressionPart c := by
  apply Chain.isExpressionPart_text
  · intro term hterm
    exact Term.isExpressionPart_text (h term hterm)
  · intro link _
    unfold Sign.textBefore
    split <;> cases link.1 <;> simp [Sign.operator, Operator.symbol, IsExpressionPart]

theorem Condition.isExpressionPart_text {condition : Condition} (h : condition.IsSpelled) :
    ∀ c ∈ condition.text.toList, IsExpressionPart c := by
  apply Chain.isExpressionPart_text
  · intro expression hexpression
    exact Expression.isExpressionPart_text (h expression hexpression)
  · intro link _
    cases link.1 <;> simp [Comparison.symbol, IsExpressionPart]

theorem plain_of_isExpressionPart {text : List Char} (h : ∀ c ∈ text, IsExpressionPart c) :
    Plain text :=
  fun c hc ↦ (h c hc).ne (by decide)

theorem plain_of_isWord {text : List Char} (h : Lexeme.IsWord text) : Plain text :=
  plain_of_isExpressionPart (isExpressionPart_of_isWord h)

theorem Expression.plain_text {expression : Expression} (h : Expression.IsSpelled expression) :
    Plain (Expression.text expression).toList :=
  plain_of_isExpressionPart (Expression.isExpressionPart_text h)

theorem Condition.plain_text {condition : Condition} (h : condition.IsSpelled) :
    Plain condition.text.toList :=
  plain_of_isExpressionPart (Condition.isExpressionPart_text h)

theorem divides_label {name : String} (h : Lexeme.IsWord name.toList) :
    Divides (closedLines [s!"{name}:"]).toList true [.word name, .mark ":"] := by
  have htext : (closedLines [s!"{name}:"]).toList = name.toList ++ (":".toList ++ ['\n']) := by
    simp [toString]
  rw [htext]
  apply C.divides_of_reads
  · simpa using plain_of_isWord h
  · intro rest
    apply Reads.word_append h (C.stops_cons.mpr (by decide))
    apply Reads.mark_append_cons (by decide)
    exact Reads.blank_cons rfl (C.reads_nil rest)

theorem divides_jump {name : String} (h : Lexeme.IsWord name.toList) :
    Divides (closedLines [s!"goto {name};"]).toList true
      [.word "goto", .word name, .mark ";"] := by
  have htext : (closedLines [s!"goto {name};"]).toList =
      "goto".toList ++ (' ' :: (name.toList ++ (";".toList ++ ['\n']))) := by
    simp [toString]
  rw [htext]
  apply C.divides_of_reads
  · simpa using plain_of_isWord h
  · intro rest
    apply Reads.word_append (by decide) (C.stops_cons.mpr (by decide))
    apply Reads.blank_cons rfl
    apply Reads.word_append h (C.stops_cons.mpr (by decide))
    apply Reads.closed_append (by decide)
    exact Reads.blank_cons rfl (C.reads_nil rest)

theorem divides_assign {name : String} {value : Expression} (hname : Lexeme.IsWord name.toList)
    (hvalue : Expression.IsSpelled value) :
    Divides (closedLines [s!"{name} = {Expression.text value};"]).toList true
      (.word name :: .mark "=" :: (Expression.cTokens value ++ [.mark ";"])) := by
  have htext : (closedLines [s!"{name} = {Expression.text value};"]).toList =
      name.toList ++ (' ' :: ("=".toList ++ (' ' ::
        ((Expression.text value).toList ++ (";".toList ++ ['\n']))))) := by
    simp [toString]
  rw [htext]
  apply C.divides_of_reads
  · simpa using ⟨plain_of_isWord hname, Expression.plain_text hvalue⟩
  · intro rest
    apply Reads.word_append hname (C.stops_cons.mpr (by decide))
    apply Reads.blank_cons rfl
    apply Reads.mark_append_cons (by decide)
    apply Reads.blank_cons rfl
    apply Reads.append (Expression.reads hvalue (C.stops_cons.mpr (by decide)))
    apply Reads.closed_append (by decide)
    exact Reads.blank_cons rfl (C.reads_nil rest)

/-! ## Printing -/

theorem quotable_lineBody {text : List Char}
    (h : ∀ c ∈ text, c ≠ doubleQuote ∧ c ≠ '\n') : C.Quotable doubleQuote (lineBody text) where
  forall_ne := by
    have hend : ∀ c ∈ [backslash, 'n'], c ≠ doubleQuote ∧ c ≠ '\n' := by
      simp [backslash, doubleQuote]
    intro c hc
    rcases List.mem_append.mp hc with hc | hc
    · exact h c hc
    · exact hend c hc
  last_ne := by
    have hend : [backslash, 'n'].getLast? = some 'n' := rfl
    rw [lineBody, List.getLast?_append, hend, Option.some_or]
    decide

/-- Decides whether a printed text can be copied into a literal: no trigraph in it puts a backslash
where no escape follows. -/
def textFits (text : String) : Bool :=
  C.escapesFit (lineBody (C.withoutTrigraphs text.toList))

theorem divides_quoted {text : String} (h : ∀ c ∈ text.toList, Lexeme.isStringText c = true) :
    Divides (doubleQuote :: (lineBody text.toList ++ [doubleQuote])) (textFits text)
      [.quoted (lineBody (C.withoutTrigraphs text.toList))] := by
  have hquotable : C.Quotable doubleQuote (lineBody (C.withoutTrigraphs text.toList)) := by
    apply quotable_lineBody
    intro c hc
    rcases C.mem_withoutTrigraphs hc with hmem | ⟨third, hthird⟩
    · have hc := h c hmem
      simp only [Lexeme.isStringText, Lexeme.isForbidden, Bool.and_eq_true, decide_eq_true_eq,
        Bool.not_eq_true', Bool.or_eq_false_iff, decide_eq_false_iff_not] at hc
      exact ⟨hc.1, hc.2.1.1.2⟩
    · exact C.trigraph?_plain hthird
  intro rest
  have hreplaced : C.withoutTrigraphs
        (doubleQuote :: (lineBody text.toList ++ [doubleQuote]) ++ rest) =
      doubleQuote :: (lineBody (C.withoutTrigraphs text.toList) ++
        doubleQuote :: C.withoutTrigraphs rest) := by
    have hend : C.withoutTrigraphs ('n' :: doubleQuote :: rest) =
        'n' :: doubleQuote :: C.withoutTrigraphs rest := by
      rw [C.withoutTrigraphs_cons (by decide), C.withoutTrigraphs_cons (by decide)]
    calc
      _ = C.withoutTrigraphs
          (doubleQuote :: (text.toList ++ backslash :: 'n' :: doubleQuote :: rest)) := by
        simp [lineBody]
      _ = doubleQuote ::
          C.withoutTrigraphs (text.toList ++ backslash :: 'n' :: doubleQuote :: rest) :=
        C.withoutTrigraphs_cons (by decide) _
      _ = doubleQuote :: (C.withoutTrigraphs text.toList ++
          backslash :: C.withoutTrigraphs ('n' :: doubleQuote :: rest)) := by
        rw [C.withoutTrigraphs_append_cons (by decide) rfl]
      _ = _ := by
        rw [hend]
        simp [lineBody]
  rw [hreplaced]
  unfold textFits
  split
  · rename_i hfits
    have hread := Reads.quoted_append hquotable hfits (C.reads_nil (C.withoutTrigraphs rest))
    simpa [Reads] using hread
  · rename_i hfits
    exact C.split_quoted hquotable (by simpa using hfits) _

theorem divides_printText {text : String} (h : ∀ c ∈ text.toList, Lexeme.isStringText c = true) :
    Divides (closedLines [s!"printf(\"{text}\\n\");"]).toList (textFits text)
      [.word "printf", .mark "(", .quoted (lineBody (C.withoutTrigraphs text.toList)), .mark ")",
       .mark ";"] := by
  have htext : (closedLines [s!"printf(\"{text}\\n\");"]).toList =
      "printf".toList ++ ("(".toList ++ []) ++ doubleQuote :: (lineBody text.toList ++ [doubleQuote]) ++
        (")".toList ++ (";".toList ++ ['\n'])) := by
    simp [toString, lineBody, doubleQuote, backslash]
  have hopening :
      Divides ("printf".toList ++ ("(".toList ++ [])) true [.word "printf", .mark "("] := by
    apply C.divides_of_reads (by decide)
    intro rest
    apply Reads.word_append (by decide) (C.stops_cons.mpr (by decide))
    exact Reads.closed_append (by decide) (C.reads_nil rest)
  have hclosing : Divides (")".toList ++ (";".toList ++ ['\n'])) true [.mark ")", .mark ";"] := by
    apply C.divides_of_reads (by decide)
    intro rest
    apply Reads.closed_append (by decide)
    apply Reads.closed_append (by decide)
    exact Reads.blank_cons rfl (C.reads_nil rest)
  rw [htext]
  simpa using (hopening.append (divides_quoted h)).append hclosing

/-- The characters of a conversion: flags, digits, a point, a percent sign and a letter. -/
def IsConversionPart (c : Char) : Prop :=
  NumberFormat.isFlag c = true ∨ Text.DecimalDigit.isDecimalDigit c = true ∨ c ∈ ['%', '.', 'f']

theorem isConversionPart_of_isPrecision {text : List Char}
    (h : NumberFormat.isPrecision text = true) : ∀ c ∈ text, IsConversionPart c := by
  unfold NumberFormat.isPrecision at h
  split at h
  · simp [IsConversionPart]
  · rename_i rest
    rw [Bool.and_eq_true, beq_iff_eq] at h
    intro c hc
    rcases List.mem_cons.mp hc with rfl | hc
    · simp [IsConversionPart]
    · rw [← List.takeWhile_append_dropWhile (p := Text.DecimalDigit.isDecimalDigit) (l := rest),
        h.2, List.mem_append, List.mem_singleton] at hc
      rcases hc with hc | rfl
      · exact Or.inr (Or.inl (List.mem_takeWhile_imp hc))
      · simp [IsConversionPart]
  · cases h

theorem isConversionPart_of_isConversion {format : List Char}
    (h : NumberFormat.isConversion format = true) : ∀ c ∈ format, IsConversionPart c := by
  unfold NumberFormat.isConversion at h
  split at h
  · rename_i rest
    intro c hc
    rcases List.mem_cons.mp hc with rfl | hc
    · simp [IsConversionPart]
    · rw [← List.takeWhile_append_dropWhile (p := NumberFormat.isFlag) (l := rest),
        List.mem_append] at hc
      rcases hc with hc | hc
      · exact Or.inl (List.mem_takeWhile_imp hc)
      · rw [← List.takeWhile_append_dropWhile (p := Text.DecimalDigit.isDecimalDigit)
          (l := rest.dropWhile NumberFormat.isFlag), List.mem_append] at hc
        rcases hc with hc | hc
        · exact Or.inr (Or.inl (List.mem_takeWhile_imp hc))
        · exact isConversionPart_of_isPrecision h c hc
  · cases h

theorem IsConversionPart.ne {c : Char} (h : IsConversionPart c) :
    c ≠ doubleQuote ∧ c ≠ '\n' ∧ c ≠ backslash ∧ c ≠ '?' := by
  have hne : ∀ d, NumberFormat.isFlag d = false → Text.DecimalDigit.isDecimalDigit d = false →
      d ∉ ['%', '.', 'f'] → c ≠ d := by
    rintro d hflag hdigit hother rfl
    rcases h with h | h | h
    · rw [h] at hflag
      cases hflag
    · rw [h] at hdigit
      cases hdigit
    · exact hother h
  exact ⟨hne _ rfl (by decide) (by decide), hne _ rfl (by decide) (by decide),
    hne _ rfl (by decide) (by decide), hne _ rfl (by decide) (by decide)⟩

theorem divides_print {format : String} {value : Expression}
    (hformat : NumberFormat.isConversion format.toList = true)
    (hvalue : Expression.IsSpelled value) :
    Divides (closedLines [s!"printf(\"{format}\\n\", (float)({Expression.text value}));"]).toList
      true (.word "printf" :: .mark "(" :: .quoted (lineBody format.toList) :: .mark "," ::
        .mark "(" :: .word "float" :: .mark ")" :: .mark "(" ::
        (Expression.cTokens value ++ [.mark ")", .mark ")", .mark ";"])) := by
  have hparts := isConversionPart_of_isConversion hformat
  have hquotable : C.Quotable doubleQuote (lineBody format.toList) :=
    quotable_lineBody fun c hc ↦ ⟨(hparts c hc).ne.1, (hparts c hc).ne.2.1⟩
  have hfits : C.escapesFit (lineBody format.toList) = true := by
    rw [lineBody, C.escapesFit_append fun c hc ↦ (hparts c hc).ne.2.2.1]
    decide
  have htext : (closedLines
        [s!"printf(\"{format}\\n\", (float)({Expression.text value}));"]).toList =
      "printf".toList ++ ("(".toList ++ (doubleQuote :: (lineBody format.toList ++ doubleQuote ::
        (",".toList ++ ' ' :: ("(".toList ++ ("float".toList ++ (")".toList ++ ("(".toList ++
          ((Expression.text value).toList ++
            (")".toList ++ (")".toList ++ (";".toList ++ ['\n'])))))))))))) := by
    simp [toString, lineBody, doubleQuote, backslash]
  rw [htext]
  apply C.divides_of_reads
  · have hplain : Plain format.toList := fun c hc ↦ (hparts c hc).ne.2.2.2
    simpa [lineBody, doubleQuote, backslash] using ⟨hplain, Expression.plain_text hvalue⟩
  · intro rest
    apply Reads.word_append (by decide) (C.stops_cons.mpr (by decide))
    apply Reads.closed_append (by decide)
    apply Reads.quoted_append hquotable hfits
    apply Reads.closed_append (by decide)
    apply Reads.blank_cons rfl
    apply Reads.closed_append (by decide)
    apply Reads.word_append (by decide) (C.stops_cons.mpr (by decide))
    apply Reads.closed_append (by decide)
    apply Reads.closed_append (by decide)
    apply Reads.append (Expression.reads hvalue (C.stops_cons.mpr (by decide)))
    apply Reads.closed_append (by decide)
    apply Reads.closed_append (by decide)
    apply Reads.closed_append (by decide)
    exact Reads.blank_cons rfl (C.reads_nil rest)

theorem divides_opening (form : BlockForm) {condition : Condition} (h : condition.IsSpelled) :
    Divides (closedLines [s!"{form.word} ({condition.text}) \x7b"]).toList true
      (.word form.word :: .mark "(" :: (condition.cTokens ++ [.mark ")", .mark "\x7b"])) := by
  have hword : Lexeme.IsWord form.word.toList := by cases form <;> decide
  have htext : (closedLines [s!"{form.word} ({condition.text}) \x7b"]).toList =
      form.word.toList ++ (' ' :: ("(".toList ++ (condition.text.toList ++
        (")".toList ++ ' ' :: ("\x7b".toList ++ ['\n']))))) := by
    simp [toString]
  rw [htext]
  apply C.divides_of_reads
  · simpa using ⟨plain_of_isWord hword, Condition.plain_text h⟩
  · intro rest
    apply Reads.word_append hword (C.stops_cons.mpr (by decide))
    apply Reads.blank_cons rfl
    apply Reads.closed_append (by decide)
    apply Reads.append (Condition.reads h (C.stops_cons.mpr (by decide)))
    apply Reads.closed_append (by decide)
    apply Reads.blank_cons rfl
    apply Reads.closed_append (by decide)
    exact Reads.blank_cons rfl (C.reads_nil rest)

theorem divides_closing : Divides (closedLines ["\x7d"]).toList true [.mark "\x7d"] := by
  have htext : (closedLines ["\x7d"]).toList = "\x7d".toList ++ ['\n'] := by
    simp
  rw [htext]
  apply C.divides_of_reads (by decide)
  intro rest
  apply Reads.closed_append (by decide)
  exact Reads.blank_cons rfl (C.reads_nil rest)

theorem isNumeral_zero : Lexeme.IsNumeral "0".toList := by
  left
  decide

/-- The line that reads a number and tests whether there was none. -/
theorem divides_scan {name : String} (h : Lexeme.IsWord name.toList) :
    Divides (closedLines [s!"if (0 == scanf(\"%f\", &{name})) \x7b"]).toList true
      [.word "if", .mark "(", .number "0", .mark "==", .word "scanf", .mark "(",
       .quoted "%f".toList, .mark ",", .mark "&", .word name, .mark ")", .mark ")",
       .mark "\x7b"] := by
  have htext : (closedLines [s!"if (0 == scanf(\"%f\", &{name})) \x7b"]).toList =
      "if".toList ++ (' ' :: ("(".toList ++ ("0".toList ++ (' ' :: ("==".toList ++ (' ' ::
        ("scanf".toList ++ ("(".toList ++ (doubleQuote :: ("%f".toList ++ doubleQuote ::
          (",".toList ++ (' ' :: ("&".toList ++ (name.toList ++ (")".toList ++ (")".toList ++
            (' ' :: ("\x7b".toList ++ ['\n'])))))))))))))))))) := by
    simp [toString, doubleQuote]
  rw [htext]
  apply C.divides_of_reads
  · simpa [doubleQuote] using plain_of_isWord h
  · intro rest
    apply Reads.word_append (by decide) (C.stops_cons.mpr (by decide))
    apply Reads.blank_cons rfl
    apply Reads.closed_append (by decide)
    apply Reads.number_append isNumeral_zero (C.stops_cons.mpr (by decide))
    apply Reads.blank_cons rfl
    apply Reads.mark_append_cons (by decide)
    apply Reads.blank_cons rfl
    apply Reads.word_append (by decide) (C.stops_cons.mpr (by decide))
    apply Reads.closed_append (by decide)
    apply Reads.quoted_append (by decide) (by decide)
    apply Reads.closed_append (by decide)
    apply Reads.blank_cons rfl
    apply Reads.mark_append_word (by decide) h
    apply Reads.word_append h (C.stops_cons.mpr (by decide))
    apply Reads.closed_append (by decide)
    apply Reads.closed_append (by decide)
    apply Reads.blank_cons rfl
    apply Reads.closed_append (by decide)
    exact Reads.blank_cons rfl (C.reads_nil rest)

theorem divides_reset {name : String} (h : Lexeme.IsWord name.toList) :
    Divides (closedLines [s!"{name} = 0;"]).toList true
      [.word name, .mark "=", .number "0", .mark ";"] := by
  have htext : (closedLines [s!"{name} = 0;"]).toList =
      name.toList ++ (' ' :: ("=".toList ++ (' ' :: ("0".toList ++ (";".toList ++ ['\n']))))) := by
    simp [toString]
  rw [htext]
  apply C.divides_of_reads
  · simpa using plain_of_isWord h
  · intro rest
    apply Reads.word_append h (C.stops_cons.mpr (by decide))
    apply Reads.blank_cons rfl
    apply Reads.mark_append_cons (by decide)
    apply Reads.blank_cons rfl
    apply Reads.number_append isNumeral_zero (C.stops_cons.mpr (by decide))
    apply Reads.closed_append (by decide)
    exact Reads.blank_cons rfl (C.reads_nil rest)

theorem divides_discard :
    Divides (closedLines ["scanf(\"%*s\");"]).toList true
      [.word "scanf", .mark "(", .quoted "%*s".toList, .mark ")", .mark ";"] := by
  have htext : (closedLines ["scanf(\"%*s\");"]).toList =
      "scanf".toList ++ ("(".toList ++ (doubleQuote :: ("%*s".toList ++ doubleQuote ::
        (")".toList ++ (";".toList ++ ['\n']))))) := by
    simp [doubleQuote]
  rw [htext]
  apply C.divides_of_reads (by decide)
  intro rest
  apply Reads.word_append (by decide) (C.stops_cons.mpr (by decide))
  apply Reads.closed_append (by decide)
  apply Reads.quoted_append (by decide) (by decide)
  apply Reads.closed_append (by decide)
  apply Reads.closed_append (by decide)
  exact Reads.blank_cons rfl (C.reads_nil rest)

theorem divides_input {name : Name} (h : Lexeme.IsWord name.spelling.toList) (format : String) :
    Divides (closedLines (Statement.lines format (.input name))).toList true
      (Statement.cTokens format (.input name)) := by
  have hall := (((divides_scan h).append (divides_reset h)).append divides_discard).append
    divides_closing
  simpa [Statement.lines, Statement.cTokens] using hall

mutual

/-- Decides whether every text that a statement prints can be copied into a literal. -/
def Statement.textsFit : Statement → Bool
  | .printText text => textFits text
  | .block _ _ body => Program.textsFit body
  | _ => true

def Program.textsFit : Program → Bool
  | [] => true
  | statement :: rest => statement.textsFit && Program.textsFit rest

end

mutual

theorem Statement.divides {format : String}
    (hformat : NumberFormat.isConversion format.toList = true) :
    (statement : Statement) → statement.IsSpelled →
    Divides (closedLines (statement.lines format)).toList statement.textsFit
      (statement.cTokens format)
  | .printText text, h => divides_printText h
  | .print value, h => divides_print hformat h
  | .block form condition body, h => by
    have hall := ((divides_opening form h.1).append (Program.divides hformat body h.2)).append
      divides_closing
    simpa [Statement.lines, Statement.cTokens, Statement.textsFit] using hall
  | .label name, h => divides_label h
  | .jump target, h => divides_jump h
  | .assign target value, h => divides_assign h.1 h.2
  | .input target, h => divides_input h format

/-- The lines of a program are divided into its tokens if its texts fit, and not at all
otherwise. -/
theorem Program.divides {format : String}
    (hformat : NumberFormat.isConversion format.toList = true) :
    (program : Program) → program.IsSpelled →
    Divides (closedLines (program.lines format)).toList program.textsFit (program.cTokens format)
  | [], _ => by
    simpa [Program.lines, Program.textsFit, Program.cTokens] using C.divides_nil
  | statement :: rest, h => by
    have hall := (Statement.divides hformat statement h.1).append
      (Program.divides hformat rest h.2)
    simpa [Program.lines, Program.textsFit, Program.cTokens] using hall

end

end TeenyBasic.Source
