import Mathlib.Computability.Language
import TeenyBasic.Proofs.Source.Derivation

/-!
# The grammar

The language of the kinds of tokens that make up a program, written with alternatives, sequences and
repetitions:

    program     ::=  { newline } { statement } end of input
    statement   ::=  "PRINT" (expression | string) lines
                  |  "IF" comparison "THEN" lines { statement } "ENDIF" lines
                  |  "WHILE" comparison "REPEAT" lines { statement } "ENDWHILE" lines
                  |  "LABEL" identifier lines
                  |  "GOTO" identifier lines
                  |  "LET" identifier "=" expression lines
                  |  "INPUT" identifier lines
    comparison  ::=  expression (relation expression) { relation expression }
    expression  ::=  term { ("+" | "-") term }
    term        ::=  unary { ("*" | "/") unary }
    unary       ::=  [ "+" | "-" ] primary
    primary     ::=  number | identifier
    lines       ::=  newline { newline }

The main statement is `mem_program_iff`: the kinds of a token list belong to the grammar exactly
when the token list is derived from some tree.
-/

open scoped Computability

namespace TeenyBasic.Grammar

def only (kind : Kind) : Language Kind := ({[kind]} : Set (List Kind))

def word (keyword : Keyword) : Language Kind := only (.keyword keyword)

def lines : Language Kind := only .newline * (only .newline)∗

def primary : Language Kind := only .number + only .identifier

def sign : Language Kind := only (.operator .plus) + only (.operator .minus)

def unary : Language Kind := (1 + sign) * primary

def term : Language Kind :=
  unary * ((only (.operator .times) + only (.operator .divide)) * unary)∗

def expression : Language Kind := term * (sign * term)∗

def relation : Language Kind :=
  only (.comparison .equal) + only (.comparison .notEqual) + only (.comparison .less) +
    only (.comparison .lessOrEqual) + only (.comparison .greater) +
    only (.comparison .greaterOrEqual)

def comparison : Language Kind := expression * ((relation * expression) * (relation * expression)∗)

mutual

/-- The kinds of the tokens of a statement. -/
inductive IsStatement : List Kind → Prop
  | print {kinds} (h : kinds ∈ word .PRINT * (expression + only .string) * lines) :
    IsStatement kinds
  | conditional {front body back}
    (hfront : front ∈ word .IF * comparison * word .THEN * lines) (hbody : AreStatements body)
    (hback : back ∈ word .ENDIF * lines) : IsStatement (front ++ body ++ back)
  | loop {front body back}
    (hfront : front ∈ word .WHILE * comparison * word .REPEAT * lines) (hbody : AreStatements body)
    (hback : back ∈ word .ENDWHILE * lines) : IsStatement (front ++ body ++ back)
  | label {kinds} (h : kinds ∈ word .LABEL * only .identifier * lines) : IsStatement kinds
  | jump {kinds} (h : kinds ∈ word .GOTO * only .identifier * lines) : IsStatement kinds
  | assign {kinds}
    (h : kinds ∈ word .LET * only .identifier * only (.operator .assign) * expression * lines) :
    IsStatement kinds
  | input {kinds} (h : kinds ∈ word .INPUT * only .identifier * lines) : IsStatement kinds

/-- The kinds of the tokens of any number of statements. -/
inductive AreStatements : List Kind → Prop
  | nil : AreStatements []
  | cons {front back} (hfront : IsStatement front) (hback : AreStatements back) :
    AreStatements (front ++ back)

end

def statements : Language Kind := {kinds | AreStatements kinds}

def program : Language Kind := (only .newline)∗ * statements * only .endOfInput

section

variable {tokens : List Token} {l m : Language Kind}

abbrev kinds (tokens : List Token) : List Kind := tokens.map (·.kind)

@[simp] theorem kinds_mem_only {kind : Kind} :
    kinds tokens ∈ only kind ↔ ∃ token, tokens = [token] ∧ token.kind = kind := by
  change kinds tokens = [kind] ↔ _
  simp [kinds, List.map_eq_singleton_iff]

@[simp] theorem kinds_mem_word {keyword : Keyword} :
    kinds tokens ∈ word keyword ↔ ∃ token, tokens = [token] ∧ token.kind = .keyword keyword :=
  kinds_mem_only

theorem kinds_mem_mul :
    kinds tokens ∈ l * m ↔ ∃ front back, tokens = front ++ back ∧ kinds front ∈ l ∧
      kinds back ∈ m := by
  constructor
  · intro h
    obtain ⟨a, ha, b, hb, heq⟩ := Language.mem_mul.mp h
    obtain ⟨front, back, rfl, rfl, rfl⟩ := List.map_eq_append_iff.mp heq.symm
    exact ⟨front, back, rfl, ha, hb⟩
  · rintro ⟨front, back, rfl, hfront, hback⟩
    rw [kinds, List.map_append]
    exact Language.append_mem_mul hfront hback

theorem append_mem_kstar {a b : List Kind} (ha : a ∈ l) (hb : b ∈ l∗) : a ++ b ∈ l∗ := by
  obtain ⟨pieces, rfl, hpieces⟩ := Language.mem_kstar.mp hb
  have hall : ∀ piece ∈ a :: pieces, piece ∈ l := by
    intro piece hpiece
    rcases List.mem_cons.mp hpiece with rfl | hmem
    · exact ha
    · exact hpieces piece hmem
  exact Language.join_mem_kstar hall

theorem kinds_mem_kstar_newline :
    kinds tokens ∈ (only .newline)∗ ↔ ∀ token ∈ tokens, token.kind = .newline := by
  constructor
  · intro h token htoken
    obtain ⟨pieces, hpieces, hall⟩ := Language.mem_kstar.mp h
    have hmem : token.kind ∈ pieces.flatten := by
      rw [← hpieces]
      exact List.mem_map_of_mem htoken
    obtain ⟨piece, hpiece, hkind⟩ := List.mem_flatten.mp hmem
    have hpiece' : piece = [.newline] := hall piece hpiece
    rw [hpiece'] at hkind
    simpa using hkind
  · intro h
    induction tokens with
    | nil => exact Language.nil_mem_kstar _
    | cons token rest ih =>
      have htoken : [token.kind] ∈ only .newline := by
        rw [h token List.mem_cons_self]
        rfl
      have hrest := ih fun t ht ↦ h t (List.mem_cons_of_mem _ ht)
      exact append_mem_kstar htoken hrest

theorem kinds_mem_lines : kinds tokens ∈ lines ↔ Source.IsLineEnd tokens := by
  rw [lines, kinds_mem_mul]
  constructor
  · rintro ⟨front, back, rfl, hfront, hback⟩
    obtain ⟨token, rfl, hkind⟩ := kinds_mem_only.mp hfront
    have hall := kinds_mem_kstar_newline.mp hback
    exact ⟨by simp, by simpa [hkind] using hall⟩
  · rintro ⟨hne, hall⟩
    cases tokens with
    | nil => exact absurd rfl hne
    | cons token rest =>
      refine ⟨[token], rest, rfl, ?_, ?_⟩
      · exact kinds_mem_only.mpr ⟨token, rfl, hall token List.mem_cons_self⟩
      · exact kinds_mem_kstar_newline.mpr fun t ht ↦ hall t (List.mem_cons_of_mem _ ht)

end

/-! ## Expressions -/

open Source

/-- A language holds the kinds of exactly the token lists that trees of a sort stand for. -/
def Describes {α : Type} (l : Language Kind) (derives : α → List Token → Prop) : Prop :=
  ∀ tokens, kinds tokens ∈ l ↔ ∃ tree, derives tree tokens

theorem describes_primary : Describes primary Primary.Derives := by
  intro tokens
  rw [primary, Language.mem_add, kinds_mem_only, kinds_mem_only]
  constructor
  · rintro (⟨token, rfl, hkind⟩ | ⟨token, rfl, hkind⟩)
    · exact ⟨.number token.spelling, token, rfl, hkind, rfl⟩
    · exact ⟨.named (Name.ofToken token), token, rfl, hkind, rfl⟩
  · rintro ⟨tree, h⟩
    obtain ⟨token, rfl, hnumber | hname⟩ := h.exists_token
    · exact Or.inl ⟨token, rfl, hnumber⟩
    · exact Or.inr ⟨token, rfl, hname⟩

theorem kinds_mem_sign {tokens : List Token} :
    kinds tokens ∈ sign ↔ ∃ (sign : Sign) (token : Token), tokens = [token] ∧
      token.kind = sign.kind := by
  rw [sign, Language.mem_add, kinds_mem_only, kinds_mem_only]
  constructor
  · rintro (⟨token, rfl, hkind⟩ | ⟨token, rfl, hkind⟩)
    · exact ⟨.plus, token, rfl, hkind⟩
    · exact ⟨.minus, token, rfl, hkind⟩
  · rintro ⟨sign, token, rfl, hkind⟩
    cases sign with
    | plus => exact Or.inl ⟨token, rfl, hkind⟩
    | minus => exact Or.inr ⟨token, rfl, hkind⟩

theorem kinds_mem_scaling {tokens : List Token} :
    kinds tokens ∈ only (.operator .times) + only (.operator .divide) ↔
      ∃ (scaling : Scaling) (token : Token), tokens = [token] ∧ token.kind = scaling.kind := by
  rw [Language.mem_add, kinds_mem_only, kinds_mem_only]
  constructor
  · rintro (⟨token, rfl, hkind⟩ | ⟨token, rfl, hkind⟩)
    · exact ⟨.times, token, rfl, hkind⟩
    · exact ⟨.divide, token, rfl, hkind⟩
  · rintro ⟨scaling, token, rfl, hkind⟩
    cases scaling with
    | times => exact Or.inl ⟨token, rfl, hkind⟩
    | divide => exact Or.inr ⟨token, rfl, hkind⟩

theorem kinds_mem_relation {tokens : List Token} :
    kinds tokens ∈ relation ↔
      ∃ (comparison : Comparison) (token : Token), tokens = [token] ∧
        token.kind = .comparison comparison := by
  simp only [relation, Language.mem_add, kinds_mem_only]
  constructor
  · rintro (((((h | h) | h) | h) | h) | h) <;> exact ⟨_, h⟩
  · rintro ⟨comparison, h⟩
    cases comparison <;> simp [h]

theorem describes_unary : Describes unary Signed.Derives := by
  intro tokens
  rw [unary, kinds_mem_mul]
  constructor
  · rintro ⟨front, back, rfl, hfront, hback⟩
    obtain ⟨tree, htree⟩ := (describes_primary back).mp hback
    rw [Language.mem_add] at hfront
    rcases hfront with hfront | hfront
    · have hnil : front = [] := List.map_eq_nil_iff.mp hfront
      rw [hnil, List.nil_append]
      exact ⟨⟨none, tree⟩, htree⟩
    · obtain ⟨sign, token, rfl, hkind⟩ := kinds_mem_sign.mp hfront
      exact ⟨⟨some sign, tree⟩, token, back, rfl, hkind, htree⟩
  · rintro ⟨⟨sign?, tree⟩, h⟩
    cases sign? with
    | none => exact ⟨[], tokens, rfl, Or.inl rfl, (describes_primary tokens).mpr ⟨tree, h⟩⟩
    | some sign =>
      obtain ⟨token, rest, rfl, hkind, htree⟩ := h
      refine ⟨[token], rest, rfl, Or.inr ?_, (describes_primary rest).mpr ⟨tree, htree⟩⟩
      exact kinds_mem_sign.mpr ⟨sign, token, rfl, hkind⟩

section

variable {ω α : Type} {kind : ω → Kind} {item : α → List Token → Prop} {l operators : Language Kind}

theorem describes_links (hitem : Describes l item)
    (hoperators : ∀ tokens, kinds tokens ∈ operators ↔
      ∃ (operator : ω) (token : Token), tokens = [token] ∧ token.kind = kind operator) :
    Describes (operators * l)∗ (LinksDerive kind item) := by
  intro tokens
  constructor
  · intro h
    obtain ⟨pieces, hpieces, hall⟩ := Language.mem_kstar.mp h
    clear h
    induction pieces generalizing tokens with
    | nil => exact ⟨[], List.map_eq_nil_iff.mp hpieces⟩
    | cons piece rest ih =>
      rw [List.flatten_cons] at hpieces
      obtain ⟨front, back, rfl, rfl, hback⟩ := List.map_eq_append_iff.mp hpieces
      obtain ⟨links, hlinks⟩ := ih back hback fun p hp ↦ hall p (List.mem_cons_of_mem _ hp)
      have hfront := hall (kinds front) List.mem_cons_self
      obtain ⟨first, middle, rfl, hfirst, hmiddle⟩ := kinds_mem_mul.mp hfront
      obtain ⟨operator, token, rfl, hkind⟩ := (hoperators first).mp hfirst
      obtain ⟨tree, htree⟩ := (hitem middle).mp hmiddle
      exact ⟨(operator, tree) :: links, token, middle, back, by simp, hkind, htree, hlinks⟩
  · rintro ⟨links, h⟩
    induction links generalizing tokens with
    | nil =>
      have htokens : tokens = [] := h
      rw [htokens]
      exact Language.nil_mem_kstar _
    | cons link rest ih =>
      obtain ⟨token, front, back, rfl, hkind, hfront, hback⟩ := h
      have hoperator := (hoperators [token]).mpr ⟨link.1, token, rfl, hkind⟩
      have hlink := Language.append_mem_mul hoperator ((hitem front).mpr ⟨link.2, hfront⟩)
      have hall := append_mem_kstar hlink (ih back hback)
      simpa [kinds] using hall

theorem describes_chain (hitem : Describes l item)
    (hoperators : ∀ tokens, kinds tokens ∈ operators ↔
      ∃ (operator : ω) (token : Token), tokens = [token] ∧ token.kind = kind operator) :
    Describes (l * (operators * l)∗) (Chain.DerivesBy kind item) := by
  intro tokens
  rw [kinds_mem_mul]
  constructor
  · rintro ⟨front, back, rfl, hfront, hback⟩
    obtain ⟨first, hfirst⟩ := (hitem front).mp hfront
    obtain ⟨links, hlinks⟩ := (describes_links hitem hoperators back).mp hback
    exact ⟨⟨first, links⟩, front, back, rfl, hfirst, hlinks⟩
  · rintro ⟨chain, front, back, rfl, hfirst, hlinks⟩
    exact ⟨front, back, rfl, (hitem front).mpr ⟨_, hfirst⟩,
      (describes_links hitem hoperators back).mpr ⟨_, hlinks⟩⟩

end

theorem describes_term : Describes term Term.Derives :=
  describes_chain describes_unary fun _ ↦ kinds_mem_scaling

theorem describes_expression : Describes expression Expression.Derives :=
  describes_chain describes_term fun _ ↦ kinds_mem_sign

theorem describes_comparison : Describes comparison Condition.Derives := by
  intro tokens
  rw [comparison, kinds_mem_mul]
  constructor
  · rintro ⟨front, back, rfl, hfront, hback⟩
    obtain ⟨first, hfirst⟩ := (describes_expression front).mp hfront
    obtain ⟨link, rest, rfl, hlink, hrest⟩ := kinds_mem_mul.mp hback
    obtain ⟨operator, second, rfl, hoperator, hsecond⟩ := kinds_mem_mul.mp hlink
    obtain ⟨comparison, token, rfl, hkind⟩ := kinds_mem_relation.mp hoperator
    obtain ⟨tree, htree⟩ := (describes_expression second).mp hsecond
    obtain ⟨links, hlinks⟩ := (describes_links describes_expression
      (fun _ ↦ kinds_mem_relation) rest).mp hrest
    refine ⟨⟨⟨first, (comparison, tree) :: links⟩, by simp⟩, front, token :: (second ++ rest), ?_⟩
    exact ⟨by simp, hfirst, token, second, rest, rfl, hkind, htree, hlinks⟩
  · rintro ⟨⟨⟨first, links⟩, hcompares⟩, front, back, rfl, hfirst, hlinks⟩
    refine ⟨front, back, rfl, (describes_expression front).mpr ⟨_, hfirst⟩, ?_⟩
    cases links with
    | nil => exact absurd rfl hcompares
    | cons link rest =>
      obtain ⟨token, second, others, rfl, hkind, hsecond, hothers⟩ := hlinks
      have hoperator := kinds_mem_relation.mpr ⟨link.1, token, rfl, hkind⟩
      have hlink := Language.append_mem_mul hoperator
        ((describes_expression second).mpr ⟨link.2, hsecond⟩)
      have hrest := (describes_links describes_expression (fun _ ↦ kinds_mem_relation) others).mpr
        ⟨rest, hothers⟩
      have hall := Language.append_mem_mul hlink hrest
      simpa [kinds] using hall

theorem kinds_mem_named {keyword : Keyword} {tokens : List Token} :
    kinds tokens ∈ word keyword * only .identifier ↔
      ∃ name, KeywordDerives keyword name tokens := by
  rw [kinds_mem_mul]
  constructor
  · rintro ⟨front, back, rfl, hfront, hback⟩
    obtain ⟨token, rfl, hkind⟩ := kinds_mem_word.mp hfront
    obtain ⟨token', rfl, hkind'⟩ := kinds_mem_only.mp hback
    exact ⟨Name.ofToken token', token, token', rfl, hkind, hkind', rfl⟩
  · rintro ⟨name, token, token', rfl, hkind, hkind', _⟩
    exact ⟨[token], [token'], rfl, kinds_mem_word.mpr ⟨token, rfl, hkind⟩,
      kinds_mem_only.mpr ⟨token', rfl, hkind'⟩⟩

/-- The kinds before the body of a block. -/
theorem kinds_mem_head {opening middle : Keyword} {tokens : List Token} :
    kinds tokens ∈ word opening * comparison * word middle * lines ↔
      ∃ first test second ends condition, tokens = first :: (test ++ second :: ends) ∧
        first.kind = .keyword opening ∧ Condition.Derives condition test ∧
        second.kind = .keyword middle ∧ IsLineEnd ends := by
  simp only [kinds_mem_mul, kinds_mem_word, kinds_mem_lines, describes_comparison _]
  constructor
  · rintro ⟨_, ends, rfl, ⟨_, _, rfl, ⟨_, test, rfl, ⟨first, rfl, hfirst⟩, condition, htest⟩,
      second, rfl, hsecond⟩, hends⟩
    exact ⟨first, test, second, ends, condition, by simp, hfirst, htest, hsecond, hends⟩
  · rintro ⟨first, test, second, ends, condition, rfl, hfirst, htest, hsecond, hends⟩
    exact ⟨first :: (test ++ [second]), ends, by simp, ⟨first :: test, [second], by simp,
      ⟨[first], test, rfl, ⟨first, rfl, hfirst⟩, condition, htest⟩, second, rfl, hsecond⟩, hends⟩

theorem kinds_mem_foot {closing : Keyword} {tokens : List Token} :
    kinds tokens ∈ word closing * lines ↔ ∃ token ends, tokens = token :: ends ∧
      token.kind = .keyword closing ∧ IsLineEnd ends := by
  simp only [kinds_mem_mul, kinds_mem_word, kinds_mem_lines]
  constructor
  · rintro ⟨_, ends, rfl, ⟨token, rfl, hkind⟩, hends⟩
    exact ⟨token, ends, rfl, hkind, hends⟩
  · rintro ⟨token, ends, rfl, hkind, hends⟩
    exact ⟨[token], ends, rfl, ⟨token, rfl, hkind⟩, hends⟩

theorem isStatement_block (form : BlockForm) {front body back : List Kind}
    (hfront : front ∈ word form.opening * comparison * word form.middle * lines)
    (hbody : AreStatements body) (hback : back ∈ word form.closing * lines) :
    IsStatement (front ++ body ++ back) := by
  cases form with
  | conditional => exact .conditional hfront hbody hback
  | loop => exact .loop hfront hbody hback

mutual

theorem isStatement_of_derivesFront : (statement : Statement) → {front ends : List Token} →
    statement.DerivesFront front → IsLineEnd ends → IsStatement (kinds (front ++ ends))
  | .printText text, front, ends, h, hends => by
    obtain ⟨word, token, rfl, hword, hkind, _⟩ := h
    apply IsStatement.print
    have hvalue : kinds [token] ∈ expression + only .string :=
      Or.inr (kinds_mem_only.mpr ⟨token, rfl, hkind⟩)
    have hfront := Language.append_mem_mul (kinds_mem_word.mpr ⟨word, rfl, hword⟩) hvalue
    simpa [kinds] using Language.append_mem_mul hfront (kinds_mem_lines.mpr hends)
  | .print value, front, ends, h, hends => by
    obtain ⟨word, rest, rfl, hword, hvalue⟩ := h
    apply IsStatement.print
    have hprinted : kinds rest ∈ expression + only .string :=
      Or.inl ((describes_expression rest).mpr ⟨value, hvalue⟩)
    have hfront := Language.append_mem_mul (kinds_mem_word.mpr ⟨word, rfl, hword⟩) hprinted
    simpa [kinds] using Language.append_mem_mul hfront (kinds_mem_lines.mpr hends)
  | .block form condition body, front, ends, h, hends => by
    obtain ⟨first, test, second, lines, inner, last, rfl, hfirst, htest, hsecond, hlines, hbody,
      hlast⟩ := h
    have hhead := kinds_mem_head.mpr ⟨first, test, second, lines, condition, rfl, hfirst, htest,
      hsecond, hlines⟩
    have hfoot := kinds_mem_foot.mpr ⟨last, ends, rfl, hlast, hends⟩
    have hinner := areStatements_of_derivesBody body hbody
    simpa [kinds] using isStatement_block form hhead hinner hfoot
  | .label name, front, ends, h, hends => by
    apply IsStatement.label
    rw [kinds, List.map_append]
    exact Language.append_mem_mul (kinds_mem_named.mpr ⟨name, h⟩) (kinds_mem_lines.mpr hends)
  | .jump target, front, ends, h, hends => by
    apply IsStatement.jump
    rw [kinds, List.map_append]
    exact Language.append_mem_mul (kinds_mem_named.mpr ⟨target, h⟩) (kinds_mem_lines.mpr hends)
  | .assign target value, front, ends, h, hends => by
    obtain ⟨names, sign, rest, rfl, hnames, hsign, hvalue⟩ := h
    apply IsStatement.assign
    have hfront := Language.append_mem_mul (kinds_mem_named.mpr ⟨target, hnames⟩)
      (kinds_mem_only.mpr ⟨sign, rfl, hsign⟩)
    have hvalues := Language.append_mem_mul hfront ((describes_expression rest).mpr ⟨value, hvalue⟩)
    simpa [kinds] using Language.append_mem_mul hvalues (kinds_mem_lines.mpr hends)
  | .input target, front, ends, h, hends => by
    apply IsStatement.input
    rw [kinds, List.map_append]
    exact Language.append_mem_mul (kinds_mem_named.mpr ⟨target, h⟩) (kinds_mem_lines.mpr hends)

theorem areStatements_of_derivesBody : (program : Program) → {tokens : List Token} →
    program.DerivesBody tokens → AreStatements (kinds tokens)
  | [], tokens, h => by
    have htokens : tokens = [] := h
    rw [htokens]
    exact .nil
  | statement :: rest, tokens, h => by
    obtain ⟨front, ends, back, rfl, hfront, hends, hback⟩ := h
    rw [← List.append_assoc, kinds, List.map_append]
    exact .cons (isStatement_of_derivesFront statement hfront hends)
      (areStatements_of_derivesBody rest hback)

end

/-- A statement that holds a block, read back from its kinds. -/
theorem exists_block (form : BlockForm) {front body back : List Kind}
    (hfront : front ∈ word form.opening * comparison * word form.middle * lines)
    (hbody : ∀ tokens, kinds tokens = body → ∃ program, Program.DerivesBody program tokens)
    (hback : back ∈ word form.closing * lines) (tokens : List Token)
    (heq : kinds tokens = front ++ body ++ back) :
    ∃ statement front ends, tokens = front ++ ends ∧ Statement.DerivesFront statement front ∧
      IsLineEnd ends := by
  obtain ⟨head, foot, rfl, hhead, rfl⟩ := List.map_eq_append_iff.mp heq
  obtain ⟨head, inner, rfl, rfl, hinner⟩ := List.map_eq_append_iff.mp hhead
  obtain ⟨first, test, second, lines, condition, rfl, hfirst, htest, hsecond, hlines⟩ :=
    kinds_mem_head.mp hfront
  obtain ⟨last, ends, rfl, hlast, hends⟩ := kinds_mem_foot.mp hback
  obtain ⟨program, hprogram⟩ := hbody inner hinner
  refine ⟨.block form condition program, first :: (test ++ second :: (lines ++ (inner ++ [last]))),
    ends, by simp, ?_, hends⟩
  exact ⟨first, test, second, lines, inner, last, rfl, hfirst, htest, hsecond, hlines, hprogram,
    hlast⟩

mutual

theorem exists_statement_of_isStatement : {words : List Kind} → IsStatement words →
    ∀ tokens, kinds tokens = words → ∃ statement front ends, tokens = front ++ ends ∧
      Statement.DerivesFront statement front ∧ IsLineEnd ends
  | _, .print h, tokens, heq => by
    subst heq
    obtain ⟨front, ends, rfl, hfront, hends⟩ := kinds_mem_mul.mp h
    obtain ⟨first, rest, rfl, hfirst, hrest⟩ := kinds_mem_mul.mp hfront
    obtain ⟨word, rfl, hword⟩ := kinds_mem_word.mp hfirst
    rcases hrest with hvalue | htext
    · obtain ⟨value, hvalue⟩ := (describes_expression rest).mp hvalue
      exact ⟨.print value, word :: rest, ends, rfl, ⟨word, rest, rfl, hword, hvalue⟩,
        kinds_mem_lines.mp hends⟩
    · obtain ⟨token, rfl, hkind⟩ := kinds_mem_only.mp htext
      exact ⟨.printText token.spelling, [word, token], ends, rfl,
        ⟨word, token, rfl, hword, hkind, rfl⟩, kinds_mem_lines.mp hends⟩
  | _, .conditional hfront hbody hback, tokens, heq =>
    exists_block .conditional hfront (exists_program_of_areStatements hbody) hback tokens heq
  | _, .loop hfront hbody hback, tokens, heq =>
    exists_block .loop hfront (exists_program_of_areStatements hbody) hback tokens heq
  | _, .label h, tokens, heq => by
    subst heq
    obtain ⟨front, ends, rfl, hfront, hends⟩ := kinds_mem_mul.mp h
    obtain ⟨name, hname⟩ := kinds_mem_named.mp hfront
    exact ⟨.label name, front, ends, rfl, hname, kinds_mem_lines.mp hends⟩
  | _, .jump h, tokens, heq => by
    subst heq
    obtain ⟨front, ends, rfl, hfront, hends⟩ := kinds_mem_mul.mp h
    obtain ⟨name, hname⟩ := kinds_mem_named.mp hfront
    exact ⟨.jump name, front, ends, rfl, hname, kinds_mem_lines.mp hends⟩
  | _, .assign h, tokens, heq => by
    subst heq
    obtain ⟨front, ends, rfl, hfront, hends⟩ := kinds_mem_mul.mp h
    obtain ⟨front, rest, rfl, hfront, hrest⟩ := kinds_mem_mul.mp hfront
    obtain ⟨names, middle, rfl, hnames, hmiddle⟩ := kinds_mem_mul.mp hfront
    obtain ⟨name, hname⟩ := kinds_mem_named.mp hnames
    obtain ⟨sign, rfl, hsign⟩ := kinds_mem_only.mp hmiddle
    obtain ⟨value, hvalue⟩ := (describes_expression rest).mp hrest
    exact ⟨.assign name value, names ++ [sign] ++ rest, ends, rfl,
      ⟨names, sign, rest, by simp, hname, hsign, hvalue⟩, kinds_mem_lines.mp hends⟩
  | _, .input h, tokens, heq => by
    subst heq
    obtain ⟨front, ends, rfl, hfront, hends⟩ := kinds_mem_mul.mp h
    obtain ⟨name, hname⟩ := kinds_mem_named.mp hfront
    exact ⟨.input name, front, ends, rfl, hname, kinds_mem_lines.mp hends⟩

theorem exists_program_of_areStatements : {words : List Kind} → AreStatements words →
    ∀ tokens, kinds tokens = words → ∃ program, Program.DerivesBody program tokens
  | _, .nil, tokens, heq => ⟨[], List.map_eq_nil_iff.mp heq⟩
  | _, .cons hfront hback, tokens, heq => by
    obtain ⟨first, rest, rfl, hfirst, hrest⟩ := List.map_eq_append_iff.mp heq
    obtain ⟨statement, front, ends, rfl, hstatement, hends⟩ :=
      exists_statement_of_isStatement hfront first hfirst
    obtain ⟨program, hprogram⟩ := exists_program_of_areStatements hback rest hrest
    exact ⟨statement :: program, front, ends, rest, by simp, hstatement, hends, hprogram⟩

end

/-- The kinds of a token list belong to the grammar exactly when the list is derived from a tree. -/
theorem mem_program_iff (tokens : List Token) :
    kinds tokens ∈ program ↔ ∃ tree : Program, tree.Derives tokens := by
  simp only [program, kinds_mem_mul, kinds_mem_kstar_newline, kinds_mem_only]
  constructor
  · rintro ⟨_, _, rfl, ⟨blank, body, rfl, hblank, hbody⟩, last, rfl, hlast⟩
    obtain ⟨tree, htree⟩ := exists_program_of_areStatements hbody body rfl
    exact ⟨tree, blank, body, last, by simp, hblank, htree, hlast⟩
  · rintro ⟨tree, blank, body, last, rfl, hblank, hbody, hlast⟩
    exact ⟨blank ++ body, [last], by simp, ⟨blank, body, rfl, hblank,
      areStatements_of_derivesBody tree hbody⟩, last, rfl, hlast⟩

end TeenyBasic.Grammar
