import TeenyBasic.Proofs.CLanguage.Expression
import TeenyBasic.Proofs.Generation.Conformance
import TeenyBasic.Proofs.Lexing.Stream

/-!
# How C reads expressions

The text of an expression is the spellings of its tokens without separators, apart from a space
between equal signs. C divides it into the same tokens, because no token runs into the next one, and
gives an expression without comparisons the tree that its chains stand for.
-/

namespace TeenyBasic

/-- The token of C that stands for a token of an expression. -/
def Token.toC (token : Token) : C.Token :=
  match token.kind with
  | .number => .number (Numeral.decimal token.spelling)
  | .identifier => .word token.spelling
  | _ => .mark token.spelling

namespace Source

open C (Reads Stops isApart)

def Primary.cToken : Primary → C.Token
  | .number spelling => .number (Numeral.decimal spelling)
  | .named name => .word name.spelling

def Signed.cTokens (signed : Signed) : List C.Token :=
  (signed.sign.map fun sign ↦ .mark sign.operator.symbol).toList ++ [signed.primary.cToken]

section

variable {ω α : Type}

def Chain.items (chain : Chain ω α) : List α :=
  chain.first :: chain.rest.map Prod.snd

def Chain.cTokensBy (symbol : ω → String) (item : α → List C.Token) (chain : Chain ω α) :
    List C.Token :=
  item chain.first ++ chain.rest.flatMap fun link ↦ .mark (symbol link.1) :: item link.2

/-- The tree of a chain, which groups from left to right. -/
def Chain.cTreeBy (symbol : ω → String) (item : α → C.Tree) (chain : Chain ω α) : C.Tree :=
  chain.rest.foldl (fun left link ↦ .binary (symbol link.1) left (item link.2)) (item chain.first)

end

def Term.cTokens (term : Term) : List C.Token :=
  term.cTokensBy (·.operator.symbol) Signed.cTokens

def Expression.cTokens (expression : Expression) : List C.Token :=
  expression.cTokensBy (·.operator.symbol) Term.cTokens

def Condition.cTokens (condition : Condition) : List C.Token :=
  condition.chain.cTokensBy (·.symbol) Expression.cTokens

def Primary.cTree : Primary → C.Tree
  | .number spelling => .constant (Numeral.decimal spelling)
  | .named name => .named name.spelling

def Signed.cTree : Signed → C.Tree
  | ⟨none, primary⟩ => primary.cTree
  | ⟨some sign, primary⟩ => .unary sign.operator.symbol primary.cTree

def Term.cTree (term : Term) : C.Tree :=
  term.cTreeBy (·.operator.symbol) Signed.cTree

def Expression.cTree (expression : Expression) : C.Tree :=
  expression.cTreeBy (·.operator.symbol) Term.cTree

/-- A number is spelled as a numeral and a name as a word. -/
def Primary.IsSpelled : Primary → Prop
  | .number spelling => Lexeme.IsNumeral spelling.toList
  | .named name => Lexeme.IsWord name.spelling.toList

def Term.IsSpelled (term : Term) : Prop :=
  ∀ signed ∈ term.items, signed.primary.IsSpelled

def Expression.IsSpelled (expression : Expression) : Prop :=
  ∀ term ∈ expression.items, Term.IsSpelled term

def Condition.IsSpelled (condition : Condition) : Prop :=
  ∀ expression ∈ condition.chain.items, Expression.IsSpelled expression

theorem Primary.exists_head {primary : Primary} (h : primary.IsSpelled) :
    ∃ c tail, primary.text.toList = c :: tail ∧ c.isAlphanum = true := by
  cases primary with
  | number spelling =>
    obtain ⟨c, tail, hchars, hc, _⟩ := Lexeme.exists_digit_of_isNumeral (isNumeral_decimalChars h)
    exact ⟨c, tail, by rw [Primary.text, Numeral.decimal, String.toList_ofList, hchars],
      by simp [Char.isAlphanum, hc]⟩
  | named name =>
    obtain ⟨c, tail, hchars, hc, _⟩ := h
    exact ⟨c, tail, hchars, Lexeme.isAlphanum_of_isAlpha hc⟩

theorem Primary.reads {primary : Primary} {rest : List Char} (h : primary.IsSpelled)
    (hrest : Stops rest) : Reads primary.text.toList [primary.cToken] rest := by
  cases primary with
  | number spelling =>
    have hread := C.reads_number (isNumeral_decimalChars h) hrest
    simpa [Primary.text, Primary.cToken, Numeral.decimal] using hread
  | named name =>
    have hread := C.reads_word h hrest
    simpa [Primary.text, Primary.cToken] using hread

/-- The first character of an operand is its sign, or else a letter or a digit. -/
def StartsWith : Option Sign → Char → Prop
  | none, c => c.isAlphanum = true
  | some .plus, c => c = '+'
  | some .minus, c => c = '-'

theorem Signed.exists_head {signed : Signed} (h : signed.primary.IsSpelled) :
    ∃ c tail, signed.text.toList = c :: tail ∧ StartsWith signed.sign c := by
  obtain ⟨sign, primary⟩ := signed
  cases sign with
  | none => exact Primary.exists_head h
  | some sign =>
    cases sign with
    | plus => exact ⟨'+', primary.text.toList, String.toList_append, rfl⟩
    | minus => exact ⟨'-', primary.text.toList, String.toList_append, rfl⟩

/-- The characters that an operand starts with: letters, digits and signs. -/
def IsOperandStart (c : Char) : Prop := c.isAlphanum = true ∨ c = '+' ∨ c = '-'

theorem StartsWith.isOperandStart {sign : Option Sign} {c : Char} (h : StartsWith sign c) :
    IsOperandStart c := by
  cases sign with
  | none => exact Or.inl h
  | some sign =>
    cases sign with
    | plus => exact Or.inr (Or.inl h)
    | minus => exact Or.inr (Or.inr h)

theorem Signed.exists_operandStart {signed : Signed} (h : signed.primary.IsSpelled) :
    ∃ c tail, signed.text.toList = c :: tail ∧ IsOperandStart c := by
  obtain ⟨c, tail, htext, hc⟩ := Signed.exists_head h
  exact ⟨c, tail, htext, hc.isOperandStart⟩

/-- The operators that C reads on their own in front of any operand. -/
def looseMarks : List String := ["*", "/", "==", "!=", "<", "<=", ">", ">="]

theorem looseMarks_apart : ∀ mark ∈ looseMarks, mark ∈ C.marks ∧
    mark.toList.head? ≠ some '.' ∧ isApart mark '+' = true ∧ isApart mark '-' = true := by
  decide

theorem reads_looseMark {mark : String} {text rest : List Char} (hmark : mark ∈ looseMarks)
    (htext : ∃ c tail, text = c :: tail ∧ IsOperandStart c) :
    Reads mark.toList [.mark mark] (text ++ rest) := by
  obtain ⟨hmem, hpoint, hplus, hminus⟩ := looseMarks_apart mark hmark
  obtain ⟨c, tail, rfl, hc⟩ := htext
  apply C.reads_mark hmem hpoint
  intro d hd
  obtain rfl : c = d := by simpa using hd
  rcases hc with hc | rfl | rfl
  · exact C.isApart_of_isAlphanum hc
  · exact hplus
  · exact hminus

theorem reads_sign (sign : Sign) {c : Char} {rest : List Char}
    (h : isApart sign.operator.symbol c = true) :
    Reads sign.operator.symbol.toList [.mark sign.operator.symbol] (c :: rest) := by
  have hmark : sign.operator.symbol ∈ C.marks ∧
      sign.operator.symbol.toList.head? ≠ some '.' := by
    cases sign <;> decide
  apply C.reads_mark hmark.1 hmark.2
  intro d hd
  obtain rfl : c = d := by simpa using hd
  exact h

theorem Signed.reads {signed : Signed} {rest : List Char} (h : signed.primary.IsSpelled)
    (hrest : Stops rest) : Reads signed.text.toList signed.cTokens rest := by
  obtain ⟨sign, primary⟩ := signed
  have hprimary := Primary.reads h hrest
  cases sign with
  | none => exact hprimary
  | some sign =>
    obtain ⟨c, tail, htext, hc⟩ := Primary.exists_head h
    have hsign : Reads sign.operator.symbol.toList [.mark sign.operator.symbol]
        (primary.text.toList ++ rest) := by
      rw [htext]
      exact reads_sign sign (C.isApart_of_isAlphanum hc)
    have hboth := hsign.append hprimary
    rw [← String.toList_append] at hboth
    exact hboth

section

variable {ω α : Type} {item : α → String} {operator : ω → α → String} {symbol : ω → String}
  {cItem : α → List C.Token}

/-- The items of a chain and the operators between them are read one after the other, if each is
read on its own. -/
theorem Chain.reads {chain : Chain ω α} {rest : List Char}
    (hitem : ∀ a ∈ chain.items, ∀ rest, Stops rest → Reads (item a).toList (cItem a) rest)
    (hoperator : ∀ link ∈ chain.rest, ∀ rest, Reads (operator link.1 link.2).toList
      [.mark (symbol link.1)] ((item link.2).toList ++ rest))
    (hstops : ∀ link ∈ chain.rest, ∀ rest, Stops ((operator link.1 link.2).toList ++ rest))
    (hrest : Stops rest) :
    Reads (chain.textBy item operator).toList (chain.cTokensBy symbol cItem) rest := by
  obtain ⟨first, links⟩ := chain
  have hlinks : Reads (String.join (links.map fun link ↦
        operator link.1 link.2 ++ item link.2)).toList
        (links.flatMap fun link ↦ .mark (symbol link.1) :: cItem link.2) rest ∧
      Stops ((String.join (links.map fun link ↦
        operator link.1 link.2 ++ item link.2)).toList ++ rest) := by
    induction links with
    | nil => exact ⟨by simpa using C.reads_nil rest, by simpa using hrest⟩
    | cons link links ih =>
      obtain ⟨htail, htailStops⟩ := ih
        (fun a ha ↦ hitem a (by simp only [Chain.items, List.map_cons, List.mem_cons] at ha ⊢; tauto))
        (fun l hl ↦ hoperator l (List.mem_cons_of_mem _ hl))
        (fun l hl ↦ hstops l (List.mem_cons_of_mem _ hl))
      have hoperand := hitem link.2 (by simp [Chain.items]) _ htailStops
      have hpair := ((hoperator link List.mem_cons_self _).append hoperand).append htail
      have hstop := hstops link List.mem_cons_self
      constructor
      · simpa using hpair
      · simpa using hstop _
  have hfirst := hitem first (by simp [Chain.items]) _ hlinks.2
  have hboth := hfirst.append hlinks.1
  rw [← String.toList_append] at hboth
  exact hboth

end

theorem looseMark_scaling (scaling : Scaling) : scaling.operator.symbol ∈ looseMarks := by
  cases scaling <;> decide

theorem looseMark_comparison (comparison : Comparison) : comparison.symbol ∈ looseMarks := by
  cases comparison <;> decide

theorem stops_looseMark {mark : String} (hmark : mark ∈ looseMarks) (rest : List Char) :
    Stops (mark.toList ++ rest) := by
  obtain ⟨hmem, hpoint, _⟩ := looseMarks_apart mark hmark
  exact C.stops_mark hmem hpoint rest

theorem Term.reads {term : Term} {rest : List Char} (h : Term.IsSpelled term)
    (hrest : Stops rest) : Reads (Term.text term).toList (Term.cTokens term) rest := by
  apply Chain.reads _ _ _ hrest
  · intro signed hsigned rest hrest
    exact Signed.reads (h signed hsigned) hrest
  · intro link hlink rest
    have hspelled := h link.2 (List.mem_cons_of_mem _ (List.mem_map_of_mem hlink))
    exact reads_looseMark (looseMark_scaling link.1) (Signed.exists_operandStart hspelled)
  · intro link _ rest
    exact stops_looseMark (looseMark_scaling link.1) rest

theorem Term.exists_head {term : Term} (h : Term.IsSpelled term) :
    ∃ c tail, (Term.text term).toList = c :: tail ∧ StartsWith term.first.sign c := by
  obtain ⟨c, tail, htext, hc⟩ := Signed.exists_head (h term.first List.mem_cons_self)
  rw [Term.text, Chain.textBy, String.toList_append, htext]
  exact ⟨c, _, rfl, hc⟩

/-- A sign between two terms is read on its own, since a space follows it where the second term
starts with an equal sign. -/
theorem Sign.reads_textBefore {sign : Sign} {term : Term} (h : Term.IsSpelled term)
    (rest : List Char) :
    Reads (sign.textBefore term).toList [.mark sign.operator.symbol]
      ((Term.text term).toList ++ rest) := by
  obtain ⟨c, tail, htext, hc⟩ := Term.exists_head h
  unfold Sign.textBefore
  rw [htext]
  split
  · have hapart : isApart sign.operator.symbol ' ' = true := by cases sign <;> decide
    have hsign : Reads sign.operator.symbol.toList [.mark sign.operator.symbol]
        (' ' :: (c :: tail ++ rest)) := reads_sign sign hapart
    have hspace := C.reads_blank (c := ' ') rfl (c :: tail ++ rest)
    rw [String.toList_append]
    exact hsign.append hspace
  · rename_i hne
    rw [String.append_empty]
    apply reads_sign sign
    cases hfirst : term.first.sign with
    | none =>
      rw [hfirst] at hc
      exact C.isApart_of_isAlphanum hc
    | some other =>
      rw [hfirst] at hc hne
      cases sign <;> cases other <;> first | exact absurd rfl hne | (subst hc; decide)

theorem Sign.stops_textBefore (sign : Sign) (term : Term) (rest : List Char) :
    Stops ((sign.textBefore term).toList ++ rest) := by
  unfold Sign.textBefore
  rw [String.toList_append, List.append_assoc]
  apply C.stops_mark
  · cases sign <;> decide
  · cases sign <;> decide

theorem Expression.reads {expression : Expression} {rest : List Char}
    (h : Expression.IsSpelled expression) (hrest : Stops rest) :
    Reads (Expression.text expression).toList (Expression.cTokens expression) rest := by
  apply Chain.reads _ _ _ hrest
  · intro term hterm rest hrest
    exact Term.reads (h term hterm) hrest
  · intro link hlink rest
    have hspelled := h link.2 (List.mem_cons_of_mem _ (List.mem_map_of_mem hlink))
    exact Sign.reads_textBefore hspelled rest
  · intro link _ rest
    exact Sign.stops_textBefore link.1 link.2 rest

theorem Expression.exists_operandStart {expression : Expression}
    (h : Expression.IsSpelled expression) :
    ∃ c tail, (Expression.text expression).toList = c :: tail ∧ IsOperandStart c := by
  have hfirst := h expression.first List.mem_cons_self
  obtain ⟨c, tail, htext, hc⟩ := Signed.exists_operandStart (hfirst _ List.mem_cons_self)
  rw [Expression.text, Chain.textBy, String.toList_append, Term.text, Chain.textBy,
    String.toList_append, htext]
  exact ⟨c, _, rfl, hc⟩

theorem Condition.reads {condition : Condition} {rest : List Char} (h : condition.IsSpelled)
    (hrest : Stops rest) : Reads condition.text.toList condition.cTokens rest := by
  apply Chain.reads _ _ _ hrest
  · intro expression hexpression rest hrest
    exact Expression.reads (h expression hexpression) hrest
  · intro link hlink rest
    have hspelled := h link.2 (List.mem_cons_of_mem _ (List.mem_map_of_mem hlink))
    exact reads_looseMark (looseMark_comparison link.1) (Expression.exists_operandStart hspelled)
  · intro link _ rest
    exact stops_looseMark (looseMark_comparison link.1) rest

theorem Primary.Derives.toC {primary : Primary} {tokens : List Token} (h : primary.Derives tokens)
    (hspelled : ∀ token ∈ tokens, token.WellSpelled) :
    primary.IsSpelled ∧ [primary.cToken] = tokens.map Token.toC := by
  cases primary with
  | number spelling =>
    obtain ⟨token, rfl, hkind, rfl⟩ := h
    have hnumeral := (hspelled token List.mem_cons_self).number hkind
    exact ⟨hnumeral, by simp [Primary.cToken, Token.toC, hkind]⟩
  | named name =>
    obtain ⟨token, rfl, hkind, rfl⟩ := h
    have hword := (hspelled token List.mem_cons_self).identifier hkind
    exact ⟨hword, by simp [Primary.cToken, Token.toC, hkind, Name.ofToken]⟩

theorem toC_of_operator {token : Token} {operator : Operator} (h : token.WellSpelled)
    (hkind : token.kind = .operator operator) : token.toC = .mark operator.symbol := by
  simp [Token.toC, hkind, h.operator hkind]

theorem toC_of_comparison {token : Token} {comparison : Comparison} (h : token.WellSpelled)
    (hkind : token.kind = .comparison comparison) : token.toC = .mark comparison.symbol := by
  simp [Token.toC, hkind, h.comparison hkind]

theorem Signed.Derives.toC {signed : Signed} {tokens : List Token} (h : signed.Derives tokens)
    (hspelled : ∀ token ∈ tokens, token.WellSpelled) :
    signed.primary.IsSpelled ∧ signed.cTokens = tokens.map Token.toC := by
  obtain ⟨sign, primary⟩ := signed
  cases sign with
  | none => exact Primary.Derives.toC h hspelled
  | some sign =>
    obtain ⟨token, rest, rfl, hkind, hprimary⟩ := h
    have hsign := toC_of_operator (hspelled token List.mem_cons_self) hkind
    obtain ⟨hnumeral, hrest⟩ :=
      Primary.Derives.toC hprimary fun t ht ↦ hspelled t (List.mem_cons_of_mem _ ht)
    constructor
    · exact hnumeral
    · rw [List.map_cons, ← hrest, hsign]
      rfl

section

variable {ω α : Type} {kind : ω → Kind} {item : α → List Token → Prop} {symbol : ω → String}
  {cItem : α → List C.Token} {spelled : α → Prop}

theorem LinksDerive.toC {links : List (ω × α)} {tokens : List Token}
    (h : LinksDerive kind item links tokens) (hspelled : ∀ token ∈ tokens, token.WellSpelled)
    (hitem : ∀ a tokens, item a tokens → (∀ token ∈ tokens, token.WellSpelled) →
      spelled a ∧ cItem a = tokens.map Token.toC)
    (hoperator : ∀ operator (token : Token), token.WellSpelled → token.kind = kind operator →
      token.toC = .mark (symbol operator)) :
    (∀ link ∈ links, spelled link.2) ∧
      (links.flatMap fun link ↦ .mark (symbol link.1) :: cItem link.2) =
        tokens.map Token.toC := by
  induction links generalizing tokens with
  | nil =>
    have htokens : tokens = [] := h
    simp [htokens]
  | cons link links ih =>
    obtain ⟨token, front, back, rfl, hkind, hlink, hlinks⟩ := h
    have hmark := hoperator _ token (hspelled token List.mem_cons_self) hkind
    obtain ⟨hsecond, hfront⟩ := hitem _ _ hlink fun t ht ↦ hspelled t (by simp [ht])
    obtain ⟨hothers, hback⟩ := ih hlinks fun t ht ↦ hspelled t (by simp [ht])
    constructor
    · intro other hother
      rcases List.mem_cons.mp hother with rfl | hother
      · exact hsecond
      · exact hothers other hother
    · simp [hmark, hfront, hback]

/-- The tokens of a chain are those of its items and operators. -/
theorem Chain.DerivesBy.toC {chain : Chain ω α} {tokens : List Token}
    (h : chain.DerivesBy kind item tokens) (hspelled : ∀ token ∈ tokens, token.WellSpelled)
    (hitem : ∀ a tokens, item a tokens → (∀ token ∈ tokens, token.WellSpelled) →
      spelled a ∧ cItem a = tokens.map Token.toC)
    (hoperator : ∀ operator (token : Token), token.WellSpelled → token.kind = kind operator →
      token.toC = .mark (symbol operator)) :
    (∀ a ∈ chain.items, spelled a) ∧ chain.cTokensBy symbol cItem = tokens.map Token.toC := by
  obtain ⟨front, back, rfl, hfirst, hlinks⟩ := h
  obtain ⟨hhead, hfront⟩ := hitem _ _ hfirst fun token htoken ↦
    hspelled token (List.mem_append_left _ htoken)
  obtain ⟨hothers, hback⟩ := hlinks.toC
    (fun token htoken ↦ hspelled token (List.mem_append_right _ htoken)) hitem hoperator
  constructor
  · intro a ha
    rcases List.mem_cons.mp ha with rfl | ha
    · exact hhead
    · obtain ⟨link, hlink, rfl⟩ := List.mem_map.mp ha
      exact hothers link hlink
  · rw [List.map_append, ← hfront, ← hback]
    rfl

end

theorem Term.Derives.toC {term : Term} {tokens : List Token} (h : Term.Derives term tokens)
    (hspelled : ∀ token ∈ tokens, token.WellSpelled) :
    Term.IsSpelled term ∧ Term.cTokens term = tokens.map Token.toC :=
  Chain.DerivesBy.toC h hspelled (fun _ _ ↦ Signed.Derives.toC) fun _ _ ↦ toC_of_operator

theorem Expression.Derives.toC {expression : Expression} {tokens : List Token}
    (h : Expression.Derives expression tokens) (hspelled : ∀ token ∈ tokens, token.WellSpelled) :
    Expression.IsSpelled expression ∧ Expression.cTokens expression = tokens.map Token.toC :=
  Chain.DerivesBy.toC h hspelled (fun _ _ ↦ Term.Derives.toC) fun _ _ ↦ toC_of_operator

theorem Condition.Derives.toC {condition : Condition} {tokens : List Token}
    (h : condition.Derives tokens) (hspelled : ∀ token ∈ tokens, token.WellSpelled) :
    condition.IsSpelled ∧ condition.cTokens = tokens.map Token.toC :=
  Chain.DerivesBy.toC h hspelled (fun _ _ ↦ Expression.Derives.toC) fun _ _ ↦ toC_of_comparison

/-! ## Trees -/

/-- A chain of operators of one level is read as the tree that groups from left to right. -/
theorem Chain.cDerives {ω α : Type} {symbol : ω → String} {cItem : α → List C.Token}
    {itemTree : α → C.Tree} {level : Nat} {chain : Chain ω α}
    (hsymbol : ∀ operator, C.binaryLevel? (symbol operator) = some level)
    (hlevel : level < C.Level.primary)
    (hitem : ∀ a ∈ chain.items, C.Derives (level + 1) (cItem a) (itemTree a)) :
    C.Derives level (chain.cTokensBy symbol cItem) (chain.cTreeBy symbol itemTree) := by
  obtain ⟨first, links⟩ := chain
  have hextend : ∀ (links : List (ω × α)) (tokens : List C.Token) (tree : C.Tree),
      (∀ link ∈ links, C.Derives (level + 1) (cItem link.2) (itemTree link.2)) →
      C.Derives level tokens tree →
      C.Derives level
        (tokens ++ links.flatMap fun link ↦ .mark (symbol link.1) :: cItem link.2)
        (links.foldl (fun left link ↦ .binary (symbol link.1) left (itemTree link.2)) tree) := by
    intro links
    induction links with
    | nil =>
      intro tokens tree _ htokens
      simpa using htokens
    | cons link links ih =>
      intro tokens tree hlinks htokens
      have hlink := hlinks link List.mem_cons_self
      have hnext := ih _ _ (fun l hl ↦ hlinks l (List.mem_cons_of_mem _ hl))
        (C.Derives.binary (hsymbol link.1) htokens hlink)
      simpa using hnext
  apply hextend
  · intro link hlink
    exact hitem link.2 (List.mem_cons_of_mem _ (List.mem_map_of_mem hlink))
  · exact C.Derives.higher hlevel (hitem first List.mem_cons_self)

/-- A word that is not reserved is no keyword of C: the keywords that are not reserved start with an
underscore. -/
theorem not_mem_keywords {name : String} (hword : Lexeme.IsWord name.toList)
    (hname : name ∉ Reserved.labelNames) : name ∉ C.keywords := by
  have hkeywords : ∀ keyword ∈ C.keywords,
      keyword ∈ Reserved.labelNames ∨ keyword.toList.head? = some '_' := by
    decide
  intro hmem
  rcases hkeywords name hmem with hreserved | hhead
  · exact hname hreserved
  · obtain ⟨first, rest, hchars, hfirst, _⟩ := hword
    rw [hchars] at hhead
    obtain rfl : first = '_' := by simpa using hhead
    revert hfirst
    decide

theorem Chain.unreserved {ω α : Type} {mentions : α → List Mention} {chain : Chain ω α}
    (h : Unreserved (chain.mentionsBy mentions)) : ∀ a ∈ chain.items, Unreserved (mentions a) := by
  intro a ha mention hmention
  apply h
  rw [Chain.mentionsBy, List.mem_append, List.mem_flatMap]
  rcases List.mem_cons.mp ha with rfl | ha
  · exact Or.inl hmention
  · obtain ⟨link, hlink, rfl⟩ := List.mem_map.mp ha
    exact Or.inr ⟨link, hlink, hmention⟩

theorem Primary.cDerives {primary : Primary} (h : primary.IsSpelled)
    (hnames : Unreserved primary.mentions) :
    C.Derives C.Level.primary [primary.cToken] primary.cTree := by
  cases primary with
  | number spelling =>
    obtain ⟨hvalue, _⟩ := constantValue?_decimalChars h
    apply C.Derives.constant
    rw [Numeral.decimal, String.toList_ofList]
    cases hkind : C.constantKind? (Numeral.decimalChars spelling.toList) with
    | none => simp [C.constantValue?, hkind] at hvalue
    | some kind => rfl
  | named name => exact C.Derives.named (not_mem_keywords h (hnames _ List.mem_cons_self))

theorem Signed.cDerives {signed : Signed} (h : signed.primary.IsSpelled)
    (hnames : Unreserved signed.mentions) :
    C.Derives C.Level.cast signed.cTokens signed.cTree := by
  obtain ⟨sign, primary⟩ := signed
  have hprimary : C.Derives C.Level.cast [primary.cToken] primary.cTree :=
    (Primary.cDerives h hnames).lower (by decide) (by decide)
  cases sign with
  | none => exact hprimary
  | some sign =>
    have hsign : sign.operator.symbol ∈ C.unaryOperators := by cases sign <;> decide
    exact C.Derives.higher (by decide) (C.Derives.unary hsign hprimary)

theorem Term.cDerives {term : Term} (h : Term.IsSpelled term)
    (hnames : Unreserved (Term.mentions term)) :
    C.Derives C.Level.multiplicative (Term.cTokens term) (Term.cTree term) := by
  apply Chain.cDerives
  · intro scaling
    cases scaling <;> rfl
  · decide
  · intro signed hsigned
    exact Signed.cDerives (h signed hsigned) (Chain.unreserved hnames signed hsigned)

theorem Expression.cDerives {expression : Expression} (h : Expression.IsSpelled expression)
    (hnames : Unreserved (Expression.mentions expression)) :
    C.Derives C.Level.additive (Expression.cTokens expression) (Expression.cTree expression) := by
  apply Chain.cDerives
  · intro sign
    cases sign <;> rfl
  · decide
  · intro term hterm
    exact Term.cDerives (h term hterm) (Chain.unreserved hnames term hterm)

theorem Chain.isPlain {ω α : Type} {symbol : ω → String} {cItem : α → List C.Token}
    {chain : Chain ω α} (hsymbol : ∀ operator, C.IsPlain (.mark (symbol operator)))
    (hitem : ∀ a, ∀ token ∈ cItem a, C.IsPlain token) :
    ∀ token ∈ chain.cTokensBy symbol cItem, C.IsPlain token := by
  intro token htoken
  rw [Chain.cTokensBy, List.mem_append, List.mem_flatMap] at htoken
  rcases htoken with hfirst | ⟨link, _, hlink⟩
  · exact hitem chain.first token hfirst
  · rcases List.mem_cons.mp hlink with rfl | hlink
    · exact hsymbol link.1
    · exact hitem link.2 token hlink

theorem Signed.isPlain (signed : Signed) : ∀ token ∈ signed.cTokens, C.IsPlain token := by
  have hprimary : C.IsPlain signed.primary.cToken := by
    cases signed.primary <;> trivial
  intro token htoken
  rw [Signed.cTokens, List.mem_append, List.mem_singleton, Option.mem_toList,
    Option.map_eq_some_iff] at htoken
  rcases htoken with ⟨sign, _, rfl⟩ | rfl
  · cases sign <;> decide
  · exact hprimary

theorem Expression.isPlain (expression : Expression) :
    ∀ token ∈ Expression.cTokens expression, C.IsPlain token := by
  apply Chain.isPlain
  · intro sign
    cases sign <;> decide
  · intro term
    apply Chain.isPlain
    · intro scaling
      cases scaling <;> decide
    · exact Signed.isPlain

/-- C reads an expression as its tree and in no other way. -/
theorem Expression.cDerives_iff {expression : Expression} (h : Expression.IsSpelled expression)
    (hnames : Unreserved (Expression.mentions expression)) (tree : C.Tree) :
    C.Derives C.Level.expression (Expression.cTokens expression) tree ↔
      tree = Expression.cTree expression := by
  have hderives := Expression.cDerives h hnames
  constructor
  · intro htree
    exact C.tree_eq_of_derives htree hderives (Expression.isPlain expression)
  · rintro rfl
    exact hderives.lower (by decide) (by decide)

end Source

/-! ## What a generator writes -/

open Source

/-- A generator in the middle of a source text: it looks at a token that was pulled from a cursor,
and its scope holds names that were entered one after another. -/
structure Generator.IsUnderway (state : Generator Cursor) : Prop where
  looks : ∃ before : Cursor, TokenSupply.pull before = .ok state.current state.supply
  names : ∃ mentions, Scope.empty.enterAll mentions = .ok state.scope

theorem isUnderway_begin {cursor : Cursor} {state : Generator Cursor}
    (h : Generator.begin cursor .empty = .ok state) : state.IsUnderway := by
  unfold Generator.begin at h
  split at h
  · rename_i hpull
    cases h
    exact ⟨⟨cursor, hpull⟩, ⟨[], rfl⟩⟩
  · cases h

/-- What a generator has written for the tokens it has moved past is divided by C into these
tokens, and the numbers among them are constants with the values that they had in the source. A
constant is decimal or floating, or the digit zero on its own. -/
structure Generator.ReadsBack (state : Generator Cursor) (tokens : List Token)
    (state' : Generator Cursor) : Prop where
  passes : Passes state.outlook tokens state'.outlook
  split_eq : ∃ text, state'.listing.body = state.listing.body ++ text ∧
    C.split text.toList = some (tokens.map Token.toC)
  constants : ∀ token ∈ tokens, token.kind = .number →
    C.constantValue? (Numeral.decimal token.spelling).toList =
        some (Numeral.value token.spelling.toList) ∧
      (C.constantKind? (Numeral.decimal token.spelling).toList = some .decimal ∨
        C.constantKind? (Numeral.decimal token.spelling).toList = some .floating ∨
        Numeral.decimal token.spelling = "0")

section

variable {setting : Setting} {state state' : Generator Cursor} {tokens : List Token}

theorem Generator.IsUnderway.wellSpelled {last : Outlook Cursor} (h : state.IsUnderway)
    (hpasses : Passes state.outlook tokens last) : ∀ token ∈ tokens, token.WellSpelled := by
  obtain ⟨before, hbefore⟩ := h.looks
  exact Cursor.wellSpelled_of_passes hpasses (Cursor.wellSpelled_of_next hbefore)

theorem readsBack_of_split {text : String} (h : state.IsUnderway)
    (hpasses : Passes state.outlook tokens state'.outlook)
    (hbody : state'.listing.body = state.listing.body ++ text)
    (hsplit : C.split text.toList = some (tokens.map Token.toC)) :
    state.ReadsBack tokens state' where
  passes := hpasses
  split_eq := ⟨text, hbody, hsplit⟩
  constants := by
    intro token htoken hkind
    have hnumeral := (h.wellSpelled hpasses token htoken).number hkind
    obtain ⟨hvalue, hkinds⟩ := constantValue?_decimalChars hnumeral
    have hchars : (Numeral.decimal token.spelling).toList =
        Numeral.decimalChars token.spelling.toList := String.toList_ofList
    rw [← String.toList_inj, hchars]
    exact ⟨hvalue, hkinds⟩

/-- A rule that conforms to a tree has the effect of the tree when it succeeds, and the names that
the tree mentions are not reserved. -/
theorem effect_of_conforms {step : Generate Cursor Unit} {last : Outlook Cursor} {text : String}
    {mentions : List Mention} (h : state.IsUnderway)
    (hconforms : Generate.Conforms step setting state tokens last text mentions)
    (hstep : step setting state = .ok () state') :
    state'.listing.body = state.listing.body ++ text ∧ Unreserved mentions := by
  unfold Generate.Conforms at hconforms
  cases henter : state.scope.enterAll mentions with
  | error objection =>
    rw [henter] at hconforms
    obtain ⟨_, hfail⟩ := hconforms
    rw [hfail] at hstep
    cases hstep
  | ok scope =>
    rw [henter] at hconforms
    obtain ⟨_, hok, heffect⟩ := hconforms
    rw [hok] at hstep
    cases hstep
    obtain ⟨entered, hentered⟩ := h.names
    have hall : Scope.empty.enterAll (entered ++ mentions) = .ok scope := by
      rw [Scope.enterAll_append_of_ok hentered, henter]
    have hunreserved := ((exists_enterAll_iff _).mp ⟨scope, hall⟩).unreserved
    exact ⟨heffect.body_eq, fun mention hmention ↦
      hunreserved mention (List.mem_append_right _ hmention)⟩

theorem isInner_of_inside (hspelled : ∀ token ∈ tokens, token.WellSpelled)
    (hinside : Inside tokens) : ∀ token ∈ tokens, token.IsInner :=
  fun token htoken ↦ ⟨hspelled token htoken, hinside token htoken⟩

/-- What is written for an expression or a comparison is read back by C as the tokens it was written
for, and an expression has the tree of its chains in C and no other. -/
theorem readsBack_of_accepted (setting : Setting) (state : Generator Cursor)
    (h : state.IsUnderway) :
    (∀ state', Generate.expression setting state = .ok () state' →
      ∃ (tree : Expression) (tokens : List Token), Expression.Derives tree tokens ∧
        state.ReadsBack tokens state' ∧
        ∀ reading, C.Derives C.Level.expression (tokens.map Token.toC) reading ↔
          reading = Expression.cTree tree) ∧
    (∀ state', Generate.comparison setting state = .ok () state' →
      ∃ (tree : Condition) (tokens : List Token), tree.Derives tokens ∧
        state.ReadsBack tokens state') := by
  constructor
  · intro state' hstep
    obtain ⟨tree, tokens, hderives, hcovers⟩ := Generate.exists_expression_of_expression hstep
    have hspelled := h.wellSpelled hcovers.passes
    obtain ⟨htree, htokens⟩ := Expression.Derives.toC hderives hspelled
    have hinner := isInner_of_inside hspelled (Expression.Derives.inside hderives)
    obtain ⟨hbody, hnames⟩ := effect_of_conforms h (Generate.conforms_expression hderives hinner
      hcovers.passes (Generate.endsExpression_of_expression hstep)) hstep
    have hsplit := (Expression.reads htree C.stops_nil).split_eq
    rw [htokens] at hsplit
    have hreading := Expression.cDerives_iff htree hnames
    rw [htokens] at hreading
    exact ⟨tree, tokens, hderives, readsBack_of_split h hcovers.passes hbody hsplit, hreading⟩
  · intro state' hstep
    obtain ⟨tree, tokens, hderives, hcovers⟩ := Generate.exists_condition_of_comparison hstep
    have hspelled := h.wellSpelled hcovers.passes
    obtain ⟨htree, htokens⟩ := Condition.Derives.toC hderives hspelled
    have hinner := isInner_of_inside hspelled (Condition.Derives.inside hderives)
    obtain ⟨hbody, _⟩ := effect_of_conforms h (Generate.conforms_comparison hderives hinner
      hcovers.passes (Generate.endsCondition_of_comparison hstep)) hstep
    have hsplit := (Condition.reads htree C.stops_nil).split_eq
    rw [htokens] at hsplit
    exact ⟨tree, tokens, hderives, readsBack_of_split h hcovers.passes hbody hsplit⟩

end

/-- Decides whether a source text starts with an expression for which a text is written. -/
def writesExpression (source text : String) : Bool :=
  match Generator.begin (Cursor.start "" source) .empty with
  | .ok state =>
    match Generate.expression ⟨source, 1, ""⟩ state with
    | .ok _ state' => state'.listing.body = text
    | .error _ _ => false
  | .error _ => false

theorem exists_run_of_writesExpression (source text : String)
    (h : writesExpression source text = true) :
    ∃ state state', state.IsUnderway ∧
      Generate.expression ⟨source, 1, ""⟩ state = .ok () state' ∧ state'.listing.body = text := by
  unfold writesExpression at h
  split at h
  · rename_i state hbegin
    split at h
    · rename_i state' hstep
      exact ⟨state, state', isUnderway_begin hbegin, hstep, by simpa using h⟩
    · cases h
  · cases h

/-- A sign behind the same operator, and a number with zeros in front. -/
theorem readsBack_of_accepted_signs : ∃ (state state' : Generator Cursor) (tokens : List Token),
    state.IsUnderway ∧ Generate.expression ⟨"1+ +02", 1, ""⟩ state = .ok () state' ∧
    state'.listing.body = "1+ +2" ∧ state.ReadsBack tokens state' := by
  obtain ⟨state, state', hunderway, hstep, hbody⟩ :=
    exists_run_of_writesExpression "1+ +02" "1+ +2" (by decide +kernel)
  obtain ⟨_, tokens, _, hreads, _⟩ := (readsBack_of_accepted _ state hunderway).1 state' hstep
  exact ⟨state, state', tokens, hunderway, hstep, hbody, hreads⟩

/-- The number zero is written as the digit zero, which is an octal constant. -/
theorem octal_of_zero : ∃ state state' : Generator Cursor,
    state.IsUnderway ∧ Generate.expression ⟨"0", 1, ""⟩ state = .ok () state' ∧
    state'.listing.body = "0" ∧ C.split "0".toList = some [.number "0"] ∧
    C.constantKind? "0".toList = some .octal := by
  obtain ⟨state, state', hunderway, hstep, hbody⟩ :=
    exists_run_of_writesExpression "0" "0" (by decide +kernel)
  have hnumeral : Lexeme.IsNumeral "0".toList := by
    left
    decide
  have hsplit := (C.reads_number hnumeral C.stops_nil).split_eq
  exact ⟨state, state', hunderway, hstep, hbody, hsplit, rfl⟩

end TeenyBasic
