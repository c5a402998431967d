import TeenyBasic.Proofs.Source.Tree

/-!
# Derivations

Which token lists a tree stands for. A phrase of the grammar fixes the kinds of its tokens and the
spellings of its names, numbers and strings; a statement is followed by one line end or more, and a
program may start with line ends of its own and stops with the end of the input.

The main statement is `Program.eq_of_derives`: a token list is derived from at most one program. It
rests on the fact that one token behind a phrase always shows where the phrase ends.
-/

namespace TeenyBasic.Source

/-- The name that a token spells. -/
def Name.ofToken (token : Token) : Name := ⟨token.spelling, token.location⟩

def Primary.Derives : Primary → List Token → Prop
  | .number spelling, tokens =>
    ∃ token, tokens = [token] ∧ token.kind = .number ∧ token.spelling = spelling
  | .named name, tokens =>
    ∃ token, tokens = [token] ∧ token.kind = .identifier ∧ Name.ofToken token = name

def Signed.Derives : Signed → List Token → Prop
  | ⟨none, primary⟩, tokens => primary.Derives tokens
  | ⟨some sign, primary⟩, tokens =>
    ∃ token rest, tokens = token :: rest ∧ token.kind = .operator sign.operator ∧
      primary.Derives rest

section

variable {ω α : Type}

/-- Operators with an item behind each of them. -/
def LinksDerive (kind : ω → Kind) (item : α → List Token → Prop) :
    List (ω × α) → List Token → Prop
  | [], tokens => tokens = []
  | (operator, a) :: rest, tokens =>
    ∃ token front back, tokens = token :: (front ++ back) ∧ token.kind = kind operator ∧
      item a front ∧ LinksDerive kind item rest back

/-- An item and the operators and items behind it. -/
def Chain.DerivesBy (kind : ω → Kind) (item : α → List Token → Prop) (chain : Chain ω α)
    (tokens : List Token) : Prop :=
  ∃ front back, tokens = front ++ back ∧ item chain.first front ∧
    LinksDerive kind item chain.rest back

end

def Scaling.kind (scaling : Scaling) : Kind := .operator scaling.operator

def Sign.kind (sign : Sign) : Kind := .operator sign.operator

def Term.Derives (term : Term) : List Token → Prop :=
  term.DerivesBy Scaling.kind Signed.Derives

def Expression.Derives (expression : Expression) : List Token → Prop :=
  expression.DerivesBy Sign.kind Term.Derives

def Condition.Derives (condition : Condition) : List Token → Prop :=
  condition.chain.DerivesBy Kind.comparison Expression.Derives

/-- One line end or more. -/
def IsLineEnd (tokens : List Token) : Prop :=
  tokens ≠ [] ∧ ∀ token ∈ tokens, token.kind = .newline

/-- A keyword with a name behind it. -/
def KeywordDerives (keyword : Keyword) (name : Name) (tokens : List Token) : Prop :=
  ∃ word token, tokens = [word, token] ∧ word.kind = .keyword keyword ∧
    token.kind = .identifier ∧ Name.ofToken token = name

mutual

/-- The tokens of a statement before the end of its last line. -/
def Statement.DerivesFront : Statement → List Token → Prop
  | .printText text, tokens =>
    ∃ word token, tokens = [word, token] ∧ word.kind = .keyword .PRINT ∧
      token.kind = .string ∧ token.spelling = text
  | .print value, tokens =>
    ∃ word rest, tokens = word :: rest ∧ word.kind = .keyword .PRINT ∧
      Expression.Derives value rest
  | .block form condition body, tokens =>
    ∃ opening test middle ends inner closing,
      tokens = opening :: (test ++ middle :: (ends ++ (inner ++ [closing]))) ∧
      opening.kind = .keyword form.opening ∧ condition.Derives test ∧
      middle.kind = .keyword form.middle ∧ IsLineEnd ends ∧ Program.DerivesBody body inner ∧
      closing.kind = .keyword form.closing
  | .label name, tokens => KeywordDerives .LABEL name tokens
  | .jump target, tokens => KeywordDerives .GOTO target tokens
  | .assign target value, tokens =>
    ∃ front sign back, tokens = front ++ sign :: back ∧ KeywordDerives .LET target front ∧
      sign.kind = .operator .assign ∧ Expression.Derives value back
  | .input target, tokens => KeywordDerives .INPUT target tokens

/-- Statements, each with the end of its last line. -/
def Program.DerivesBody : Program → List Token → Prop
  | [], tokens => tokens = []
  | statement :: rest, tokens =>
    ∃ front ends back, tokens = front ++ (ends ++ back) ∧ statement.DerivesFront front ∧
      IsLineEnd ends ∧ Program.DerivesBody rest back

end

/-- The tokens of a whole program. -/
def Program.Derives (program : Program) (tokens : List Token) : Prop :=
  ∃ blank body last, tokens = blank ++ (body ++ [last]) ∧
    (∀ token ∈ blank, token.kind = .newline) ∧ program.DerivesBody body ∧
    last.kind = .endOfInput

/-- The token behind a phrase, if there is one, is of an allowed kind. -/
def Follows (allowed : Kind → Prop) (tokens : List Token) : Prop :=
  ∀ token ∈ tokens.head?, allowed token.kind

@[simp] theorem follows_cons {allowed : Kind → Prop} {token : Token} {tokens : List Token} :
    Follows allowed (token :: tokens) ↔ allowed token.kind := by
  simp [Follows]

theorem Follows.imp {allowed allowed' : Kind → Prop} {tokens : List Token}
    (h : Follows allowed tokens) (himp : ∀ kind, allowed kind → allowed' kind) :
    Follows allowed' tokens := by
  intro token htoken
  exact himp _ (h token htoken)

/-- What stands at the front of a token list, and how far it reaches, is determined as long as it is
followed by a token of an allowed kind. -/
def Determined {α : Type} (derives : α → List Token → Prop) (allowed : Kind → Prop) : Prop :=
  ∀ a b front front' back back', derives a front → derives b front' →
    front ++ back = front' ++ back' → Follows allowed back → Follows allowed back' →
    a = b ∧ front = front'

/-! ## Expressions -/

theorem primary_determined : Determined Primary.Derives fun _ ↦ True := by
  intro a b front front' back back' ha hb heq _ _
  cases a with
  | number spelling =>
    obtain ⟨token, rfl, hkind, hspelling⟩ := ha
    cases b with
    | number spelling' =>
      obtain ⟨token', rfl, _, hspelling'⟩ := hb
      obtain ⟨rfl, _⟩ : token = token' ∧ back = back' := by simpa using heq
      exact ⟨by rw [← hspelling, ← hspelling'], rfl⟩
    | named name =>
      obtain ⟨token', rfl, hkind', _⟩ := hb
      obtain ⟨rfl, _⟩ : token = token' ∧ back = back' := by simpa using heq
      rw [hkind] at hkind'
      cases hkind'
  | named name =>
    obtain ⟨token, rfl, hkind, hname⟩ := ha
    cases b with
    | number spelling' =>
      obtain ⟨token', rfl, hkind', _⟩ := hb
      obtain ⟨rfl, _⟩ : token = token' ∧ back = back' := by simpa using heq
      rw [hkind] at hkind'
      cases hkind'
    | named name' =>
      obtain ⟨token', rfl, _, hname'⟩ := hb
      obtain ⟨rfl, _⟩ : token = token' ∧ back = back' := by simpa using heq
      exact ⟨by rw [← hname, ← hname'], rfl⟩

theorem Primary.Derives.exists_token {primary : Primary} {tokens : List Token}
    (h : primary.Derives tokens) :
    ∃ token, tokens = [token] ∧ (token.kind = .number ∨ token.kind = .identifier) := by
  cases primary with
  | number spelling =>
    obtain ⟨token, htokens, hkind, _⟩ := h
    exact ⟨token, htokens, Or.inl hkind⟩
  | named name =>
    obtain ⟨token, htokens, hkind, _⟩ := h
    exact ⟨token, htokens, Or.inr hkind⟩

theorem Sign.operator_injective {a b : Sign} (h : a.operator = b.operator) : a = b := by
  cases a <;> cases b <;> simp_all [Sign.operator]

theorem Scaling.operator_injective {a b : Scaling} (h : a.operator = b.operator) : a = b := by
  cases a <;> cases b <;> simp_all [Scaling.operator]

theorem signed_determined : Determined Signed.Derives fun _ ↦ True := by
  intro a b front front' back back' ha hb heq _ _
  obtain ⟨sign, primary⟩ := a
  obtain ⟨sign', primary'⟩ := b
  cases sign with
  | none =>
    cases sign' with
    | none =>
      obtain ⟨hprimary, hfront⟩ := primary_determined _ _ _ _ _ _ ha hb heq
        (fun _ _ ↦ trivial) (fun _ _ ↦ trivial)
      exact ⟨by rw [hprimary], hfront⟩
    | some sign' =>
      obtain ⟨token, rfl, hkind⟩ := Primary.Derives.exists_token ha
      obtain ⟨token', rest', rfl, hkind', _⟩ := hb
      obtain ⟨rfl, _⟩ : token = token' ∧ back = rest' ++ back' := by simpa using heq
      simp [hkind'] at hkind
  | some sign =>
    obtain ⟨token, rest, rfl, hkind, hprimary⟩ := ha
    cases sign' with
    | none =>
      obtain ⟨token', rfl, hkind'⟩ := Primary.Derives.exists_token hb
      obtain ⟨rfl, _⟩ : token = token' ∧ rest ++ back = back' := by simpa using heq
      simp [hkind] at hkind'
    | some sign' =>
      obtain ⟨token', rest', rfl, hkind', hprimary'⟩ := hb
      obtain ⟨rfl, hrest⟩ : token = token' ∧ rest ++ back = rest' ++ back' := by simpa using heq
      obtain ⟨rfl, rfl⟩ := primary_determined _ _ _ _ _ _ hprimary hprimary' hrest
        (fun _ _ ↦ trivial) (fun _ _ ↦ trivial)
      have hsign : sign = sign' := by
        apply Sign.operator_injective
        simpa [hkind] using hkind'
      exact ⟨by rw [hsign], rfl⟩

section

variable {ω α : Type} {kind : ω → Kind} {item : α → List Token → Prop} {allowed : Kind → Prop}

theorem LinksDerive.follows {links : List (ω × α)} {tokens back : List Token}
    (h : LinksDerive kind item links tokens) (hoperator : ∀ operator, allowed (kind operator))
    (hback : Follows allowed back) : Follows allowed (tokens ++ back) := by
  cases links with
  | nil =>
    have htokens : tokens = [] := h
    rw [htokens]
    exact hback
  | cons link rest =>
    obtain ⟨token, front, tail, rfl, hkind, _⟩ := h
    rw [List.cons_append, follows_cons, hkind]
    exact hoperator link.1

theorem links_determined (hitem : Determined item allowed)
    (hinjective : ∀ {o o'}, kind o = kind o' → o = o')
    (hoperator : ∀ operator, allowed (kind operator)) :
    Determined (LinksDerive kind item) fun k ↦ allowed k ∧ ∀ operator, k ≠ kind operator := by
  intro a
  induction a with
  | nil =>
    intro b front front' back back' ha hb heq hback _
    have hfront : front = [] := ha
    cases b with
    | nil => exact ⟨rfl, hfront.trans (Eq.symm hb)⟩
    | cons link rest =>
      obtain ⟨token, _, _, rfl, hkind, _⟩ := hb
      rw [hfront, List.nil_append] at heq
      rw [heq, List.cons_append, follows_cons] at hback
      exact absurd hkind (hback.2 _)
  | cons link rest ih =>
    intro b front front' back back' ha hb heq hback hback'
    obtain ⟨token, middle, tail, rfl, hkind, hmiddle, htail⟩ := ha
    cases b with
    | nil =>
      have hfront' : front' = [] := hb
      rw [hfront', List.nil_append] at heq
      rw [← heq, List.cons_append, follows_cons] at hback'
      exact absurd hkind (hback'.2 _)
    | cons link' rest' =>
      obtain ⟨token', middle', tail', rfl, hkind', hmiddle', htail'⟩ := hb
      simp only [List.cons_append, List.cons.injEq, List.append_assoc] at heq
      obtain ⟨rfl, heq⟩ := heq
      have hlink : link.1 = link'.1 := by
        apply hinjective
        rw [← hkind, ← hkind']
      have hallowed := hback.imp fun _ h ↦ h.1
      have hallowed' := hback'.imp fun _ h ↦ h.1
      obtain ⟨hsnd, rfl⟩ := hitem _ _ _ _ _ _ hmiddle hmiddle' heq
        (htail.follows hoperator hallowed) (htail'.follows hoperator hallowed')
      have hrest := List.append_cancel_left heq
      obtain ⟨rfl, rfl⟩ := ih rest' tail tail' back back' htail htail' hrest hback hback'
      exact ⟨by rw [Prod.ext hlink hsnd], rfl⟩

theorem chain_determined (hitem : Determined item allowed)
    (hinjective : ∀ {o o'}, kind o = kind o' → o = o')
    (hoperator : ∀ operator, allowed (kind operator)) :
    Determined (Chain.DerivesBy kind item) fun k ↦ allowed k ∧ ∀ operator, k ≠ kind operator := by
  intro a b front front' back back' ha hb heq hback hback'
  obtain ⟨first, links, rfl, hfirst, hlinks⟩ := ha
  obtain ⟨first', links', rfl, hfirst', hlinks'⟩ := hb
  rw [List.append_assoc, List.append_assoc] at heq
  have hallowed := hback.imp fun _ h ↦ h.1
  have hallowed' := hback'.imp fun _ h ↦ h.1
  obtain ⟨hitems, rfl⟩ := hitem _ _ _ _ _ _ hfirst hfirst' heq
    (hlinks.follows hoperator hallowed) (hlinks'.follows hoperator hallowed')
  have hrest := List.append_cancel_left heq
  obtain ⟨hlinksEq, rfl⟩ := links_determined hitem hinjective hoperator _ _ _ _ _ _ hlinks hlinks'
    hrest hback hback'
  cases a
  cases b
  simp_all

end

theorem Scaling.kind_injective {a b : Scaling} (h : a.kind = b.kind) : a = b :=
  Scaling.operator_injective (Kind.operator.inj h)

theorem Sign.kind_injective {a b : Sign} (h : a.kind = b.kind) : a = b :=
  Sign.operator_injective (Kind.operator.inj h)

theorem Sign.kind_ne_scaling (sign : Sign) (scaling : Scaling) : sign.kind ≠ scaling.kind := by
  cases sign <;> cases scaling <;> simp [Sign.kind, Scaling.kind, Sign.operator, Scaling.operator]

/-- The kinds that cannot continue a term. -/
def EndsTerm (kind : Kind) : Prop := ∀ scaling : Scaling, kind ≠ scaling.kind

/-- The kinds that cannot continue an expression. -/
def EndsExpression (kind : Kind) : Prop := EndsTerm kind ∧ ∀ sign : Sign, kind ≠ sign.kind

/-- The kinds that cannot continue a condition. -/
def EndsCondition (kind : Kind) : Prop :=
  EndsExpression kind ∧ ∀ comparison : Comparison, kind ≠ .comparison comparison

theorem isAdditive_iff (kind : Kind) :
    kind.isAdditive = true ↔ ∃ sign : Sign, kind = sign.kind := by
  constructor
  · intro h
    unfold Kind.isAdditive at h
    split at h
    · exact ⟨.plus, rfl⟩
    · exact ⟨.minus, rfl⟩
    · cases h
  · rintro ⟨sign, rfl⟩
    cases sign <;> rfl

theorem isMultiplicative_iff (kind : Kind) :
    kind.isMultiplicative = true ↔ ∃ scaling : Scaling, kind = scaling.kind := by
  constructor
  · intro h
    unfold Kind.isMultiplicative at h
    split at h
    · exact ⟨.times, rfl⟩
    · exact ⟨.divide, rfl⟩
    · cases h
  · rintro ⟨scaling, rfl⟩
    cases scaling <;> rfl

theorem isComparison_iff (kind : Kind) :
    kind.isComparison = true ↔ ∃ comparison : Comparison, kind = .comparison comparison := by
  cases kind <;> simp [Kind.isComparison]

theorem EndsTerm.isMultiplicative_eq_false {kind : Kind} (h : EndsTerm kind) :
    kind.isMultiplicative = false := by
  rw [Bool.eq_false_iff]
  intro htrue
  obtain ⟨scaling, hscaling⟩ := (isMultiplicative_iff kind).mp htrue
  exact h scaling hscaling

theorem EndsExpression.isAdditive_eq_false {kind : Kind} (h : EndsExpression kind) :
    kind.isAdditive = false := by
  rw [Bool.eq_false_iff]
  intro htrue
  obtain ⟨sign, hsign⟩ := (isAdditive_iff kind).mp htrue
  exact h.2 sign hsign

theorem EndsCondition.isComparison_eq_false {kind : Kind} (h : EndsCondition kind) :
    kind.isComparison = false := by
  rw [Bool.eq_false_iff]
  intro htrue
  obtain ⟨comparison, hcomparison⟩ := (isComparison_iff kind).mp htrue
  exact h.2 comparison hcomparison

theorem Sign.endsTerm (sign : Sign) : EndsTerm sign.kind :=
  fun scaling ↦ sign.kind_ne_scaling scaling

theorem endsExpression_comparison (comparison : Comparison) :
    EndsExpression (.comparison comparison) := by
  constructor
  · intro scaling
    simp [Scaling.kind]
  · intro sign
    simp [Sign.kind]

theorem endsCondition_of_forall_ne {kind : Kind} (hoperator : ∀ operator, kind ≠ .operator operator)
    (hcomparison : ∀ comparison, kind ≠ .comparison comparison) : EndsCondition kind :=
  ⟨⟨fun scaling ↦ hoperator scaling.operator, fun sign ↦ hoperator sign.operator⟩, hcomparison⟩

theorem term_determined : Determined Term.Derives EndsTerm := by
  have hchain := chain_determined signed_determined Scaling.kind_injective (fun _ ↦ trivial)
  intro a b front front' back back' ha hb heq hback hback'
  exact hchain a b front front' back back' ha hb heq (hback.imp fun _ h ↦ ⟨trivial, h⟩)
    (hback'.imp fun _ h ↦ ⟨trivial, h⟩)

theorem expression_determined : Determined Expression.Derives EndsExpression :=
  chain_determined term_determined Sign.kind_injective Sign.endsTerm

theorem condition_determined : Determined Condition.Derives EndsCondition := by
  have hchain := chain_determined expression_determined Kind.comparison.inj
    endsExpression_comparison
  intro a b front front' back back' ha hb heq hback hback'
  obtain ⟨hchains, hfront⟩ := hchain a.chain b.chain front front' back back' ha hb heq hback hback'
  cases a
  cases b
  exact ⟨by simpa using hchains, hfront⟩

/-! ## Statements -/

/-- A run of line ends reaches up to the first other token. -/
theorem newlines_determined {front front' back back' : List Token}
    (hfront : ∀ token ∈ front, token.kind = .newline)
    (hfront' : ∀ token ∈ front', token.kind = .newline) (heq : front ++ back = front' ++ back')
    (hback : Follows (· ≠ .newline) back) (hback' : Follows (· ≠ .newline) back') :
    front = front' ∧ back = back' := by
  induction front generalizing front' with
  | nil =>
    cases front' with
    | nil => exact ⟨rfl, heq⟩
    | cons token rest =>
      rw [List.nil_append] at heq
      rw [heq, List.cons_append, follows_cons] at hback
      exact absurd (hfront' token List.mem_cons_self) hback
  | cons token rest ih =>
    cases front' with
    | nil =>
      rw [List.nil_append] at heq
      rw [← heq, List.cons_append, follows_cons] at hback'
      exact absurd (hfront token List.mem_cons_self) hback'
    | cons token' rest' =>
      obtain ⟨rfl, hrest⟩ : token = token' ∧ rest ++ back = rest' ++ back' := by simpa using heq
      have htail : ∀ token ∈ rest, token.kind = .newline :=
        fun t ht ↦ hfront t (List.mem_cons_of_mem _ ht)
      have htail' : ∀ token ∈ rest', token.kind = .newline :=
        fun t ht ↦ hfront' t (List.mem_cons_of_mem _ ht)
      obtain ⟨rfl, rfl⟩ := ih htail htail' hrest
      exact ⟨rfl, rfl⟩

theorem IsLineEnd.follows {tokens : List Token} (h : IsLineEnd tokens) (back : List Token) :
    Follows (· = .newline) (tokens ++ back) := by
  cases tokens with
  | nil => exact absurd rfl h.1
  | cons token rest =>
    rw [List.cons_append, follows_cons]
    exact h.2 token List.mem_cons_self

/-- The keyword that a statement starts with. -/
def Statement.keyword : Statement → Keyword
  | .printText _ | .print _ => .PRINT
  | .block form _ _ => form.opening
  | .label _ => .LABEL
  | .jump _ => .GOTO
  | .assign _ _ => .LET
  | .input _ => .INPUT

theorem Statement.DerivesFront.exists_keyword {statement : Statement} {tokens : List Token}
    (h : statement.DerivesFront tokens) :
    ∃ word rest, tokens = word :: rest ∧ word.kind = .keyword statement.keyword := by
  cases statement with
  | printText text =>
    obtain ⟨word, token, rfl, hword, _⟩ := h
    exact ⟨word, _, rfl, hword⟩
  | print value =>
    obtain ⟨word, rest, rfl, hword, _⟩ := h
    exact ⟨word, _, rfl, hword⟩
  | block form condition body =>
    obtain ⟨word, _, _, _, _, _, rfl, hword, _⟩ := h
    exact ⟨word, _, rfl, hword⟩
  | assign target value =>
    obtain ⟨front, sign, back, rfl, hfront, _⟩ := h
    obtain ⟨word, token, rfl, hword, _⟩ := hfront
    exact ⟨word, _, rfl, hword⟩
  | label name | jump name | input name =>
    obtain ⟨word, token, rfl, hword, _⟩ := h
    exact ⟨word, _, rfl, hword⟩

theorem keyword_determined {keyword : Keyword} {name name' : Name}
    {front front' back back' : List Token} (h : KeywordDerives keyword name front)
    (h' : KeywordDerives keyword name' front') (heq : front ++ back = front' ++ back') :
    name = name' ∧ front = front' ∧ back = back' := by
  obtain ⟨word, token, rfl, _, _, hname⟩ := h
  obtain ⟨word', token', rfl, _, _, hname'⟩ := h'
  simp only [List.cons_append, List.nil_append, List.cons.injEq] at heq
  obtain ⟨rfl, rfl, hback⟩ := heq
  exact ⟨hname.symm.trans hname', rfl, hback⟩

/-- The kinds that can stand behind the last statement of a block or of a program. -/
def EndsBody (kind : Kind) : Prop :=
  kind ≠ .newline ∧ ∀ statement : Statement, kind ≠ .keyword statement.keyword

theorem endsBody_closing (form : BlockForm) : EndsBody (.keyword form.closing) := by
  constructor
  · simp
  · intro statement
    cases statement with
    | block form' _ _ =>
      cases form <;> cases form' <;> simp [BlockForm.closing, BlockForm.opening, Statement.keyword]
    | _ => cases form <;> simp [BlockForm.closing, Statement.keyword]

theorem endsBody_endOfInput : EndsBody .endOfInput := by
  constructor <;> simp

theorem Program.DerivesBody.follows {program : Program} {tokens back : List Token}
    (h : program.DerivesBody tokens) (hback : Follows EndsBody back) :
    Follows (· ≠ .newline) (tokens ++ back) := by
  cases program with
  | nil =>
    have htokens : tokens = [] := h
    rw [htokens]
    exact hback.imp fun _ h ↦ h.1
  | cons statement rest =>
    obtain ⟨front, ends, tail, rfl, hfront, _⟩ := h
    obtain ⟨word, more, rfl, hword⟩ := hfront.exists_keyword
    rw [List.append_assoc, List.cons_append, follows_cons, hword]
    simp

theorem endsCondition_newline : EndsCondition .newline :=
  endsCondition_of_forall_ne (by simp) (by simp)

theorem endsCondition_keyword (keyword : Keyword) : EndsCondition (.keyword keyword) :=
  endsCondition_of_forall_ne (by simp) (by simp)

theorem Term.Derives.exists_head {term : Term} {tokens : List Token}
    (h : Term.Derives term tokens) :
    ∃ token rest, tokens = token :: rest ∧
      ∀ sign : Sign, token.kind = sign.kind ↔ term.first.sign = some sign := by
  obtain ⟨⟨sign, primary⟩, factors⟩ := term
  obtain ⟨front, back, rfl, hsigned, _⟩ := h
  cases sign with
  | none =>
    obtain ⟨token, rfl, hkind⟩ := Primary.Derives.exists_token hsigned
    have hsign : ∀ sign : Sign, token.kind = sign.kind ↔ none = some sign := by
      intro sign
      rcases hkind with hkind | hkind <;> simp [hkind, Sign.kind]
    exact ⟨token, back, rfl, hsign⟩
  | some sign =>
    obtain ⟨token, rest, rfl, hkind, _⟩ := hsigned
    have hsign : ∀ sign' : Sign, token.kind = sign'.kind ↔ some sign = some sign' := by
      intro sign'
      rw [hkind, Option.some.injEq]
      exact ⟨fun h ↦ Sign.kind_injective h, fun h ↦ by rw [h]; rfl⟩
    exact ⟨token, rest ++ back, rfl, hsign⟩

theorem not_string_of_derives {value : Expression} {tokens back rest : List Token} {token : Token}
    (h : Expression.Derives value tokens) (heq : tokens ++ back = token :: rest) :
    token.kind ≠ .string := by
  obtain ⟨⟨⟨sign, primary⟩, factors⟩, terms⟩ := value
  obtain ⟨front, links, rfl, hterm, _⟩ := h
  obtain ⟨front, links', rfl, hsigned, _⟩ := hterm
  cases sign with
  | none =>
    obtain ⟨token', rfl, hkind⟩ := Primary.Derives.exists_token hsigned
    obtain ⟨rfl, _⟩ : token' = token ∧ links' ++ (links ++ back) = rest := by simpa using heq
    intro hstring
    simp [hstring] at hkind
  | some sign =>
    obtain ⟨token', rest', rfl, hkind, _⟩ := hsigned
    obtain ⟨rfl, _⟩ : token' = token ∧ rest' ++ (links' ++ (links ++ back)) = rest := by
      simpa using heq
    simp [hkind]

/-- The body of a block is determined, and where it ends. -/
def BodyDetermined (a : Program) : Prop :=
  ∀ b front front' back back', a.DerivesBody front → Program.DerivesBody b front' →
    front ++ back = front' ++ back' → Follows EndsBody back → Follows EndsBody back' →
    a = b ∧ front = front'

/-- A statement is determined, and where its last line ends. -/
def FrontDetermined (a : Statement) : Prop :=
  ∀ b front front' back back', a.DerivesFront front → Statement.DerivesFront b front' →
    front ++ back = front' ++ back' → Follows (· = .newline) back →
    Follows (· = .newline) back' → a = b ∧ front = front'

theorem keyword_eq_of_append_eq {a b : Statement} {front front' back back' : List Token}
    (ha : a.DerivesFront front) (hb : b.DerivesFront front')
    (heq : front ++ back = front' ++ back') : a.keyword = b.keyword := by
  obtain ⟨word, rest, rfl, hword⟩ := ha.exists_keyword
  obtain ⟨word', rest', rfl, hword'⟩ := hb.exists_keyword
  have hwords : word = word' := by simpa using congrArg List.head? heq
  rw [hwords] at hword
  simpa [hword] using hword'

theorem endsExpression_of_newline {tokens : List Token} (h : Follows (· = .newline) tokens) :
    Follows EndsExpression tokens := by
  intro token htoken
  rw [h token htoken]
  exact endsCondition_newline.1

theorem frontDetermined_printText (text : String) : FrontDetermined (.printText text) := by
  intro b front front' back back' ha hb heq hback hback'
  have hkeyword := keyword_eq_of_append_eq ha hb heq
  obtain ⟨_, token, rfl, _, hkind, hspelling⟩ := ha
  cases b with
  | printText text' =>
    obtain ⟨_, token', rfl, _, _, hspelling'⟩ := hb
    simp only [List.cons_append, List.nil_append, List.cons.injEq] at heq
    obtain ⟨rfl, rfl, _⟩ := heq
    exact ⟨by rw [← hspelling, ← hspelling'], rfl⟩
  | print value =>
    obtain ⟨_, tail, rfl, _, hvalue⟩ := hb
    simp only [List.cons_append, List.nil_append, List.cons.injEq] at heq
    exact absurd hkind (not_string_of_derives hvalue heq.2.symm)
  | block form condition body => cases form <;> cases hkeyword
  | _ => cases hkeyword

theorem frontDetermined_print (value : Expression) : FrontDetermined (.print value) := by
  intro b front front' back back' ha hb heq hback hback'
  have hkeyword := keyword_eq_of_append_eq ha hb heq
  obtain ⟨_, tail, rfl, _, hvalue⟩ := ha
  cases b with
  | printText text =>
    obtain ⟨_, token, rfl, _, hkind, _⟩ := hb
    simp only [List.cons_append, List.nil_append, List.cons.injEq] at heq
    exact absurd hkind (not_string_of_derives hvalue heq.2)
  | print value' =>
    obtain ⟨_, tail', rfl, _, hvalue'⟩ := hb
    simp only [List.cons_append, List.cons.injEq] at heq
    obtain ⟨rfl, heq⟩ := heq
    obtain ⟨rfl, rfl⟩ := expression_determined _ _ _ _ _ _ hvalue hvalue' heq
      (endsExpression_of_newline hback) (endsExpression_of_newline hback')
    exact ⟨rfl, rfl⟩
  | block form condition body => cases form <;> cases hkeyword
  | _ => cases hkeyword

theorem frontDetermined_assign (target : Name) (value : Expression) :
    FrontDetermined (.assign target value) := by
  intro b front front' back back' ha hb heq hback hback'
  have hkeyword := keyword_eq_of_append_eq ha hb heq
  obtain ⟨names, sign, tail, rfl, hnames, _, hvalue⟩ := ha
  cases b with
  | assign target' value' =>
    obtain ⟨names', sign', tail', rfl, hnames', _, hvalue'⟩ := hb
    rw [List.append_assoc, List.append_assoc] at heq
    obtain ⟨rfl, rfl, hvalues⟩ := keyword_determined hnames hnames' heq
    simp only [List.cons_append, List.cons.injEq] at hvalues
    obtain ⟨rfl, hvalues⟩ := hvalues
    obtain ⟨rfl, rfl⟩ := expression_determined _ _ _ _ _ _ hvalue hvalue' hvalues
      (endsExpression_of_newline hback) (endsExpression_of_newline hback')
    exact ⟨rfl, rfl⟩
  | block form condition body => cases form <;> cases hkeyword
  | _ => cases hkeyword

theorem Statement.exists_name_of_keyword (statement : Statement) :
    (statement.keyword = .LABEL → ∃ name, statement = .label name) ∧
    (statement.keyword = .GOTO → ∃ target, statement = .jump target) ∧
    (statement.keyword = .INPUT → ∃ target, statement = .input target) := by
  cases statement with
  | block form condition body => cases form <;> simp [Statement.keyword, BlockForm.opening]
  | _ => simp [Statement.keyword]

theorem frontDetermined_of_keyword {keyword : Keyword} {make : Name → Statement} (name : Name)
    (hname : KeywordDerives keyword = fun name ↦ (make name).DerivesFront)
    (hform : ∀ b : Statement, b.keyword = (make name).keyword → ∃ name', b = make name') :
    FrontDetermined (make name) := by
  intro b front front' back back' ha hb heq _ _
  obtain ⟨name', rfl⟩ := hform b (keyword_eq_of_append_eq ha hb heq).symm
  have hfront : KeywordDerives keyword name front := by
    rw [hname]
    exact ha
  have hfront' : KeywordDerives keyword name' front' := by
    rw [hname]
    exact hb
  obtain ⟨rfl, rfl, _⟩ := keyword_determined hfront hfront' heq
  exact ⟨rfl, rfl⟩

theorem frontDetermined_label (name : Name) : FrontDetermined (.label name) :=
  frontDetermined_of_keyword name rfl fun b hb ↦ b.exists_name_of_keyword.1 hb

theorem frontDetermined_jump (target : Name) : FrontDetermined (.jump target) :=
  frontDetermined_of_keyword target rfl fun b hb ↦ b.exists_name_of_keyword.2.1 hb

theorem frontDetermined_input (target : Name) : FrontDetermined (.input target) :=
  frontDetermined_of_keyword target rfl fun b hb ↦ b.exists_name_of_keyword.2.2 hb

theorem follows_endsCondition {keyword : Keyword} {token : Token} {tokens : List Token}
    (h : token.kind = .keyword keyword) : Follows EndsCondition (token :: tokens) := by
  rw [follows_cons, h]
  exact endsCondition_keyword keyword

theorem follows_endsBody {form : BlockForm} {token : Token} {tokens : List Token}
    (h : token.kind = .keyword form.closing) : Follows EndsBody (token :: tokens) := by
  rw [follows_cons, h]
  exact endsBody_closing form

theorem frontDetermined_block (form : BlockForm) (condition : Condition) {body : Program}
    (hdetermined : BodyDetermined body) : FrontDetermined (.block form condition body) := by
  intro b front front' back back' ha hb heq hback hback'
  have hkeyword := keyword_eq_of_append_eq ha hb heq
  obtain ⟨_, test, middle, ends, inner, closing, rfl, _, htest, hmiddle, hends, hbody, hclosing⟩
    := ha
  cases b with
  | block form' condition' body' =>
    have hform : form = form' := by
      cases form <;> cases form' <;> simp_all [Statement.keyword, BlockForm.opening]
    subst hform
    obtain ⟨_, test', middle', ends', inner', closing', rfl, _, htest', hmiddle', hends', hbody',
      hclosing'⟩ := hb
    simp only [List.cons_append, List.append_assoc, List.nil_append, List.cons.injEq] at heq
    obtain ⟨rfl, heq⟩ := heq
    obtain ⟨rfl, rfl⟩ := condition_determined _ _ _ _ _ _ htest htest' heq
      (follows_endsCondition hmiddle) (follows_endsCondition hmiddle')
    have hrest := List.append_cancel_left heq
    simp only [List.cons.injEq] at hrest
    obtain ⟨rfl, hrest⟩ := hrest
    obtain ⟨rfl, hbodies⟩ := newlines_determined hends.2 hends'.2 hrest
      (hbody.follows (follows_endsBody hclosing)) (hbody'.follows (follows_endsBody hclosing'))
    obtain ⟨rfl, rfl⟩ := hdetermined _ _ _ _ _ hbody hbody' hbodies (follows_endsBody hclosing)
      (follows_endsBody hclosing')
    have hlast := List.append_cancel_left hbodies
    simp only [List.cons.injEq] at hlast
    obtain ⟨rfl, _⟩ := hlast
    exact ⟨rfl, rfl⟩
  | _ => cases form <;> cases hkeyword

theorem bodyDetermined_nil : BodyDetermined [] := by
  intro b front front' back back' ha hb heq hback _
  have hfront : front = [] := ha
  cases b with
  | nil => exact ⟨rfl, hfront.trans (Eq.symm hb)⟩
  | cons statement rest =>
    obtain ⟨line, ends, tail, rfl, hline, _⟩ := hb
    obtain ⟨word, more, rfl, hword⟩ := hline.exists_keyword
    rw [hfront, List.nil_append] at heq
    rw [heq, List.append_assoc, List.cons_append, follows_cons] at hback
    exact absurd hword (hback.2 statement)

theorem bodyDetermined_cons {statement : Statement} {rest : Program}
    (hstatement : FrontDetermined statement) (hrest : BodyDetermined rest) :
    BodyDetermined (statement :: rest) := by
  intro b front front' back back' ha hb heq hback hback'
  obtain ⟨line, ends, tail, rfl, hline, hends, htail⟩ := ha
  cases b with
  | nil =>
    have hfront' : front' = [] := hb
    obtain ⟨word, more, rfl, hword⟩ := hline.exists_keyword
    rw [hfront', List.nil_append] at heq
    rw [← heq, List.append_assoc, List.cons_append, follows_cons] at hback'
    exact absurd hword (hback'.2 statement)
  | cons statement' rest' =>
    obtain ⟨line', ends', tail', rfl, hline', hends', htail'⟩ := hb
    simp only [List.append_assoc] at heq
    obtain ⟨rfl, rfl⟩ := hstatement _ _ _ _ _ hline hline' heq (hends.follows _)
      (hends'.follows _)
    have hlines := List.append_cancel_left heq
    obtain ⟨rfl, htails⟩ := newlines_determined hends.2 hends'.2 hlines (htail.follows hback)
      (htail'.follows hback')
    obtain ⟨rfl, rfl⟩ := hrest _ _ _ _ _ htail htail' htails hback hback'
    exact ⟨rfl, rfl⟩

mutual

theorem Statement.frontDetermined : (statement : Statement) → FrontDetermined statement
  | .printText text => frontDetermined_printText text
  | .print value => frontDetermined_print value
  | .block form condition body => frontDetermined_block form condition (Program.bodyDetermined body)
  | .label name => frontDetermined_label name
  | .jump target => frontDetermined_jump target
  | .assign target value => frontDetermined_assign target value
  | .input target => frontDetermined_input target

theorem Program.bodyDetermined : (program : Program) → BodyDetermined program
  | [] => bodyDetermined_nil
  | statement :: rest => bodyDetermined_cons statement.frontDetermined (Program.bodyDetermined rest)

end

/-- A token list is derived from at most one program. -/
theorem Program.eq_of_derives {a b : Program} {tokens : List Token} (ha : a.Derives tokens)
    (hb : b.Derives tokens) : a = b := by
  obtain ⟨blank, body, last, rfl, hblank, hbody, hlast⟩ := ha
  obtain ⟨blank', body', last', heq, hblank', hbody', hlast'⟩ := hb
  have hend : ∀ {token : Token}, token.kind = .endOfInput → Follows EndsBody [token] := by
    intro token h
    rw [follows_cons, h]
    exact endsBody_endOfInput
  obtain ⟨_, hbodies⟩ := newlines_determined hblank hblank' heq (hbody.follows (hend hlast))
    (hbody'.follows (hend hlast'))
  obtain ⟨hprograms, _⟩ := a.bodyDetermined b _ _ _ _ hbody hbody' hbodies (hend hlast)
    (hend hlast')
  exact hprograms

/-- No token of a list is the end of the input. -/
def Inside (tokens : List Token) : Prop := ∀ token ∈ tokens, token.kind ≠ .endOfInput

@[simp] theorem inside_nil : Inside [] := by
  simp [Inside]

@[simp] theorem inside_cons {token : Token} {tokens : List Token} :
    Inside (token :: tokens) ↔ token.kind ≠ .endOfInput ∧ Inside tokens := by
  simp [Inside]

@[simp] theorem inside_append {a b : List Token} : Inside (a ++ b) ↔ Inside a ∧ Inside b := by
  simp only [Inside, List.mem_append]
  constructor
  · intro h
    exact ⟨fun t ht ↦ h t (Or.inl ht), fun t ht ↦ h t (Or.inr ht)⟩
  · rintro ⟨ha, hb⟩ t (ht | ht)
    · exact ha t ht
    · exact hb t ht

/-- Decides whether tokens of a kind stand in expressions and conditions. -/
def inExpression : Kind → Bool
  | .number | .identifier | .operator _ | .comparison _ => true
  | _ => false

/-- Every token of a list stands in expressions and conditions. -/
def AreOperands (tokens : List Token) : Prop := ∀ token ∈ tokens, inExpression token.kind = true

@[simp] theorem areOperands_nil : AreOperands [] := by
  simp [AreOperands]

@[simp] theorem areOperands_cons {token : Token} {tokens : List Token} :
    AreOperands (token :: tokens) ↔ inExpression token.kind = true ∧ AreOperands tokens := by
  simp [AreOperands]

@[simp] theorem areOperands_append {a b : List Token} :
    AreOperands (a ++ b) ↔ AreOperands a ∧ AreOperands b := by
  simp [AreOperands, or_imp, forall_and]

theorem AreOperands.inside {tokens : List Token} (h : AreOperands tokens) : Inside tokens := by
  intro token htoken hkind
  have hoperand := h token htoken
  rw [hkind] at hoperand
  cases hoperand

theorem Primary.Derives.areOperands {tree : Primary} {tokens : List Token}
    (h : tree.Derives tokens) : AreOperands tokens := by
  obtain ⟨token, rfl, hkind⟩ := h.exists_token
  rcases hkind with hkind | hkind <;> simp [hkind, inExpression]

theorem Signed.Derives.areOperands {tree : Signed} {tokens : List Token}
    (h : tree.Derives tokens) : AreOperands tokens := by
  obtain ⟨sign, primary⟩ := tree
  cases sign with
  | none => exact Primary.Derives.areOperands h
  | some sign =>
    obtain ⟨token, rest, rfl, hkind, hprimary⟩ := h
    simp [hkind, inExpression, Primary.Derives.areOperands hprimary]

theorem Chain.DerivesBy.areOperands {ω α : Type} {kind : ω → Kind}
    {item : α → List Token → Prop} (hkind : ∀ operator, inExpression (kind operator) = true)
    (hitem : ∀ {a tokens}, item a tokens → AreOperands tokens) {chain : Chain ω α}
    {tokens : List Token} (h : chain.DerivesBy kind item tokens) : AreOperands tokens := by
  have hlinks : ∀ links tokens, LinksDerive kind item links tokens → AreOperands tokens := by
    intro links
    induction links with
    | nil =>
      intro tokens h
      have htokens : tokens = [] := h
      simp [htokens]
    | cons link rest ih =>
      rintro tokens ⟨token, front, back, rfl, htoken, hfront, hback⟩
      simp [htoken, hkind, hitem hfront, ih back hback]
  obtain ⟨front, back, rfl, hfirst, hrest⟩ := h
  simp [hitem hfirst, hlinks _ _ hrest]

theorem Expression.Derives.areOperands {tree : Expression} {tokens : List Token}
    (h : tree.Derives tokens) : AreOperands tokens := by
  have hterm : ∀ {term : Term} {tokens}, Term.Derives term tokens → AreOperands tokens :=
    fun hterm ↦ Chain.DerivesBy.areOperands (fun _ ↦ rfl) Signed.Derives.areOperands hterm
  exact Chain.DerivesBy.areOperands (fun _ ↦ rfl) hterm h

theorem Condition.Derives.areOperands {tree : Condition} {tokens : List Token}
    (h : tree.Derives tokens) : AreOperands tokens :=
  Chain.DerivesBy.areOperands (fun _ ↦ rfl) Expression.Derives.areOperands h

theorem Expression.Derives.inside {tree : Expression} {tokens : List Token}
    (h : tree.Derives tokens) : Inside tokens :=
  (Expression.Derives.areOperands h).inside

theorem Condition.Derives.inside {tree : Condition} {tokens : List Token}
    (h : tree.Derives tokens) : Inside tokens :=
  (Condition.Derives.areOperands h).inside

theorem IsLineEnd.inside {tokens : List Token} (h : IsLineEnd tokens) : Inside tokens := by
  intro token htoken
  simp [h.2 token htoken]

theorem KeywordDerives.inside {keyword : Keyword} {name : Name} {tokens : List Token}
    (h : KeywordDerives keyword name tokens) : Inside tokens := by
  obtain ⟨word, token, rfl, hword, htoken, _⟩ := h
  simp [hword, htoken]

mutual

theorem Statement.DerivesFront.inside : {statement : Statement} → {tokens : List Token} →
    statement.DerivesFront tokens → Inside tokens
  | .printText _, _, h => by
    obtain ⟨word, token, rfl, hword, htoken, _⟩ := h
    simp [hword, htoken]
  | .print _, _, h => by
    obtain ⟨word, rest, rfl, hword, hvalue⟩ := h
    simp [hword, hvalue.inside]
  | .block _ _ _, _, h => by
    obtain ⟨opening, test, middle, ends, inner, closing, rfl, hopening, htest, hmiddle, hends,
      hinner, hclosing⟩ := h
    have hbody := Program.DerivesBody.inside hinner
    simp [hopening, htest.inside, hmiddle, hends.inside, hbody, hclosing]
  | .label _, _, h => KeywordDerives.inside h
  | .jump _, _, h => KeywordDerives.inside h
  | .assign _ _, _, h => by
    obtain ⟨front, sign, back, rfl, hfront, hsign, hvalue⟩ := h
    simp [hfront.inside, hsign, hvalue.inside]
  | .input _, _, h => KeywordDerives.inside h

theorem Program.DerivesBody.inside : {program : Program} → {tokens : List Token} →
    program.DerivesBody tokens → Inside tokens
  | [], _, h => by
    have htokens : _ = [] := h
    simp [htokens]
  | _ :: _, _, h => by
    obtain ⟨front, ends, back, rfl, hfront, hends, hback⟩ := h
    simp [Statement.DerivesFront.inside hfront, hends.inside, Program.DerivesBody.inside hback]

end

/-- Only the last token of a program is the end of the input. -/
theorem Program.Derives.inside {program : Program} {tokens : List Token} {last : Token}
    (h : program.Derives (tokens ++ [last])) : Inside tokens ∧ last.kind = .endOfInput := by
  obtain ⟨blank, body, final, htokens, hblank, hbody, hfinal⟩ := h
  rw [← List.append_assoc] at htokens
  obtain ⟨rfl, hback⟩ := List.append_inj' htokens rfl
  obtain rfl : last = final := by simpa using hback
  have hblank : Inside blank := fun token htoken ↦ by simp [hblank token htoken]
  simp [hblank, hbody.inside, hfinal]

end TeenyBasic.Source
