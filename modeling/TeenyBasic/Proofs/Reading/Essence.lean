import TeenyBasic.Proofs.Lexing.Layout
import TeenyBasic.Proofs.Reading.Expression

/-!
# The essence of a token list

Some of what a token list says has no bearing on the translation: where the tokens stand, how many
line ends separate two statements or precede the first one, and with how many zeros a number starts.
The essence of a token list leaves this out and keeps all else.

The main statement is `Program.Derives.essence_eq`: the essence is determined by the program that
the tokens form.
-/

namespace TeenyBasic

/-- What is kept of a token: its kind and its spelling. -/
abbrev Gist := Kind × String

/-- The gist of a token; numbers are spelled in their decimal form. -/
def Token.gist (token : Token) : Gist :=
  (token.kind, if token.kind = .number then Numeral.decimal token.spelling else token.spelling)

/-- Leaves one line end of each run of them. -/
def collapse : List Token → List Token
  | [] => []
  | token :: rest =>
    if token.kind = .newline ∧ rest.head?.map Token.kind = some .newline then collapse rest
    else token :: collapse rest

/-- The gists of tokens, without the line ends in front and with one for each run of others. -/
def essence (tokens : List Token) : List Gist :=
  (collapse (tokens.dropWhile (·.kind = .newline))).map Token.gist

theorem collapse_cons_of_ne {token : Token} (rest : List Token) (h : token.kind ≠ .newline) :
    collapse (token :: rest) = token :: collapse rest := by
  simp [collapse, h]

theorem collapse_append_of_ne {front : List Token} (rest : List Token)
    (h : ∀ token ∈ front, token.kind ≠ .newline) :
    collapse (front ++ rest) = front ++ collapse rest := by
  induction front with
  | nil => rfl
  | cons token front ih =>
    have hfront := ih fun other hother ↦ h other (List.mem_cons_of_mem _ hother)
    rw [List.cons_append, collapse_cons_of_ne _ (h token List.mem_cons_self), hfront,
      List.cons_append]

def keywordGist (keyword : Keyword) : Gist :=
  (.keyword keyword, keyword.spelling)

def lineGist : Gist :=
  (.newline, "\n")

section

variable {token : Token}

theorem Token.WellSpelled.gist_keyword {keyword : Keyword} (h : token.WellSpelled)
    (hkind : token.kind = .keyword keyword) : token.gist = keywordGist keyword := by
  have hspelling : token.spelling = keyword.spelling := by
    simpa [Token.WellSpelled, hkind] using h
  simp [Token.gist, keywordGist, hkind, hspelling]

theorem Token.WellSpelled.gist_operator {sign : Operator} (h : token.WellSpelled)
    (hkind : token.kind = .operator sign) : token.gist = (.operator sign, sign.symbol) := by
  simp [Token.gist, hkind, h.operator hkind]

theorem Token.WellSpelled.gist_newline (h : token.WellSpelled) (hkind : token.kind = .newline) :
    token.gist = lineGist := by
  have hspelling : token.spelling = "\n" := by
    simpa [Token.WellSpelled, hkind] using h
  simp [Token.gist, lineGist, hkind, hspelling]

theorem Token.WellSpelled.gist_endOfInput (h : token.WellSpelled)
    (hkind : token.kind = .endOfInput) : token.gist = (.endOfInput, "") := by
  have hspelling : token.spelling = "" := by
    simpa [Token.WellSpelled, hkind] using h
  simp [Token.gist, hkind, hspelling]

end

/-- The kind of operator or comparison with a given symbol. -/
def markKind : String → Kind
  | "=" => .operator .assign
  | "+" => .operator .plus
  | "-" => .operator .minus
  | "*" => .operator .times
  | "/" => .operator .divide
  | "==" => .comparison .equal
  | "!=" => .comparison .notEqual
  | "<" => .comparison .less
  | "<=" => .comparison .lessOrEqual
  | ">" => .comparison .greater
  | ">=" => .comparison .greaterOrEqual
  | _ => .endOfInput

/-- The gist of the token that is written as a token of C in an expression. -/
def C.Token.gist : C.Token → Gist
  | .word spelling => (.identifier, spelling)
  | .number spelling => (.number, spelling)
  | .mark symbol => (markKind symbol, symbol)
  | .literal _ _ body => (.string, body)

theorem gist_toC {token : Token} (h : token.WellSpelled)
    (hkind : Source.inExpression token.kind = true) : token.toC.gist = token.gist := by
  obtain ⟨kind, spelling, location⟩ := token
  cases kind with
  | number => rfl
  | identifier => rfl
  | operator sign =>
    obtain rfl : spelling = sign.symbol := h
    cases sign <;> rfl
  | comparison sign =>
    obtain rfl : spelling = sign.symbol := h
    cases sign <;> rfl
  | _ => cases hkind

namespace Source

def Name.gist (name : Name) : Gist :=
  (.identifier, name.spelling)

def Expression.gists (expression : Expression) : List Gist :=
  (Expression.cTokens expression).map C.Token.gist

def Condition.gists (condition : Condition) : List Gist :=
  condition.cTokens.map C.Token.gist

mutual

/-- The gists of the tokens of a statement before the end of its last line. -/
def Statement.gists : Statement → List Gist
  | .printText text => [keywordGist .PRINT, (.string, text)]
  | .print value => keywordGist .PRINT :: Expression.gists value
  | .block form condition body =>
    keywordGist form.opening :: (condition.gists ++ keywordGist form.middle :: lineGist ::
      (Program.gists body ++ [keywordGist form.closing]))
  | .label name => [keywordGist .LABEL, name.gist]
  | .jump target => [keywordGist .GOTO, target.gist]
  | .assign target value =>
    keywordGist .LET :: target.gist :: (.operator .assign, "=") :: Expression.gists value
  | .input target => [keywordGist .INPUT, target.gist]

def Program.gists : Program → List Gist
  | [] => []
  | statement :: rest => statement.gists ++ lineGist :: Program.gists rest

end

theorem AreOperands.ne_newline {tokens : List Token} (h : AreOperands tokens) :
    ∀ token ∈ tokens, token.kind ≠ .newline := by
  intro token htoken hkind
  have hoperand := h token htoken
  rw [hkind] at hoperand
  cases hoperand

section

variable {tokens : List Token}

/-- The gists of tokens that stand in an expression are told by what they are in C. -/
theorem collapse_operands {cTokens : List C.Token} (hoperands : AreOperands tokens)
    (hspelled : ∀ token ∈ tokens, token.WellSpelled) (h : cTokens = tokens.map Token.toC)
    (rest : List Token) :
    (collapse (tokens ++ rest)).map Token.gist =
      cTokens.map C.Token.gist ++ (collapse rest).map Token.gist := by
  have hgists : cTokens.map C.Token.gist = tokens.map Token.gist := by
    rw [h, List.map_map]
    exact List.map_congr_left fun token htoken ↦
      gist_toC (hspelled token htoken) (hoperands token htoken)
  rw [collapse_append_of_ne rest hoperands.ne_newline, List.map_append, hgists]

theorem Expression.Derives.collapse_eq {value : Expression} (h : Expression.Derives value tokens)
    (hspelled : ∀ token ∈ tokens, token.WellSpelled) (rest : List Token) :
    (collapse (tokens ++ rest)).map Token.gist =
      Expression.gists value ++ (collapse rest).map Token.gist :=
  collapse_operands (Expression.Derives.areOperands h) hspelled
    (Expression.Derives.toC h hspelled).2 rest

theorem Condition.Derives.collapse_eq {condition : Condition} (h : condition.Derives tokens)
    (hspelled : ∀ token ∈ tokens, token.WellSpelled) (rest : List Token) :
    (collapse (tokens ++ rest)).map Token.gist =
      condition.gists ++ (collapse rest).map Token.gist :=
  collapse_operands (Condition.Derives.areOperands h) hspelled
    (Condition.Derives.toC h hspelled).2 rest

theorem collapse_keyword {token : Token} {keyword : Keyword} (h : token.WellSpelled)
    (hkind : token.kind = .keyword keyword) (rest : List Token) :
    (collapse (token :: rest)).map Token.gist =
      keywordGist keyword :: (collapse rest).map Token.gist := by
  rw [collapse_cons_of_ne rest (by simp [hkind]), List.map_cons, h.gist_keyword hkind]

theorem KeywordDerives.collapse_eq {keyword : Keyword} {name : Name}
    (h : KeywordDerives keyword name tokens) (hspelled : ∀ token ∈ tokens, token.WellSpelled)
    (rest : List Token) :
    (collapse (tokens ++ rest)).map Token.gist =
      keywordGist keyword :: name.gist :: (collapse rest).map Token.gist := by
  obtain ⟨word, token, rfl, hword, htoken, rfl⟩ := h
  have hname : token.gist = (Name.ofToken token).gist := by
    simp [Token.gist, Name.gist, Name.ofToken, htoken]
  rw [List.cons_append, collapse_keyword (hspelled word List.mem_cons_self) hword,
    List.cons_append, collapse_cons_of_ne _ (by simp [htoken]), List.map_cons, hname,
    List.nil_append]

theorem IsLineEnd.collapse_eq {rest : List Token} (h : IsLineEnd tokens)
    (hspelled : ∀ token ∈ tokens, token.WellSpelled) (hrest : Follows (· ≠ .newline) rest) :
    (collapse (tokens ++ rest)).map Token.gist = lineGist :: (collapse rest).map Token.gist := by
  obtain ⟨hne, hkinds⟩ := h
  induction tokens with
  | nil => exact absurd rfl hne
  | cons token tokens ih =>
    have hkind := hkinds token List.mem_cons_self
    cases tokens with
    | nil =>
      have hlast : rest.head?.map Token.kind ≠ some .newline := by
        intro hhead
        obtain ⟨next, hnext, hnewline⟩ := Option.map_eq_some_iff.mp hhead
        exact hrest next hnext hnewline
      have hgist := (hspelled token List.mem_cons_self).gist_newline hkind
      simp [collapse, hlast, hgist]
    | cons next tokens =>
      have hnext := hkinds next (by simp)
      have hothers := ih (fun t ht ↦ hspelled t (List.mem_cons_of_mem _ ht)) (by simp)
        fun t ht ↦ hkinds t (List.mem_cons_of_mem _ ht)
      rw [List.cons_append, collapse, if_pos ⟨hkind, by simp [hnext]⟩, hothers]

end

mutual

theorem Statement.DerivesFront.collapse_eq : {statement : Statement} → {tokens : List Token} →
    statement.DerivesFront tokens → (∀ token ∈ tokens, token.WellSpelled) → (rest : List Token) →
    (collapse (tokens ++ rest)).map Token.gist =
      statement.gists ++ (collapse rest).map Token.gist
  | .printText text, _, h, hspelled, rest => by
    obtain ⟨word, token, rfl, hword, htoken, rfl⟩ := h
    have htext : token.gist = (.string, token.spelling) := by simp [Token.gist, htoken]
    rw [List.cons_append, collapse_keyword (hspelled word (by simp)) hword, List.cons_append,
      collapse_cons_of_ne _ (by simp [htoken]), List.map_cons, htext]
    rfl
  | .print value, _, h, hspelled, rest => by
    obtain ⟨word, tokens, rfl, hword, hvalue⟩ := h
    have hrest := Expression.Derives.collapse_eq hvalue (fun t ht ↦ hspelled t (by simp [ht])) rest
    rw [List.cons_append, collapse_keyword (hspelled word (by simp)) hword, hrest]
    rfl
  | .block form condition body, _, h, hspelled, rest => by
    obtain ⟨opening, test, middle, ends, inner, closing, rfl, hopening, hcondition, hmiddle, hends,
      hbody, hclosing⟩ := h
    have hclosed : Follows EndsBody (closing :: rest) := by
      rw [follows_cons, hclosing]
      exact endsBody_closing form
    have htest := hcondition.collapse_eq (fun t ht ↦ hspelled t (by simp [ht]))
      (middle :: (ends ++ (inner ++ closing :: rest)))
    have hlines := hends.collapse_eq (fun t ht ↦ hspelled t (by simp [ht]))
      (hbody.follows hclosed)
    have hinner := Program.DerivesBody.collapse_eq hbody (fun t ht ↦ hspelled t (by simp [ht]))
      hclosed
    simp only [List.cons_append, List.append_assoc, List.nil_append, Statement.gists]
    rw [collapse_keyword (hspelled opening (by simp)) hopening, htest,
      collapse_keyword (hspelled middle (by simp)) hmiddle, hlines, hinner,
      collapse_keyword (hspelled closing (by simp)) hclosing]
  | .label name, _, h, hspelled, rest => KeywordDerives.collapse_eq h hspelled rest
  | .jump target, _, h, hspelled, rest => KeywordDerives.collapse_eq h hspelled rest
  | .assign target value, _, h, hspelled, rest => by
    obtain ⟨front, sign, back, rfl, htarget, hsign, hvalue⟩ := h
    have hfront := htarget.collapse_eq (fun t ht ↦ hspelled t (by simp [ht]))
      (sign :: (back ++ rest))
    have hback := Expression.Derives.collapse_eq hvalue (fun t ht ↦ hspelled t (by simp [ht])) rest
    rw [List.append_assoc, List.cons_append, hfront, collapse_cons_of_ne _ (by simp [hsign]),
      List.map_cons, (hspelled sign (by simp)).gist_operator hsign, hback]
    rfl
  | .input target, _, h, hspelled, rest => KeywordDerives.collapse_eq h hspelled rest

theorem Program.DerivesBody.collapse_eq : {program : Program} → {tokens : List Token} →
    program.DerivesBody tokens → (∀ token ∈ tokens, token.WellSpelled) → {rest : List Token} →
    Follows EndsBody rest →
    (collapse (tokens ++ rest)).map Token.gist = program.gists ++ (collapse rest).map Token.gist
  | [], _, h, _, rest, _ => by
    have htokens : _ = [] := h
    rw [htokens]
    rfl
  | statement :: program, _, h, hspelled, rest, hrest => by
    obtain ⟨front, ends, back, rfl, hfront, hends, hback⟩ := h
    have hfirst := Statement.DerivesFront.collapse_eq hfront
      (fun t ht ↦ hspelled t (by simp [ht])) (ends ++ (back ++ rest))
    have hlines := hends.collapse_eq (fun t ht ↦ hspelled t (by simp [ht])) (hback.follows hrest)
    have hothers := Program.DerivesBody.collapse_eq hback (fun t ht ↦ hspelled t (by simp [ht]))
      hrest
    rw [List.append_assoc, List.append_assoc, hfirst, hlines, hothers, Program.gists,
      List.append_assoc, List.cons_append]

end

theorem Program.Derives.essence_eq {program : Program} {tokens : List Token}
    (h : program.Derives tokens) (hspelled : ∀ token ∈ tokens, token.WellSpelled) :
    essence tokens = program.gists ++ [(.endOfInput, "")] := by
  obtain ⟨blank, body, last, rfl, hblank, hbody, hlast⟩ := h
  have hend : Follows EndsBody [last] := by
    rw [follows_cons, hlast]
    exact endsBody_endOfInput
  have hdrop : (blank ++ (body ++ [last])).dropWhile (·.kind = .newline) = body ++ [last] := by
    apply Lexeme.dropWhile_append_of_stops
    · simpa using hblank
    · intro token htoken
      exact decide_eq_false (hbody.follows hend token htoken)
  have hcollapse := hbody.collapse_eq (fun t ht ↦ hspelled t (by simp [ht])) hend
  rw [essence, hdrop, hcollapse, collapse_cons_of_ne _ (by simp [hlast]), List.map_cons,
    (hspelled last (by simp)).gist_endOfInput hlast]
  rfl

end Source

end TeenyBasic
