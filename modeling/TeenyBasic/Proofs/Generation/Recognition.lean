import TeenyBasic.Proofs.Generation.Passage
import TeenyBasic.Proofs.Source.Derivation
import TeenyBasic.Proofs.Source.Naming

/-!
# What a generator recognises

Whenever a rule of the generator succeeds, the tokens it has moved past are derived from a tree of
its sort, and the blocks of the tree keep to the limit on nesting. There is one lemma for each rule;
loops are handled once, by induction on the rounds granted to them, and blocks by induction on how
deep they may be nested.

The main statement is `exists_program_of_sourceText`.
-/

namespace TeenyBasic.Generate

open Source

variable {σ : Type} [TokenSupply σ] {setting : Setting} {state state' : Generator σ}

/-- From one state to another a generator has moved past a list of tokens, and as many blocks are
open as before. -/
structure Covers (state : Generator σ) (tokens : List Token) (state' : Generator σ) : Prop where
  passes : Passes state.outlook tokens state'.outlook
  depth_eq : state'.depth = state.depth

theorem Covers.append {middle : Generator σ} {tokens tokens' : List Token}
    (hfront : Covers state tokens middle) (hback : Covers middle tokens' state') :
    Covers state (tokens ++ tokens') state' :=
  ⟨hfront.passes.append hback.passes, hback.depth_eq.trans hfront.depth_eq⟩

theorem Covers.cons {middle : Generator σ} {token : Token} {tokens : List Token}
    (hfront : Covers state [token] middle) (hback : Covers middle tokens state') :
    Covers state (token :: tokens) state' :=
  hfront.append hback

theorem covers_nil (houtlook : state'.outlook = state.outlook)
    (hdepth : state'.depth = state.depth) :
    Covers state [] state' :=
  ⟨passes_nil_iff.mpr houtlook, hdepth⟩

theorem Covers.of_nil {middle : Generator σ} {tokens : List Token}
    (hfront : Covers state [] middle) (hback : Covers middle tokens state') :
    Covers state tokens state' :=
  hfront.append hback

theorem Covers.of_append_nil {middle : Generator σ} {tokens : List Token}
    (hfront : Covers state tokens middle) (hback : Covers middle [] state') :
    Covers state tokens state' := by
  simpa using hfront.append hback

theorem covers_of_write {text : String} {value : Unit}
    (h : write text setting state = .ok value state') : Covers state [] state' := by
  cases h
  exact covers_nil rfl rfl

theorem covers_of_writeLine {text : String} {value : Unit}
    (h : writeLine text setting state = .ok value state') : Covers state [] state' := by
  cases h
  exact covers_nil rfl rfl

theorem covers_of_advance {token : Token} (h : advance setting state = .ok token state') :
    token = state.current ∧ Covers state [token] state' := by
  obtain ⟨rfl, next, supply, hpull, rfl⟩ := advance_eq_ok_iff.mp h
  exact ⟨rfl, .step hpull (.refl _), rfl⟩

theorem covers_of_expect {expected : Kind} {token : Token}
    (h : expect expected setting state = .ok token state') :
    token.kind = expected ∧ Covers state [token] state' := by
  obtain ⟨hkind, hadvance⟩ := expect_eq_ok_iff.mp h
  obtain ⟨rfl, hcovers⟩ := covers_of_advance hadvance
  exact ⟨hkind, hcovers⟩

theorem covers_of_checkName {token : Token} {reserved : List String} {value : Unit}
    (h : checkName token reserved setting state = .ok value state') : Covers state [] state' := by
  unfold checkName at h
  split at h
  · exact absurd h failAt_ne_ok
  · cases h
    exact covers_nil rfl rfl

theorem covers_of_declareVariable {token : Token} {value : Unit}
    (h : declareVariable token setting state = .ok value state') : Covers state [] state' := by
  obtain ⟨_, _, hget, h⟩ := bind_eq_ok_iff.mp h
  cases hget
  split at h
  · cases h
    exact covers_nil rfl rfl
  · obtain ⟨_, middle, hcheck, h⟩ := bind_eq_ok_iff.mp h
    have hfront := covers_of_checkName hcheck
    cases h
    exact hfront.of_nil (covers_nil rfl rfl)

/-- A loop that succeeds has moved past what its rounds have moved past, and has stopped at a token
that does not pass its test. -/
theorem covers_of_repeatWhile {test : Kind → Bool} {step : Generate σ Unit} {rounds depth : Nat}
    {value : Unit} (collected : List Token → Prop) (hnil : collected [])
    (hround : ∀ {state state' : Generator σ}, state.depth = depth →
      test state.current.kind = true → step setting state = .ok () state' →
      ∃ tokens, Covers state tokens state' ∧
        ∀ rest, collected rest → collected (tokens ++ rest))
    (hdepth : state.depth = depth)
    (h : repeatWhile test step rounds setting state = .ok value state') :
    ∃ tokens, collected tokens ∧ Covers state tokens state' ∧
      test state'.current.kind = false := by
  induction rounds generalizing state with
  | zero => cases h
  | succ rounds ih =>
    obtain ⟨_, _, hkind, h⟩ := bind_eq_ok_iff.mp h
    cases hkind
    split at h
    · rename_i htest
      obtain ⟨_, middle, hstep, h⟩ := bind_eq_ok_iff.mp h
      obtain ⟨front, hfront, hcollect⟩ := hround hdepth htest hstep
      obtain ⟨back, hback, hcovers, hstop⟩ := ih (hfront.depth_eq.trans hdepth) h
      exact ⟨front ++ back, hcollect back hback, hfront.append hcovers, hstop⟩
    · rename_i htest
      cases h
      exact ⟨[], hnil, covers_nil rfl rfl, by simpa using htest⟩

theorem covers_of_loopWhile {test : Kind → Bool} {step : Generate σ Unit} {value : Unit}
    (collected : List Token → Prop) (hnil : collected [])
    (hround : ∀ {now next : Generator σ}, now.depth = state.depth →
      test now.current.kind = true → step setting now = .ok () next →
      ∃ tokens, Covers now tokens next ∧ ∀ rest, collected rest → collected (tokens ++ rest))
    (h : loopWhile test step setting state = .ok value state') :
    ∃ tokens, collected tokens ∧ Covers state tokens state' ∧
      test state'.current.kind = false := by
  obtain ⟨_, _, hget, h⟩ := bind_eq_ok_iff.mp h
  cases hget
  exact covers_of_repeatWhile collected hnil hround rfl h

theorem covers_of_skipNewlines {value : Unit}
    (h : skipNewlines setting state = .ok value state') :
    ∃ tokens, (∀ token ∈ tokens, token.kind = .newline) ∧ Covers state tokens state' := by
  have hround : ∀ {now next : Generator σ}, now.depth = state.depth →
      decide (now.current.kind = .newline) = true →
      (do let _ ← advance : Generate σ Unit) setting now = .ok () next →
      ∃ tokens, Covers now tokens next ∧ ∀ rest, (∀ token ∈ rest, token.kind = .newline) →
        ∀ token ∈ tokens ++ rest, token.kind = .newline := by
    intro now next _ htest hstep
    obtain ⟨token, middle, hadvance, hpure⟩ := bind_eq_ok_iff.mp hstep
    cases hpure
    obtain ⟨rfl, hcovers⟩ := covers_of_advance hadvance
    have hkind : now.current.kind = .newline := by simpa using htest
    exact ⟨[now.current], hcovers, by simp [hkind]⟩
  obtain ⟨tokens, htokens, hcovers, _⟩ := covers_of_loopWhile _ (by simp) hround h
  exact ⟨tokens, htokens, hcovers⟩

theorem exists_lineEnd_of_newline {value : Unit} (h : newline setting state = .ok value state') :
    ∃ tokens, IsLineEnd tokens ∧ Covers state tokens state' := by
  obtain ⟨token, middle, hexpect, h⟩ := bind_eq_ok_iff.mp h
  obtain ⟨hkind, hfirst⟩ := covers_of_expect hexpect
  obtain ⟨tokens, htokens, hrest⟩ := covers_of_skipNewlines h
  have hends : IsLineEnd (token :: tokens) := ⟨by simp, by simpa [hkind] using htokens⟩
  exact ⟨token :: tokens, hends, hfirst.cons hrest⟩

/-! ## Expressions -/

theorem exists_primary_of_primary {value : Unit} (h : primary setting state = .ok value state') :
    ∃ tree tokens, Primary.Derives tree tokens ∧ Covers state tokens state' := by
  obtain ⟨_, _, hget, hbranch⟩ := bind_eq_ok_iff.mp h
  cases hget
  cases hkind : state.current.kind with
  | number =>
    rw [hkind] at hbranch
    obtain ⟨token, middle, hadvance, hwrite⟩ := bind_eq_ok_iff.mp hbranch
    obtain ⟨rfl, hcovers⟩ := covers_of_advance hadvance
    exact ⟨.number state.current.spelling, [state.current], ⟨_, rfl, hkind, rfl⟩,
      hcovers.of_append_nil (covers_of_write hwrite)⟩
  | identifier =>
    rw [hkind] at hbranch
    dsimp only at hbranch
    split at hbranch
    · obtain ⟨token, middle, hadvance, hwrite⟩ := bind_eq_ok_iff.mp hbranch
      obtain ⟨rfl, hcovers⟩ := covers_of_advance hadvance
      exact ⟨.named (Name.ofToken state.current), [state.current], ⟨_, rfl, hkind, rfl⟩,
        hcovers.of_append_nil (covers_of_write hwrite)⟩
    · exact absurd hbranch failAt_ne_ok
  | _ =>
    rw [hkind] at hbranch
    exact absurd hbranch unexpected_ne_ok

theorem exists_signed_of_unary {value : Unit} (h : unary setting state = .ok value state') :
    ∃ tree tokens, Signed.Derives tree tokens ∧ Covers state tokens state' := by
  obtain ⟨_, _, hkind, hbranch⟩ := bind_eq_ok_iff.mp h
  cases hkind
  split at hbranch
  · rename_i hadditive
    obtain ⟨sign, hsign⟩ := (isAdditive_iff _).mp hadditive
    obtain ⟨token, middle, hadvance, hrest⟩ := bind_eq_ok_iff.mp hbranch
    obtain ⟨_, middle', hwrite, hprimary⟩ := bind_eq_ok_iff.mp hrest
    obtain ⟨rfl, hfront⟩ := covers_of_advance hadvance
    obtain ⟨tree, tokens, htree, hback⟩ := exists_primary_of_primary hprimary
    exact ⟨⟨some sign, tree⟩, state.current :: tokens, ⟨_, _, rfl, hsign, htree⟩,
      hfront.cons ((covers_of_write hwrite).of_nil hback)⟩
  · obtain ⟨tree, tokens, htree, hcovers⟩ := exists_primary_of_primary hbranch
    exact ⟨⟨none, tree⟩, tokens, htree, hcovers⟩

/-- A loop each round of which moves past an operator and an item has moved past links. -/
theorem exists_links_of_loopWhile {ω α : Type} {test : Kind → Bool} {kind : ω → Kind}
    {item : α → List Token → Prop} {step : Generate σ Unit} {value : Unit}
    (hround : ∀ {state state' : Generator σ}, test state.current.kind = true →
      step setting state = .ok () state' → ∃ operator a tokens, item a tokens ∧
        state.current.kind = kind operator ∧ Covers state (state.current :: tokens) state')
    (h : loopWhile test step setting state = .ok value state') :
    ∃ links tokens, LinksDerive kind item links tokens ∧ Covers state tokens state' ∧
      test state'.current.kind = false := by
  have hextend : ∀ {now next : Generator σ}, now.depth = state.depth →
      test now.current.kind = true → step setting now = .ok () next →
      ∃ tokens, Covers now tokens next ∧
        ∀ rest, (∃ links, LinksDerive kind item links rest) →
          ∃ links, LinksDerive kind item links (tokens ++ rest) := by
    intro now next _ htest hstep
    obtain ⟨operator, a, tokens, hitem, hkind, hcovers⟩ := hround htest hstep
    have hcollect : ∀ rest, (∃ links, LinksDerive kind item links rest) →
        ∃ links, LinksDerive kind item links (now.current :: tokens ++ rest) := by
      rintro rest ⟨links, hlinks⟩
      exact ⟨(operator, a) :: links, now.current, tokens, rest, rfl, hkind, hitem, hlinks⟩
    exact ⟨now.current :: tokens, hcovers, hcollect⟩
  obtain ⟨tokens, ⟨links, hlinks⟩, hcovers, hstop⟩ :=
    covers_of_loopWhile (fun tokens ↦ ∃ links, LinksDerive kind item links tokens)
      ⟨[], rfl⟩ hextend h
  exact ⟨links, tokens, hlinks, hcovers, hstop⟩

theorem exists_term_of_term {value : Unit} (h : term setting state = .ok value state') :
    ∃ tree tokens, Term.Derives tree tokens ∧ Covers state tokens state' := by
  obtain ⟨_, middle, hunary, hloop⟩ := bind_eq_ok_iff.mp h
  obtain ⟨first, front, hfirst, hfront⟩ := exists_signed_of_unary hunary
  have hround : ∀ {state state' : Generator σ}, state.current.kind.isMultiplicative = true →
      (do let operator ← advance; write operator.spelling; unary : Generate σ Unit)
        setting state = .ok () state' →
      ∃ scaling signed tokens, Signed.Derives signed tokens ∧
        state.current.kind = Scaling.kind scaling ∧
        Covers state (state.current :: tokens) state' := by
    intro state state' htest hstep
    obtain ⟨scaling, hkind⟩ := (isMultiplicative_iff _).mp htest
    obtain ⟨token, _, hadvance, hrest⟩ := bind_eq_ok_iff.mp hstep
    obtain ⟨_, _, hwrite, hunary⟩ := bind_eq_ok_iff.mp hrest
    obtain ⟨rfl, hcovers⟩ := covers_of_advance hadvance
    obtain ⟨signed, tokens, hsigned, hback⟩ := exists_signed_of_unary hunary
    exact ⟨scaling, signed, tokens, hsigned, hkind,
      hcovers.cons ((covers_of_write hwrite).of_nil hback)⟩
  obtain ⟨links, back, hlinks, hback, _⟩ := exists_links_of_loopWhile hround hloop
  exact ⟨⟨first, links⟩, front ++ back, ⟨front, back, rfl, hfirst, hlinks⟩, hfront.append hback⟩

theorem exists_expression_of_expression {value : Unit}
    (h : expression setting state = .ok value state') :
    ∃ tree tokens, Expression.Derives tree tokens ∧ Covers state tokens state' := by
  obtain ⟨_, middle, hterm, hloop⟩ := bind_eq_ok_iff.mp h
  obtain ⟨first, front, hfirst, hfront⟩ := exists_term_of_term hterm
  have hround : ∀ {state state' : Generator σ}, state.current.kind.isAdditive = true →
      (do
        let operator ← advance
        write operator.spelling
        if ← check operator.kind then write " "
        term : Generate σ Unit) setting state = .ok () state' →
      ∃ sign tree tokens, Term.Derives tree tokens ∧ state.current.kind = Sign.kind sign ∧
        Covers state (state.current :: tokens) state' := by
    intro state state' htest hstep
    obtain ⟨sign, hkind⟩ := (isAdditive_iff _).mp htest
    obtain ⟨token, _, hadvance, hrest⟩ := bind_eq_ok_iff.mp hstep
    obtain ⟨_, middle, hwrite, hspace⟩ := bind_eq_ok_iff.mp hrest
    obtain ⟨rfl, hcovers⟩ := covers_of_advance hadvance
    obtain ⟨_, _, hcheck, hbranch⟩ := bind_eq_ok_iff.mp hspace
    cases hcheck
    have hterm : ∃ middle', Covers middle [] middle' ∧
        term setting middle' = .ok () state' := by
      split at hbranch
      · obtain ⟨_, middle', hblank, hterm⟩ := bind_eq_ok_iff.mp hbranch
        exact ⟨middle', covers_of_write hblank, hterm⟩
      · exact ⟨middle, covers_nil rfl rfl, hbranch⟩
    obtain ⟨middle', hblank, hterm⟩ := hterm
    obtain ⟨tree, tokens, htree, hback⟩ := exists_term_of_term hterm
    exact ⟨sign, tree, tokens, htree, hkind,
      hcovers.cons ((covers_of_write hwrite).of_nil (hblank.of_nil hback))⟩
  obtain ⟨links, back, hlinks, hback, _⟩ := exists_links_of_loopWhile hround hloop
  exact ⟨⟨first, links⟩, front ++ back, ⟨front, back, rfl, hfirst, hlinks⟩, hfront.append hback⟩

theorem exists_condition_of_comparison {value : Unit}
    (h : comparison setting state = .ok value state') :
    ∃ tree tokens, Condition.Derives tree tokens ∧ Covers state tokens state' := by
  obtain ⟨_, middle, hexpression, hrest⟩ := bind_eq_ok_iff.mp h
  obtain ⟨first, front, hfirst, hfront⟩ := exists_expression_of_expression hexpression
  obtain ⟨_, _, hkind, hbranch⟩ := bind_eq_ok_iff.mp hrest
  cases hkind
  have hround : ∀ {state state' : Generator σ}, state.current.kind.isComparison = true →
      (do let relation ← advance; write relation.spelling; expression : Generate σ Unit)
        setting state = .ok () state' →
      ∃ relation tree tokens, Expression.Derives tree tokens ∧
        state.current.kind = Kind.comparison relation ∧
        Covers state (state.current :: tokens) state' := by
    intro state state' htest hstep
    obtain ⟨relation, hkind⟩ := (isComparison_iff _).mp htest
    obtain ⟨token, _, hadvance, hrest⟩ := bind_eq_ok_iff.mp hstep
    obtain ⟨_, _, hwrite, hexpression⟩ := bind_eq_ok_iff.mp hrest
    obtain ⟨rfl, hcovers⟩ := covers_of_advance hadvance
    obtain ⟨tree, tokens, htree, hback⟩ := exists_expression_of_expression hexpression
    exact ⟨relation, tree, tokens, htree, hkind,
      hcovers.cons ((covers_of_write hwrite).of_nil hback)⟩
  split at hbranch
  · rename_i htest
    obtain ⟨links, back, hlinks, hback, hstop⟩ := exists_links_of_loopWhile hround hbranch
    have hcompares : links ≠ [] := by
      rintro rfl
      have hnil : back = [] := hlinks
      rw [hnil] at hback
      have houtlook := passes_nil_iff.mp hback.passes
      have hcurrent : state'.current = middle.current := congrArg Prod.snd houtlook
      rw [hcurrent, htest] at hstop
      cases hstop
    exact ⟨⟨⟨first, links⟩, hcompares⟩, front ++ back, ⟨front, back, rfl, hfirst, hlinks⟩,
      hfront.append hback⟩
  · obtain ⟨_, _, hunexpected, _⟩ := bind_eq_ok_iff.mp hbranch
    exact absurd hunexpected unexpected_ne_ok

omit [TokenSupply σ] in
/-- A loop stops at a token that does not pass its test, and at one that its last round, or what
came before it, can stop at. -/
theorem stops_of_repeatWhile {test : Kind → Bool} {step : Generate σ Unit} {rounds : Nat}
    {value : Unit} (allowed : Kind → Prop)
    (hround : ∀ {now next : Generator σ}, step setting now = .ok () next →
      allowed next.current.kind)
    (hstart : allowed state.current.kind)
    (h : repeatWhile test step rounds setting state = .ok value state') :
    allowed state'.current.kind ∧ test state'.current.kind = false := by
  induction rounds generalizing state with
  | zero => cases h
  | succ rounds ih =>
    obtain ⟨_, _, hkind, h⟩ := bind_eq_ok_iff.mp h
    cases hkind
    split at h
    · obtain ⟨_, middle, hstep, h⟩ := bind_eq_ok_iff.mp h
      exact ih (hround hstep) h
    · rename_i htest
      cases h
      exact ⟨hstart, by simpa using htest⟩

theorem stops_of_loopWhile {test : Kind → Bool} {step : Generate σ Unit} {value : Unit}
    (allowed : Kind → Prop)
    (hround : ∀ {now next : Generator σ}, step setting now = .ok () next →
      allowed next.current.kind)
    (hstart : allowed state.current.kind)
    (h : loopWhile test step setting state = .ok value state') :
    allowed state'.current.kind ∧ test state'.current.kind = false := by
  obtain ⟨_, _, hget, h⟩ := bind_eq_ok_iff.mp h
  cases hget
  exact stops_of_repeatWhile allowed hround hstart h

theorem endsTerm_of_term {value : Unit} (h : term setting state = .ok value state') :
    EndsTerm state'.current.kind := by
  obtain ⟨_, middle, _, hloop⟩ := bind_eq_ok_iff.mp h
  obtain ⟨_, hstop⟩ := stops_of_loopWhile (fun _ ↦ True) (fun _ ↦ trivial) trivial hloop
  intro scaling hkind
  rw [(isMultiplicative_iff _).mpr ⟨scaling, hkind⟩] at hstop
  cases hstop

theorem endsExpression_of_expression {value : Unit}
    (h : expression setting state = .ok value state') : EndsExpression state'.current.kind := by
  obtain ⟨_, middle, hterm, hloop⟩ := bind_eq_ok_iff.mp h
  have hround : ∀ {now next : Generator σ},
      (do
        let operator ← advance
        write operator.spelling
        if ← check operator.kind then write " "
        term : Generate σ Unit) setting now = .ok () next → EndsTerm next.current.kind := by
    intro now next hstep
    obtain ⟨token, _, _, hrest⟩ := bind_eq_ok_iff.mp hstep
    obtain ⟨_, _, _, hspace⟩ := bind_eq_ok_iff.mp hrest
    obtain ⟨_, _, _, hbranch⟩ := bind_eq_ok_iff.mp hspace
    split at hbranch
    · obtain ⟨_, _, _, hterm⟩ := bind_eq_ok_iff.mp hbranch
      exact endsTerm_of_term hterm
    · exact endsTerm_of_term hbranch
  obtain ⟨hends, hstop⟩ := stops_of_loopWhile EndsTerm hround (endsTerm_of_term hterm) hloop
  have hsign : ∀ sign : Sign, state'.current.kind ≠ sign.kind := by
    intro sign hkind
    rw [(isAdditive_iff _).mpr ⟨sign, hkind⟩] at hstop
    cases hstop
  exact ⟨hends, hsign⟩

theorem endsCondition_of_comparison {value : Unit}
    (h : comparison setting state = .ok value state') : EndsCondition state'.current.kind := by
  obtain ⟨_, middle, hexpression, hrest⟩ := bind_eq_ok_iff.mp h
  obtain ⟨_, _, hkind, hbranch⟩ := bind_eq_ok_iff.mp hrest
  cases hkind
  have hround : ∀ {now next : Generator σ},
      (do let relation ← advance; write relation.spelling; expression : Generate σ Unit)
        setting now = .ok () next → EndsExpression next.current.kind := by
    intro now next hstep
    obtain ⟨token, _, _, hrest⟩ := bind_eq_ok_iff.mp hstep
    obtain ⟨_, _, _, hexpression⟩ := bind_eq_ok_iff.mp hrest
    exact endsExpression_of_expression hexpression
  split at hbranch
  · obtain ⟨hends, hstop⟩ := stops_of_loopWhile EndsExpression hround
      (endsExpression_of_expression hexpression) hbranch
    have hrelation : ∀ relation : Comparison, state'.current.kind ≠ .comparison relation := by
      intro relation hkind
      rw [(isComparison_iff _).mpr ⟨relation, hkind⟩] at hstop
      cases hstop
    exact ⟨hends, hrelation⟩
  · obtain ⟨_, _, hunexpected, _⟩ := bind_eq_ok_iff.mp hbranch
    exact absurd hunexpected unexpected_ne_ok

/-- Two expected tokens in a row are a keyword and a name. -/
theorem keywordDerives_of_expect {middle : Generator σ} {keyword : Keyword} {word token : Token}
    (hword : expect (.keyword keyword) setting state = .ok word middle)
    (htoken : expect .identifier setting middle = .ok token state') :
    KeywordDerives keyword (Name.ofToken token) [word, token] ∧
      Covers state [word, token] state' := by
  obtain ⟨hkind, hfront⟩ := covers_of_expect hword
  obtain ⟨hkind', hback⟩ := covers_of_expect htoken
  exact ⟨⟨word, token, rfl, hkind, hkind', rfl⟩, hfront.cons hback⟩

theorem exists_print_of_printStatement {value : Unit}
    (h : printStatement setting state = .ok value state') :
    ∃ tree tokens, Statement.DerivesFront tree tokens ∧ tree.depth = 0 ∧
      Covers state tokens state' := by
  obtain ⟨word, middle, hexpect, hrest⟩ := bind_eq_ok_iff.mp h
  obtain ⟨hkind, hfront⟩ := covers_of_expect hexpect
  obtain ⟨_, _, hcheck, hbranch⟩ := bind_eq_ok_iff.mp hrest
  cases hcheck
  split at hbranch
  · rename_i hstring
    have hstring : middle.current.kind = .string := by simpa using hstring
    obtain ⟨token, _, hadvance, hwrite⟩ := bind_eq_ok_iff.mp hbranch
    obtain ⟨rfl, hback⟩ := covers_of_advance hadvance
    exact ⟨.printText middle.current.spelling, [word, middle.current],
      ⟨word, _, rfl, hkind, hstring, rfl⟩, rfl,
      hfront.cons (hback.of_append_nil (covers_of_writeLine hwrite))⟩
  · obtain ⟨_, _, hread, hrest⟩ := bind_eq_ok_iff.mp hbranch
    cases hread
    obtain ⟨_, _, hwrite, hrest⟩ := bind_eq_ok_iff.mp hrest
    obtain ⟨_, _, hexpression, hclose⟩ := bind_eq_ok_iff.mp hrest
    obtain ⟨tree, tokens, htree, hback⟩ := exists_expression_of_expression hexpression
    exact ⟨.print tree, word :: tokens, ⟨word, tokens, rfl, hkind, htree⟩, rfl,
      hfront.cons ((covers_of_write hwrite).of_nil
        (hback.of_append_nil (covers_of_writeLine hclose)))⟩

theorem exists_label_of_labelStatement {value : Unit}
    (h : labelStatement setting state = .ok value state') :
    ∃ tree tokens, Statement.DerivesFront tree tokens ∧ tree.depth = 0 ∧
      Covers state tokens state' := by
  obtain ⟨word, middle, hword, hrest⟩ := bind_eq_ok_iff.mp h
  obtain ⟨token, middle', htoken, hrest⟩ := bind_eq_ok_iff.mp hrest
  obtain ⟨htree, hcovers⟩ := keywordDerives_of_expect hword htoken
  obtain ⟨_, known, hcheck, hrest⟩ := bind_eq_ok_iff.mp hrest
  obtain ⟨_, _, hget, hbranch⟩ := bind_eq_ok_iff.mp hrest
  cases hget
  dsimp only at hbranch
  split at hbranch
  · obtain ⟨_, _, hfail, _⟩ := bind_eq_ok_iff.mp hbranch
    exact absurd hfail failAt_ne_ok
  · have hwrite : Covers known [] state' := by
      cases hbranch
      exact covers_nil rfl rfl
    exact ⟨.label (Name.ofToken token), [word, token], htree, rfl,
      hcovers.of_append_nil ((covers_of_checkName hcheck).of_nil hwrite)⟩

theorem exists_jump_of_gotoStatement {value : Unit}
    (h : gotoStatement setting state = .ok value state') :
    ∃ tree tokens, Statement.DerivesFront tree tokens ∧ tree.depth = 0 ∧
      Covers state tokens state' := by
  obtain ⟨word, middle, hword, hrest⟩ := bind_eq_ok_iff.mp h
  obtain ⟨token, middle', htoken, hrest⟩ := bind_eq_ok_iff.mp hrest
  obtain ⟨htree, hcovers⟩ := keywordDerives_of_expect hword htoken
  obtain ⟨_, known, hcheck, hwrite⟩ := bind_eq_ok_iff.mp hrest
  have hwrite : Covers known [] state' := by
    cases hwrite
    exact covers_nil rfl rfl
  exact ⟨.jump (Name.ofToken token), [word, token], htree, rfl,
    hcovers.of_append_nil ((covers_of_checkName hcheck).of_nil hwrite)⟩

theorem exists_assign_of_letStatement {value : Unit}
    (h : letStatement setting state = .ok value state') :
    ∃ tree tokens, Statement.DerivesFront tree tokens ∧ tree.depth = 0 ∧
      Covers state tokens state' := by
  obtain ⟨word, middle, hword, hrest⟩ := bind_eq_ok_iff.mp h
  obtain ⟨token, middle', htoken, hrest⟩ := bind_eq_ok_iff.mp hrest
  obtain ⟨hname, hfront⟩ := keywordDerives_of_expect hword htoken
  obtain ⟨_, _, hdeclare, hrest⟩ := bind_eq_ok_iff.mp hrest
  obtain ⟨_, _, hwrite, hrest⟩ := bind_eq_ok_iff.mp hrest
  obtain ⟨sign, _, hsign, hrest⟩ := bind_eq_ok_iff.mp hrest
  obtain ⟨_, _, hexpression, hclose⟩ := bind_eq_ok_iff.mp hrest
  obtain ⟨hkind, hassign⟩ := covers_of_expect hsign
  obtain ⟨tree, tokens, htree, hback⟩ := exists_expression_of_expression hexpression
  have hnone := (covers_of_declareVariable hdeclare).append (covers_of_write hwrite)
  exact ⟨.assign (Name.ofToken token) tree, [word, token] ++ sign :: tokens,
    ⟨[word, token], sign, tokens, rfl, hname, hkind, htree⟩, rfl,
    hfront.append (hnone.of_nil
      (hassign.cons (hback.of_append_nil (covers_of_writeLine hclose))))⟩

theorem exists_input_of_inputStatement {value : Unit}
    (h : inputStatement setting state = .ok value state') :
    ∃ tree tokens, Statement.DerivesFront tree tokens ∧ tree.depth = 0 ∧
      Covers state tokens state' := by
  obtain ⟨word, middle, hword, hrest⟩ := bind_eq_ok_iff.mp h
  obtain ⟨token, middle', htoken, hrest⟩ := bind_eq_ok_iff.mp hrest
  obtain ⟨htree, hcovers⟩ := keywordDerives_of_expect hword htoken
  obtain ⟨_, known, hdeclare, hwrite⟩ := bind_eq_ok_iff.mp hrest
  have hwrite : Covers known [] state' := by
    cases hwrite
    exact covers_nil rfl rfl
  exact ⟨.input (Name.ofToken token), [word, token], htree, rfl,
    hcovers.of_append_nil ((covers_of_declareVariable hdeclare).of_nil hwrite)⟩

/-! ## Blocks -/

/-- Blocks nested to a depth, inside as many blocks as are open, keep to the limit. -/
def WithinLimit (setting : Setting) (outer inner : Nat) : Prop :=
  inner = 0 ∨ ((outer + inner : Nat) : Int) ≤ setting.maxDepth

theorem withinLimit_zero (outer : Nat) : WithinLimit setting outer 0 := Or.inl rfl

theorem WithinLimit.max {outer inner inner' : Nat} (h : WithinLimit setting outer inner)
    (h' : WithinLimit setting outer inner') :
    WithinLimit setting outer (Nat.max inner inner') := by
  rcases Nat.le_total inner inner' with hle | hle
  · rw [Nat.max_eq_max, Nat.max_eq_right hle]
    exact h'
  · rw [Nat.max_eq_max, Nat.max_eq_left hle]
    exact h

theorem WithinLimit.mono {outer inner inner' : Nat} (h : WithinLimit setting outer inner)
    (hle : inner' ≤ inner) : WithinLimit setting outer inner' := by
  rcases h with hzero | hroom
  · left
    omega
  · right
    omega

/-- A way to generate blocks moves past statements and the token that ends them, and keeps to the
limit. -/
def RecognisesBlocks (setting : Setting) (block : Kind → Generate σ Unit) : Prop :=
  ∀ {terminator : Kind} {state state' : Generator σ} {value : Unit},
    block terminator setting state = .ok value state' →
    ∃ body tokens closing, Program.DerivesBody body tokens ∧ closing.kind = terminator ∧
      Covers state (tokens ++ [closing]) state' ∧
      WithinLimit setting state.depth (body.depth + 1)

theorem exists_condition_of_condition {opening closing : Keyword} {text : String} {value : Unit}
    (h : condition opening closing text setting state = .ok value state') :
    ∃ tree first test last ends, Condition.Derives tree test ∧ first.kind = .keyword opening ∧
      last.kind = .keyword closing ∧ IsLineEnd ends ∧
      Covers state (first :: (test ++ last :: ends)) state' := by
  obtain ⟨first, _, hopening, hrest⟩ := bind_eq_ok_iff.mp h
  obtain ⟨_, _, hwrite, hrest⟩ := bind_eq_ok_iff.mp hrest
  obtain ⟨_, _, hcomparison, hrest⟩ := bind_eq_ok_iff.mp hrest
  obtain ⟨last, _, hclosing, hrest⟩ := bind_eq_ok_iff.mp hrest
  obtain ⟨_, _, hnewline, hbrace⟩ := bind_eq_ok_iff.mp hrest
  obtain ⟨hfirst, hcovers⟩ := covers_of_expect hopening
  obtain ⟨tree, test, htree, htest⟩ := exists_condition_of_comparison hcomparison
  obtain ⟨hlast, hmiddle⟩ := covers_of_expect hclosing
  obtain ⟨ends, hends, hback⟩ := exists_lineEnd_of_newline hnewline
  have htail := hmiddle.cons (hback.of_append_nil (covers_of_writeLine hbrace))
  exact ⟨tree, first, test, last, ends, htree, hfirst, hlast, hends,
    hcovers.cons ((covers_of_write hwrite).of_nil (htest.append htail))⟩

/-- Both forms of a block are generated in the same way from their keywords. -/
theorem exists_block_of_blockStatement {block : Kind → Generate σ Unit}
    (hblock : RecognisesBlocks setting block) (form : BlockForm) {text : String} {value : Unit}
    (h : (do
      condition form.opening form.middle text
      block (.keyword form.closing)
      writeLine "\x7d" : Generate σ Unit) setting state = .ok value state') :
    ∃ tree tokens, Statement.DerivesFront tree tokens ∧
      WithinLimit setting state.depth tree.depth ∧ Covers state tokens state' := by
  obtain ⟨_, middle, hcondition, hrest⟩ := bind_eq_ok_iff.mp h
  obtain ⟨_, _, hbody, hbrace⟩ := bind_eq_ok_iff.mp hrest
  obtain ⟨tree, first, test, last, ends, htree, hfirst, hlast, hends, hfront⟩ :=
    exists_condition_of_condition hcondition
  obtain ⟨body, inner, closing, hinner, hclosing, hback, hlimit⟩ := hblock hbody
  rw [hfront.depth_eq] at hlimit
  have hcovers := hfront.append (hback.of_append_nil (covers_of_writeLine hbrace))
  have htokens : first :: (test ++ last :: ends) ++ (inner ++ [closing]) =
      first :: (test ++ last :: (ends ++ (inner ++ [closing]))) := by simp
  exact ⟨.block form tree body, _,
    ⟨first, test, last, ends, inner, closing, htokens, hfirst, htree, hlast, hends, hinner,
      hclosing⟩, hlimit, hcovers⟩

/-- The rule for the statement that a token of a kind starts, given a way to generate blocks. -/
def statementRule (block : Kind → Generate σ Unit) : Kind → Generate σ Unit
  | .keyword .PRINT => printStatement
  | .keyword .IF => ifStatement block
  | .keyword .WHILE => whileStatement block
  | .keyword .LABEL => labelStatement
  | .keyword .GOTO => gotoStatement
  | .keyword .LET => letStatement
  | .keyword .INPUT => inputStatement
  | _ => unexpected "a statement"

theorem statementWith_apply (block : Kind → Generate σ Unit) :
    statementWith block setting state =
      (statementRule block state.current.kind >>= fun _ ↦ newline) setting state := by
  have hkind : kind setting state = .ok state.current.kind state := rfl
  rw [statementWith, bind_of_ok hkind]
  cases state.current.kind with
  | keyword word => cases word <;> rfl
  | _ => rfl

theorem exists_front_of_statementRule {block : Kind → Generate σ Unit}
    (hblock : RecognisesBlocks setting block) {first : Kind} {value : Unit}
    (h : statementRule block first setting state = .ok value state') :
    ∃ tree tokens, Statement.DerivesFront tree tokens ∧
      WithinLimit setting state.depth tree.depth ∧ Covers state tokens state' := by
  have hflat : (∃ tree tokens, Statement.DerivesFront tree tokens ∧ tree.depth = 0 ∧
      Covers state tokens state') →
      ∃ tree tokens, Statement.DerivesFront tree tokens ∧
        WithinLimit setting state.depth tree.depth ∧ Covers state tokens state' := by
    rintro ⟨tree, tokens, htree, hdepth, hcovers⟩
    exact ⟨tree, tokens, htree, Or.inl hdepth, hcovers⟩
  cases first with
  | keyword word =>
    cases word with
    | PRINT => exact hflat (exists_print_of_printStatement h)
    | IF => exact exists_block_of_blockStatement hblock .conditional h
    | WHILE => exact exists_block_of_blockStatement hblock .loop h
    | LABEL => exact hflat (exists_label_of_labelStatement h)
    | GOTO => exact hflat (exists_jump_of_gotoStatement h)
    | LET => exact hflat (exists_assign_of_letStatement h)
    | INPUT => exact hflat (exists_input_of_inputStatement h)
    | _ => exact absurd h unexpected_ne_ok
  | _ => exact absurd h unexpected_ne_ok

/-- What a statement that is generated successfully has moved past. -/
theorem exists_statement_of_statementWith {block : Kind → Generate σ Unit}
    (hblock : RecognisesBlocks setting block) {value : Unit}
    (h : statementWith block setting state = .ok value state') :
    ∃ tree front ends, Statement.DerivesFront tree front ∧ IsLineEnd ends ∧
      WithinLimit setting state.depth tree.depth ∧ Covers state (front ++ ends) state' := by
  rw [statementWith_apply] at h
  obtain ⟨_, middle, hrule, hnewline⟩ := bind_eq_ok_iff.mp h
  obtain ⟨tree, front, htree, hlimit, hfront⟩ := exists_front_of_statementRule hblock hrule
  obtain ⟨ends, hends, hback⟩ := exists_lineEnd_of_newline hnewline
  exact ⟨tree, front, ends, htree, hends, hlimit, hfront.append hback⟩

/-- A loop over statements moves past a list of them. -/
theorem exists_body_of_loopWhile {test : Kind → Bool} {step : Generate σ Unit} {value : Unit}
    (hstep : ∀ {now next : Generator σ}, step setting now = .ok () next →
      ∃ tree front ends, Statement.DerivesFront tree front ∧ IsLineEnd ends ∧
        WithinLimit setting now.depth tree.depth ∧ Covers now (front ++ ends) next)
    (h : loopWhile test step setting state = .ok value state') :
    ∃ body tokens, Program.DerivesBody body tokens ∧
      WithinLimit setting state.depth body.depth ∧ Covers state tokens state' ∧
      test state'.current.kind = false := by
  have hround : ∀ {now next : Generator σ}, now.depth = state.depth →
      test now.current.kind = true → step setting now = .ok () next →
      ∃ tokens, Covers now tokens next ∧ ∀ rest,
        (∃ body, Program.DerivesBody body rest ∧ WithinLimit setting state.depth body.depth) →
        ∃ body, Program.DerivesBody body (tokens ++ rest) ∧
          WithinLimit setting state.depth body.depth := by
    intro now next hdepth _ hnext
    obtain ⟨tree, front, ends, htree, hends, hlimit, hcovers⟩ := hstep hnext
    rw [hdepth] at hlimit
    have hcollect : ∀ rest,
        (∃ body, Program.DerivesBody body rest ∧ WithinLimit setting state.depth body.depth) →
        ∃ body, Program.DerivesBody body (front ++ ends ++ rest) ∧
          WithinLimit setting state.depth body.depth := by
      rintro rest ⟨body, hbody, hrest⟩
      exact ⟨tree :: body, ⟨front, ends, rest, List.append_assoc _ _ _, htree, hends, hbody⟩,
        hlimit.max hrest⟩
    exact ⟨front ++ ends, hcovers, hcollect⟩
  obtain ⟨tokens, ⟨body, hbody, hlimit⟩, hcovers, hstop⟩ :=
    covers_of_loopWhile (fun tokens ↦ ∃ body, Program.DerivesBody body tokens ∧
      WithinLimit setting state.depth body.depth) ⟨[], rfl, withinLimit_zero _⟩ hround h
  exact ⟨body, tokens, hbody, hlimit, hcovers, hstop⟩

omit [TokenSupply σ] in
theorem eq_of_enterBlock {value : Unit} (h : enterBlock setting state = .ok value state') :
    state' = { state with depth := state.depth + 1 } ∧
      ((state.depth + 1 : Nat) : Int) ≤ setting.maxDepth := by
  obtain ⟨_, _, hmodify, hrest⟩ := bind_eq_ok_iff.mp h
  cases hmodify
  obtain ⟨_, _, hget, hrest⟩ := bind_eq_ok_iff.mp hrest
  cases hget
  obtain ⟨_, _, hread, hbranch⟩ := bind_eq_ok_iff.mp hrest
  cases hread
  dsimp only at hbranch
  split at hbranch
  · exact absurd hbranch failAt_ne_ok
  · rename_i hlimit
    cases hbranch
    exact ⟨rfl, Int.not_lt.mp hlimit⟩

theorem recognisesBlocks_blockOf {statement : Generate σ Unit}
    (hstatement : ∀ {now next : Generator σ} {value : Unit},
      statement setting now = .ok value next →
      ∃ tree front ends, Statement.DerivesFront tree front ∧ IsLineEnd ends ∧
        WithinLimit setting now.depth tree.depth ∧ Covers now (front ++ ends) next) :
    RecognisesBlocks setting (blockOf statement) := by
  intro terminator state state' value h
  obtain ⟨_, inside, henter, hrest⟩ := bind_eq_ok_iff.mp h
  obtain ⟨rfl, hroom⟩ := eq_of_enterBlock henter
  obtain ⟨_, last, hloop, hrest⟩ := bind_eq_ok_iff.mp hrest
  obtain ⟨closing, behind, hexpect, hleave⟩ := bind_eq_ok_iff.mp hrest
  have hstep : ∀ {now next : Generator σ},
      (do if ← check .endOfInput then unexpected terminator.description
          statement : Generate σ Unit) setting now = .ok () next →
      ∃ tree front ends, Statement.DerivesFront tree front ∧ IsLineEnd ends ∧
        WithinLimit setting now.depth tree.depth ∧ Covers now (front ++ ends) next := by
    intro now next hnext
    obtain ⟨_, _, hcheck, hbranch⟩ := bind_eq_ok_iff.mp hnext
    cases hcheck
    split at hbranch
    · obtain ⟨_, _, hunexpected, _⟩ := bind_eq_ok_iff.mp hbranch
      exact absurd hunexpected unexpected_ne_ok
    · exact hstatement hbranch
  obtain ⟨body, tokens, hbody, hlimit, hinside, _⟩ := exists_body_of_loopWhile hstep hloop
  obtain ⟨hclosing, hend⟩ := covers_of_expect hexpect
  have hcovers := hinside.append hend
  cases hleave
  have hdepth : behind.depth = state.depth + 1 := hcovers.depth_eq
  have hwithin : WithinLimit setting state.depth (body.depth + 1) := by
    right
    rcases hlimit with hflat | hdeep
    · rw [hflat]
      exact hroom
    · have hswap : state.depth + (body.depth + 1) = state.depth + 1 + body.depth := by omega
      rw [hswap]
      exact hdeep
  have hafter : behind.depth - 1 = state.depth := by omega
  exact ⟨body, tokens, closing, hbody, hclosing, ⟨hcovers.passes, hafter⟩, hwithin⟩

theorem recognisesBlocks_nestedBlock (nesting : Nat) :
    RecognisesBlocks setting (nestedBlock (σ := σ) nesting) := by
  induction nesting with
  | zero =>
    intro terminator state state' value h
    cases h
  | succ nesting ih => exact recognisesBlocks_blockOf (exists_statement_of_statementWith ih)

theorem recognisesBlocks_block : RecognisesBlocks setting (block (σ := σ)) := by
  intro terminator state state' value h
  obtain ⟨_, _, hget, hblock⟩ := bind_eq_ok_iff.mp h
  cases hget
  exact recognisesBlocks_nestedBlock _ hblock

theorem exists_program_of_program {value : Unit} (h : program setting state = .ok value state') :
    ∃ body tokens, Program.DerivesBody body tokens ∧
      WithinLimit setting state.depth body.depth ∧ Covers state tokens state' ∧
      state'.current.kind = .endOfInput := by
  obtain ⟨_, start, hprologue, hrest⟩ := bind_eq_ok_iff.mp h
  have hstart : Covers state [] start := by
    cases hprologue
    exact covers_nil rfl rfl
  obtain ⟨_, last, hloop, hepilogue⟩ := bind_eq_ok_iff.mp hrest
  have hlast : state'.outlook = last.outlook ∧ state'.depth = last.depth := by
    cases hepilogue
    exact ⟨rfl, rfl⟩
  obtain ⟨body, tokens, hbody, hlimit, hcovers, hstop⟩ :=
    exists_body_of_loopWhile (exists_statement_of_statementWith recognisesBlocks_block) hloop
  rw [hstart.depth_eq] at hlimit
  have hend : last.current.kind = .endOfInput := by simpa using hstop
  have hcurrent : state'.current = last.current := congrArg Prod.snd hlast.1
  exact ⟨body, tokens, hbody, hlimit,
    hstart.of_nil (hcovers.of_append_nil (covers_nil hlast.1 hlast.2)), by rw [hcurrent, hend]⟩

omit [TokenSupply σ] in
/-- The check at the end passes when no jump is left open, and changes nothing. -/
theorem checkLabels_eq_ok_iff :
    checkLabels setting state = .ok () state' ↔ state.scope.unresolved = [] ∧ state' = state := by
  constructor
  · intro h
    obtain ⟨_, _, hget, h⟩ := bind_eq_ok_iff.mp h
    cases hget
    cases hunresolved : state.scope.unresolved with
    | nil =>
      rw [hunresolved] at h
      cases h
      exact ⟨rfl, rfl⟩
    | cons name rest =>
      have hmem : name ∈ state.scope.unresolved := by simp [hunresolved]
      obtain ⟨location, hfind⟩ := Scope.exists_find?_of_mem_unresolved hmem
      rw [hunresolved] at h
      dsimp only at h
      rw [hfind] at h
      exact absurd h failAt_ne_ok
  · rintro ⟨hunresolved, rfl⟩
    have hget : (get : Generate σ (Generator σ)) setting state' = .ok state' state' := rfl
    rw [checkLabels, bind_of_ok hget, hunresolved]
    rfl

/-- A run over a source text that succeeds has moved past the tokens of a program that keeps to the
limit on nesting, and looks at the end of the input. -/
theorem exists_program_of_sourceText {value : Unit}
    (h : sourceText setting state = .ok value state') :
    ∃ tree tokens, Program.Derives tree (tokens ++ [state'.current]) ∧
      Passes state.outlook tokens state'.outlook ∧
      WithinLimit setting state.depth tree.depth := by
  obtain ⟨_, start, hskip, hrest⟩ := bind_eq_ok_iff.mp h
  obtain ⟨_, last, hprogram, hlabels⟩ := bind_eq_ok_iff.mp hrest
  obtain ⟨blank, hblank, hstart⟩ := covers_of_skipNewlines hskip
  obtain ⟨body, tokens, hbody, hlimit, hcovers, hend⟩ := exists_program_of_program hprogram
  rw [hstart.depth_eq] at hlimit
  obtain ⟨_, rfl⟩ := checkLabels_eq_ok_iff.mp hlabels
  exact ⟨body, blank ++ tokens,
    ⟨blank, tokens, state'.current, List.append_assoc _ _ _, hblank, hbody, hend⟩,
    (hstart.append hcovers).passes, hlimit⟩

end TeenyBasic.Generate
