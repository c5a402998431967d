import TeenyBasic.Proofs.Lexing.Spelling
import TeenyBasic.Proofs.Generation.Recognition

/-!
# What a generator makes of a derivation

Where the tokens ahead are derived from a tree, a generator follows the tree. It enters the names
that the tree mentions into its scope, from left to right, and stops with a diagnostic at the first
one that something is wrong with. If nothing is wrong with any of them, it ends behind the tokens,
and has written the text of the tree and declared its new variables.

There is one lemma for each rule, and a rule that is made of others conforms to the tree that is
made of theirs. Blocks are handled by induction on how deep they may be nested.

The main statement is `sourceText_of_derives`.
-/

namespace TeenyBasic.Generate

open Source

variable {σ : Type} [TokenSupply σ] {setting : Setting} {state state' : Generator σ}

/-- What a rule does between two states: it moves past tokens to an outlook, adds text to the body,
leaves a scope, and declares the variables that are new in it. -/
structure Effect (state : Generator σ) (tokens : List Token) (last : Outlook σ) (text : String)
    (scope : Scope) (state' : Generator σ) : Prop where
  outlook_eq : state'.outlook = last
  body_eq : state'.listing.body = state.listing.body ++ text
  scope_eq : state'.scope = scope
  declares : ∃ names,
    scope.declaredVariables.names = state.scope.declaredVariables.names ++ names ∧
    state'.listing.header = state.listing.header ++ closedLines (names.map declarationLine)
  depth_eq : state'.depth = state.depth
  pulled_eq : state'.pulled = state.pulled + tokens.length

/-- A step does what is expected of tokens that stand for a text and mention names: it has the
effect of entering the names, or fails at the first one that something is wrong with. -/
def Conforms (step : Generate σ Unit) (setting : Setting) (state : Generator σ)
    (tokens : List Token) (last : Outlook σ) (text : String) (mentions : List Mention) : Prop :=
  match state.scope.enterAll mentions with
  | .ok scope => ∃ state', step setting state = .ok () state' ∧
      Effect state tokens last text scope state'
  | .error (cause, location) => ∃ state', step setting state =
      .error ⟨cause, some location, setting.line? location.line⟩ state'

section

variable {tokens tokens' : List Token} {middle last : Outlook σ} {text text' : String}
  {mentions mentions' : List Mention} {scope scope' : Scope}

omit [TokenSupply σ] in
theorem Effect.append {between : Generator σ}
    (hfirst : Effect state tokens middle text scope between)
    (hsecond : Effect between tokens' last text' scope' state') :
    Effect state (tokens ++ tokens') last (text ++ text') scope' state' where
  outlook_eq := hsecond.outlook_eq
  body_eq := by rw [hsecond.body_eq, hfirst.body_eq, String.append_assoc]
  scope_eq := hsecond.scope_eq
  declares := by
    obtain ⟨names, hnames, hheader⟩ := hfirst.declares
    obtain ⟨names', hnames', hheader'⟩ := hsecond.declares
    rw [hfirst.scope_eq, hnames] at hnames'
    rw [hheader] at hheader'
    exact ⟨names ++ names', by rw [hnames', List.append_assoc],
      by rw [hheader', List.map_append, closedLines_append, String.append_assoc]⟩
  depth_eq := hsecond.depth_eq.trans hfirst.depth_eq
  pulled_eq := by rw [hsecond.pulled_eq, hfirst.pulled_eq, List.length_append, Nat.add_assoc]

omit [TokenSupply σ] in
/-- Steps in a row conform to what they stand for in a row. -/
theorem Conforms.bind {step : Generate σ Unit} {next : Unit → Generate σ Unit}
    (hstep : Conforms step setting state tokens middle text mentions)
    (hnext : ∀ between : Generator σ, between.outlook = middle → between.depth = state.depth →
      Conforms (next ()) setting between tokens' last text' mentions') :
    Conforms (step >>= next) setting state (tokens ++ tokens') last (text ++ text')
      (mentions ++ mentions') := by
  unfold Conforms at hstep ⊢
  rw [Scope.enterAll_append]
  cases hfirst : state.scope.enterAll mentions with
  | error objection =>
    rw [hfirst] at hstep
    obtain ⟨stop, hstop⟩ := hstep
    exact ⟨stop, bind_of_error hstop⟩
  | ok scope =>
    rw [hfirst] at hstep
    obtain ⟨between, hbetween, heffect⟩ := hstep
    have hrest := hnext between heffect.outlook_eq heffect.depth_eq
    unfold Conforms at hrest
    rw [heffect.scope_eq] at hrest
    rw [bind_of_ok hbetween]
    dsimp only
    cases hsecond : scope.enterAll mentions' with
    | error objection =>
      rw [hsecond] at hrest
      exact hrest
    | ok scope' =>
      rw [hsecond] at hrest
      obtain ⟨state', hstate', heffect'⟩ := hrest
      exact ⟨state', hstate', heffect.append heffect'⟩

omit [TokenSupply σ] in
/-- A step that enters no name conforms if it has its effect. -/
theorem conforms_of_ok {step : Generate σ Unit} (h : step setting state = .ok () state')
    (houtlook : state'.outlook = last) (hbody : state'.listing.body = state.listing.body ++ text)
    (hheader : state'.listing.header = state.listing.header) (hscope : state'.scope = state.scope)
    (hdepth : state'.depth = state.depth)
    (hpulled : state'.pulled = state.pulled + tokens.length) :
    Conforms step setting state tokens last text [] :=
  ⟨state', h, houtlook, hbody, hscope, ⟨[], by simp, by simp [hheader]⟩, hdepth, hpulled⟩

omit [TokenSupply σ] in
theorem conforms_pure : Conforms (pure ()) setting state [] state.outlook "" [] :=
  conforms_of_ok rfl rfl (by simp) rfl rfl rfl rfl

omit [TokenSupply σ] in
theorem conforms_write (text : String) :
    Conforms (write text) setting state [] state.outlook text [] :=
  conforms_of_ok rfl rfl rfl rfl rfl rfl rfl

omit [TokenSupply σ] in
theorem conforms_writeLine (text : String) :
    Conforms (writeLine text) setting state [] state.outlook (text ++ "\n") [] :=
  conforms_of_ok rfl rfl String.append_assoc rfl rfl rfl rfl

omit [TokenSupply σ] in
theorem conforms_write_bind {next : Unit → Generate σ Unit} (text : String)
    (hnext : ∀ between : Generator σ, between.outlook = state.outlook →
      between.depth = state.depth → Conforms (next ()) setting between tokens last text' mentions) :
    Conforms (write text >>= next) setting state tokens last (text ++ text') mentions :=
  (conforms_write text).bind hnext

/-- Moving past a token, and going on with it. -/
theorem conforms_advance {next : Token → Generate σ Unit} {token : Token}
    (hpasses : Passes state.outlook [token] middle)
    (hnext : ∀ between : Generator σ, between.outlook = middle → between.depth = state.depth →
      Conforms (next token) setting between tokens last text mentions) :
    Conforms (advance >>= next) setting state (token :: tokens) last text mentions := by
  obtain ⟨rfl, following, supply, hpull, hrest⟩ := passes_cons_iff.mp hpasses
  have hadvance : advance setting state = .ok state.current (state.moveTo supply following) :=
    advance_eq_ok_iff.mpr ⟨rfl, following, supply, hpull, rfl⟩
  have hmiddle : (state.moveTo supply following).outlook = middle := (passes_nil_iff.mp hrest).symm
  have hafter := hnext _ hmiddle rfl
  have hscope : (state.moveTo supply following).scope = state.scope := rfl
  unfold Conforms at hafter ⊢
  rw [bind_of_ok hadvance]
  rw [hscope] at hafter
  cases henter : state.scope.enterAll mentions with
  | error objection =>
    rw [henter] at hafter
    exact hafter
  | ok scope =>
    rw [henter] at hafter
    obtain ⟨state', hstate', heffect⟩ := hafter
    have hpulled : state'.pulled = state.pulled + (state.current :: tokens).length := by
      rw [heffect.pulled_eq, List.length_cons]
      change state.pulled + 1 + tokens.length = _
      omega
    exact ⟨state', hstate', heffect.outlook_eq, heffect.body_eq, heffect.scope_eq,
      heffect.declares, heffect.depth_eq, hpulled⟩

/-- Moving past an expected token, and going on with it. -/
theorem conforms_expect {next : Token → Generate σ Unit} {token : Token} {expected : Kind}
    (hpasses : Passes state.outlook [token] middle) (hkind : token.kind = expected)
    (hnext : ∀ between : Generator σ, between.outlook = middle → between.depth = state.depth →
      Conforms (next token) setting between tokens last text mentions) :
    Conforms (expect expected >>= next) setting state (token :: tokens) last text mentions := by
  have hcurrent : state.current.kind = expected := by
    obtain ⟨rfl, _⟩ := passes_cons_iff.mp hpasses
    exact hkind
  have hexpect : (expect expected >>= next) setting state = (advance >>= next) setting state := by
    rw [bind_apply, bind_apply, expect_of_kind hcurrent]
  have hadvance := conforms_advance hpasses hnext
  unfold Conforms at hadvance ⊢
  rw [hexpect]
  exact hadvance

omit [TokenSupply σ] in
theorem Conforms.of_eq {step : Generate σ Unit}
    (h : Conforms step setting state tokens' last text' mentions') (htokens : tokens = tokens')
    (htext : text = text') (hmentions : mentions = mentions') :
    Conforms step setting state tokens last text mentions := by
  rw [htokens, htext, hmentions]
  exact h

omit [TokenSupply σ] in
theorem Conforms.of_apply {step step' : Generate σ Unit}
    (h : Conforms step' setting state tokens last text mentions)
    (happly : step setting state = step' setting state) :
    Conforms step setting state tokens last text mentions := by
  unfold Conforms at h ⊢
  rw [happly]
  exact h

omit [TokenSupply σ] in
/-- A name that the scope holds already makes no difference. -/
theorem Conforms.of_enter {step : Generate σ Unit} {mention : Mention}
    (h : Conforms step setting state tokens last text mentions)
    (henter : state.scope.enter mention = .ok state.scope) :
    Conforms step setting state tokens last text (mention :: mentions) := by
  unfold Conforms at h ⊢
  rw [Scope.enterAll, henter]
  exact h

omit [TokenSupply σ] in
/-- A step that objects to the first name conforms. -/
theorem conforms_of_error {step : Generate σ Unit} {mention : Mention} {cause : Cause}
    (hobject : state.scope.enter mention = .error cause)
    (happly : step setting state = (failAt cause mention.name.location : Generate σ Unit)
      setting state) :
    Conforms step setting state tokens last text (mention :: mentions) := by
  unfold Conforms
  rw [Scope.enterAll, hobject]
  exact ⟨state, happly⟩

theorem kind_of_follows {outlook : Outlook σ} {allowed : Kind → Prop}
    (h : Passes outlook tokens last) (hfollows : Follows allowed (tokens ++ [last.2])) :
    allowed outlook.2.kind :=
  hfollows outlook.2 h.head?_eq

omit [TokenSupply σ] in
theorem conforms_repeatWhile_stop {test : Kind → Bool} {step : Generate σ Unit} {rounds : Nat}
    (hrounds : 0 < rounds) (htest : test state.current.kind = false) :
    Conforms (repeatWhile test step rounds) setting state [] state.outlook "" [] := by
  obtain ⟨rounds, rfl⟩ := Nat.exists_eq_add_one.mpr hrounds
  have hstop : repeatWhile test step (rounds + 1) setting state = .ok () state := by
    have hkind : kind setting state = .ok state.current.kind state := rfl
    rw [repeatWhile, bind_of_ok hkind, htest]
    rfl
  exact conforms_of_ok hstop rfl (by simp) rfl rfl rfl rfl

omit [TokenSupply σ] in
theorem conforms_repeatWhile_step {test : Kind → Bool} {step : Generate σ Unit} {rounds : Nat}
    (htest : test state.current.kind = true)
    (hstep : Conforms step setting state tokens middle text mentions)
    (hrest : ∀ between : Generator σ, between.outlook = middle → between.depth = state.depth →
      Conforms (repeatWhile test step rounds) setting between tokens' last text' mentions') :
    Conforms (repeatWhile test step (rounds + 1)) setting state (tokens ++ tokens') last
      (text ++ text') (mentions ++ mentions') := by
  have hround : repeatWhile test step (rounds + 1) setting state =
      (step >>= fun _ ↦ repeatWhile test step rounds) setting state := by
    have hkind : kind setting state = .ok state.current.kind state := rfl
    rw [repeatWhile, bind_of_ok hkind, htest]
    rfl
  have hconforms : Conforms (step >>= fun _ ↦ repeatWhile test step rounds) setting state
      (tokens ++ tokens') last (text ++ text') (mentions ++ mentions') := hstep.bind hrest
  unfold Conforms at hconforms ⊢
  rw [hround]
  exact hconforms

end

variable [LawfulTokenSupply σ]

theorem conforms_skipNewlines {tokens : List Token} {last : Outlook σ}
    (htokens : ∀ token ∈ tokens, token.kind = .newline) (hpasses : Passes state.outlook tokens last)
    (hlast : last.2.kind ≠ .newline) :
    Conforms skipNewlines setting state tokens last "" [] := by
  have hrepeat : ∀ rounds, tokens.length < rounds →
      Conforms (repeatWhile (· = .newline) (do let _ ← advance) rounds) setting state tokens last
        "" [] := by
    induction tokens generalizing state with
    | nil =>
      intro rounds hrounds
      obtain rfl := passes_nil_iff.mp hpasses
      have htest : decide (state.current.kind = .newline) = false := decide_eq_false hlast
      exact conforms_repeatWhile_stop hrounds htest
    | cons token rest ih =>
      intro rounds hrounds
      obtain ⟨rounds, rfl⟩ := Nat.exists_eq_add_one.mpr (Nat.zero_lt_of_lt hrounds)
      obtain ⟨middle, hfirst, hrest⟩ := hpasses.exists_of_cons
      have hcurrent : token = state.current := (passes_cons_iff.mp hfirst).1
      have htest : decide (state.current.kind = .newline) = true :=
        decide_eq_true (hcurrent ▸ htokens token List.mem_cons_self)
      have hstep : Conforms (do let _ ← advance) setting state [token] middle "" [] := by
        apply conforms_advance hfirst
        rintro between rfl _
        exact conforms_pure
      have htail : ∀ t ∈ rest, t.kind = .newline :=
        fun t ht ↦ htokens t (List.mem_cons_of_mem _ ht)
      have hlength : rest.length < rounds := Nat.lt_of_succ_lt_succ hrounds
      have hround : Conforms (repeatWhile (· = .newline) (do let _ ← advance) (rounds + 1)) setting
          state ([token] ++ rest) last ("" ++ "") ([] ++ []) := by
        apply conforms_repeatWhile_step htest hstep
        rintro between rfl _
        exact ih htail hrest rounds hlength
      exact hround.of_eq rfl (by simp) rfl
  have hlength : tokens.length < TokenSupply.bound state.supply := by
    apply hpasses.length_lt_bound
    intro token htoken
    simp [htokens token htoken]
  exact hrepeat _ hlength

theorem conforms_newline {ends : List Token} {last : Outlook σ} (hends : IsLineEnd ends)
    (hpasses : Passes state.outlook ends last) (hlast : last.2.kind ≠ .newline) :
    Conforms newline setting state ends last "" [] := by
  cases ends with
  | nil => exact absurd rfl hends.1
  | cons token rest =>
    obtain ⟨middle, hfirst, hrest⟩ := hpasses.exists_of_cons
    apply conforms_expect hfirst (hends.2 token List.mem_cons_self)
    rintro between rfl _
    exact conforms_skipNewlines (fun t ht ↦ hends.2 t (List.mem_cons_of_mem _ ht)) hrest hlast

/-! ## Expressions -/

omit [LawfulTokenSupply σ] in
theorem primary_of_number (h : state.current.kind = .number) :
    primary setting state =
      (do let token ← advance; write (Numeral.decimal token.spelling) : Generate σ Unit)
        setting state := by
  have hget : (get : Generate σ (Generator σ)) setting state = .ok state state := rfl
  rw [primary, bind_of_ok hget, h]

omit [LawfulTokenSupply σ] in
theorem primary_of_identifier (h : state.current.kind = .identifier) :
    primary setting state =
      (if state.scope.declaredVariables.contains state.current.spelling then do
        let token ← advance
        write token.spelling
      else failAt (.undeclared state.current.spelling state.scope.declaredVariables.names)
        state.current.location : Generate σ Unit) setting state := by
  have hget : (get : Generate σ (Generator σ)) setting state = .ok state state := rfl
  rw [primary, bind_of_ok hget, h]

omit [LawfulTokenSupply σ] in
theorem conforms_primary {tree : Primary} {tokens : List Token} {last : Outlook σ}
    (htree : tree.Derives tokens) (hpasses : Passes state.outlook tokens last) :
    Conforms primary setting state tokens last tree.text tree.mentions := by
  cases tree with
  | number spelling =>
    obtain ⟨token, rfl, hkind, rfl⟩ := htree
    have hcurrent : token = state.current := (passes_cons_iff.mp hpasses).1
    have hwrite : Conforms (do let token ← advance; write (Numeral.decimal token.spelling))
        setting state [token] last (Numeral.decimal token.spelling) [] := by
      apply conforms_advance hpasses
      rintro between rfl _
      exact conforms_write _
    exact hwrite.of_apply (primary_of_number (hcurrent ▸ hkind))
  | named name =>
    obtain ⟨token, rfl, hkind, rfl⟩ := htree
    have hcurrent : token = state.current := (passes_cons_iff.mp hpasses).1
    have happly : primary setting state = _ := primary_of_identifier (hcurrent ▸ hkind)
    rw [← hcurrent] at happly
    by_cases hknown : state.scope.declaredVariables.contains token.spelling = true
    · rw [if_pos hknown] at happly
      have henter : state.scope.enter ⟨.reading, Name.ofToken token⟩ = .ok state.scope :=
        if_pos hknown
      have hwrite : Conforms (do let token ← advance; write token.spelling)
          setting state [token] last token.spelling [] := by
        apply conforms_advance hpasses
        rintro between rfl _
        exact conforms_write _
      exact (hwrite.of_apply happly).of_enter henter
    · rw [if_neg hknown] at happly
      have hobject : state.scope.enter ⟨.reading, Name.ofToken token⟩ =
          .error (.undeclared token.spelling state.scope.declaredVariables.names) :=
        if_neg hknown
      exact conforms_of_error hobject happly

omit [LawfulTokenSupply σ] in
theorem conforms_unary {tree : Signed} {tokens : List Token} {last : Outlook σ}
    (htree : tree.Derives tokens) (hinner : ∀ token ∈ tokens, token.IsInner)
    (hpasses : Passes state.outlook tokens last) :
    Conforms unary setting state tokens last tree.text tree.mentions := by
  have hkind : kind setting state = .ok state.current.kind state := rfl
  obtain ⟨sign, primary⟩ := tree
  cases sign with
  | none =>
    have hplain : unary setting state = Generate.primary setting state := by
      obtain ⟨token, rfl, htoken⟩ := Primary.Derives.exists_token htree
      have hcurrent : token = state.current := (passes_cons_iff.mp hpasses).1
      have hsigned : state.current.kind.isAdditive = false := by
        rw [← hcurrent]
        rcases htoken with htoken | htoken <;> rw [htoken] <;> rfl
      rw [unary, bind_of_ok hkind, hsigned]
      rfl
    exact (conforms_primary htree hpasses).of_apply hplain
  | some sign =>
    obtain ⟨token, rest, rfl, htoken, hprimary⟩ := htree
    obtain ⟨middle, hfirst, hrest⟩ := hpasses.exists_of_cons
    have hcurrent : token = state.current := (passes_cons_iff.mp hfirst).1
    have hspelling : token.spelling = sign.operator.symbol :=
      (hinner token List.mem_cons_self).wellSpelled.operator htoken
    have hsigned : state.current.kind.isAdditive = true := by
      rw [← hcurrent, htoken]
      cases sign <;> rfl
    have happly : unary setting state =
        (do let sign ← advance; write sign.spelling; Generate.primary : Generate σ Unit)
          setting state := by
      rw [unary, bind_of_ok hkind, hsigned]
      rfl
    have hconforms : Conforms (do let sign ← advance; write sign.spelling; Generate.primary)
        setting state (token :: rest) last (token.spelling ++ primary.text) primary.mentions := by
      apply conforms_advance hfirst
      rintro between rfl _
      apply conforms_write_bind
      intro between' houtlook _
      exact conforms_primary hprimary (houtlook ▸ hrest)
    rw [hspelling] at hconforms
    exact hconforms.of_apply happly

/-- Operators and items in a row, given that each round of the loop conforms to one of each. -/
theorem conforms_links {ω α : Type} {kind : ω → Kind} {item : α → List Token → Prop}
    (allowed : Kind → Prop) {test : Kind → Bool} {step : Generate σ Unit} {text : ω → α → String}
    {mentions : α → List Mention} {links : List (ω × α)} {tokens : List Token} {last : Outlook σ}
    (hlinks : LinksDerive kind item links tokens) (hinner : ∀ token ∈ tokens, token.IsInner)
    (hpasses : Passes state.outlook tokens last) (hlast : allowed last.2.kind)
    (hstop : test last.2.kind = false) (htest : ∀ operator, test (kind operator) = true)
    (hallowed : ∀ operator, allowed (kind operator))
    (hround : ∀ {now : Generator σ} {last : Outlook σ} {operator : ω} {a : α} {token : Token}
      {tokens : List Token}, token.kind = kind operator → item a tokens →
      (∀ t ∈ token :: tokens, t.IsInner) → Passes now.outlook (token :: tokens) last →
      allowed last.2.kind →
      Conforms step setting now (token :: tokens) last (text operator a) (mentions a)) :
    Conforms (loopWhile test step) setting state tokens last
      (String.join (links.map fun link ↦ text link.1 link.2))
      (links.flatMap fun link ↦ mentions link.2) := by
  have hrepeat : ∀ rounds, tokens.length < rounds →
      Conforms (repeatWhile test step rounds) setting state tokens last
        (String.join (links.map fun link ↦ text link.1 link.2))
        (links.flatMap fun link ↦ mentions link.2) := by
    induction links generalizing state tokens with
    | nil =>
      intro rounds hrounds
      have htokens : tokens = [] := hlinks
      rw [htokens] at hpasses ⊢
      obtain rfl := passes_nil_iff.mp hpasses
      exact (conforms_repeatWhile_stop (Nat.zero_lt_of_lt hrounds) hstop).of_eq rfl (by simp) rfl
    | cons link rest ih =>
      intro rounds hrounds
      obtain ⟨rounds, rfl⟩ := Nat.exists_eq_add_one.mpr (Nat.zero_lt_of_lt hrounds)
      obtain ⟨operator, a⟩ := link
      obtain ⟨token, front, back, rfl, hkind, hitem, hrest⟩ := hlinks
      rw [← List.cons_append] at hpasses hinner
      obtain ⟨middle, hfront, hback⟩ := passes_append_iff.mp hpasses
      have hcurrent : token = state.current := (passes_cons_iff.mp hfront).1
      have hgo : test state.current.kind = true := by rw [← hcurrent, hkind, htest]
      have hmiddle : allowed middle.2.kind := by
        apply kind_of_follows hback
        exact hrest.follows hallowed (follows_cons.mpr hlast)
      have hfirst : Conforms step setting state (token :: front) middle (text operator a)
          (mentions a) :=
        hround hkind hitem (fun t ht ↦ hinner t (List.mem_append_left _ ht)) hfront hmiddle
      have hlength : back.length < rounds := by
        simp only [List.length_cons, List.length_append] at hrounds
        omega
      have hstep : Conforms (repeatWhile test step (rounds + 1)) setting state
          (token :: front ++ back) last
          (text operator a ++ String.join (rest.map fun link ↦ text link.1 link.2))
          (mentions a ++ rest.flatMap fun link ↦ mentions link.2) := by
        apply conforms_repeatWhile_step hgo hfirst
        rintro between rfl _
        exact ih hrest (fun t ht ↦ hinner t (List.mem_append_right _ ht)) hback rounds hlength
      exact hstep.of_eq rfl (by simp) (by simp)
  have hlength : tokens.length < TokenSupply.bound state.supply :=
    hpasses.length_lt_bound fun token htoken ↦ (hinner token htoken).ne_endOfInput
  exact hrepeat _ hlength

theorem conforms_term {tree : Term} {tokens : List Token} {last : Outlook σ}
    (htree : Term.Derives tree tokens) (hinner : ∀ token ∈ tokens, token.IsInner)
    (hpasses : Passes state.outlook tokens last) (hlast : EndsTerm last.2.kind) :
    Conforms term setting state tokens last tree.text tree.mentions := by
  obtain ⟨front, back, rfl, hfirst, hlinks⟩ := htree
  obtain ⟨middle, hfront, hback⟩ := passes_append_iff.mp hpasses
  have hround : ∀ {now : Generator σ} {last : Outlook σ} {scaling : Scaling} {signed : Signed}
      {token : Token} {tokens : List Token}, token.kind = scaling.kind → signed.Derives tokens →
      (∀ t ∈ token :: tokens, t.IsInner) → Passes now.outlook (token :: tokens) last → True →
      Conforms (do let operator ← advance; write operator.spelling; unary) setting now
        (token :: tokens) last (scaling.operator.symbol ++ signed.text) signed.mentions := by
    intro now last scaling signed token tokens hkind hsigned hinner hpasses _
    obtain ⟨middle, hfirst, hrest⟩ := hpasses.exists_of_cons
    rw [← (hinner token List.mem_cons_self).wellSpelled.operator hkind]
    apply conforms_advance hfirst
    rintro between rfl _
    apply conforms_write_bind
    intro between' houtlook _
    exact conforms_unary hsigned (fun t ht ↦ hinner t (List.mem_cons_of_mem _ ht))
      (houtlook ▸ hrest)
  have htest : ∀ scaling : Scaling, scaling.kind.isMultiplicative = true :=
    fun scaling ↦ (isMultiplicative_iff _).mpr ⟨scaling, rfl⟩
  have hunary : Conforms unary setting state front middle tree.first.text tree.first.mentions :=
    conforms_unary hfirst (fun t ht ↦ hinner t (List.mem_append_left _ ht)) hfront
  apply hunary.bind
  rintro between rfl _
  exact conforms_links (fun _ ↦ True) hlinks (fun t ht ↦ hinner t (List.mem_append_right _ ht))
    hback trivial hlast.isMultiplicative_eq_false htest (fun _ ↦ trivial) hround

theorem conforms_expression {tree : Expression} {tokens : List Token} {last : Outlook σ}
    (htree : Expression.Derives tree tokens) (hinner : ∀ token ∈ tokens, token.IsInner)
    (hpasses : Passes state.outlook tokens last) (hlast : EndsExpression last.2.kind) :
    Conforms expression setting state tokens last tree.text tree.mentions := by
  obtain ⟨front, back, rfl, hfirst, hlinks⟩ := htree
  obtain ⟨middle, hfront, hback⟩ := passes_append_iff.mp hpasses
  have hround : ∀ {now : Generator σ} {last : Outlook σ} {sign : Sign} {tree : Term}
      {token : Token} {tokens : List Token}, token.kind = sign.kind → Term.Derives tree tokens →
      (∀ t ∈ token :: tokens, t.IsInner) → Passes now.outlook (token :: tokens) last →
      EndsTerm last.2.kind →
      Conforms (do
        let operator ← advance
        write operator.spelling
        if ← check operator.kind then write " "
        term) setting now (token :: tokens) last (sign.textBefore tree ++ tree.text)
        tree.mentions := by
    intro now last sign tree token tokens hkind htree hinner hpasses hlast
    obtain ⟨middle, hfirst, hrest⟩ := hpasses.exists_of_cons
    obtain ⟨head, more, rfl, hhead⟩ := htree.exists_head
    rw [Sign.textBefore, ← (hinner token List.mem_cons_self).wellSpelled.operator hkind,
      String.append_assoc]
    apply conforms_advance hfirst
    rintro between rfl _
    apply conforms_write_bind
    intro between' houtlook _
    rw [← houtlook] at hrest
    have hterm : ∀ {now : Generator σ}, now.outlook = between'.outlook →
        Conforms term setting now (head :: more) last tree.text tree.mentions := by
      intro now hnow
      exact conforms_term htree (fun t ht ↦ hinner t (List.mem_cons_of_mem _ ht))
        (hnow ▸ hrest) hlast
    have hcurrent : head = between'.current := (passes_cons_iff.mp hrest).1
    have hcheck : check token.kind setting between' =
        .ok (decide (between'.current.kind = token.kind)) between' := check_apply _
    by_cases hsame : tree.first.sign = some sign
    · have hequal : between'.current.kind = token.kind := by
        rw [← hcurrent, hkind, hhead sign]
        exact hsame
      rw [if_pos hsame]
      have hspace : Conforms (write " " >>= fun _ ↦ term) setting between' (head :: more) last
          (" " ++ tree.text) tree.mentions := by
        apply conforms_write_bind
        intro between'' houtlook' _
        exact hterm houtlook'
      apply hspace.of_apply
      rw [bind_of_ok hcheck, decide_eq_true hequal]
      rfl
    · have hdiffers : between'.current.kind ≠ token.kind := by
        rw [← hcurrent, hkind, ne_eq, hhead sign]
        exact hsame
      rw [if_neg hsame, String.empty_append]
      apply (hterm rfl).of_apply
      rw [bind_of_ok hcheck, decide_eq_false hdiffers]
      rfl
  have htest : ∀ sign : Sign, sign.kind.isAdditive = true :=
    fun sign ↦ (isAdditive_iff _).mpr ⟨sign, rfl⟩
  have hmiddle : EndsTerm middle.2.kind := by
    apply kind_of_follows hback
    exact hlinks.follows Sign.endsTerm (follows_cons.mpr hlast.1)
  have hterm : Conforms term setting state front middle (Term.text tree.first)
      (Term.mentions tree.first) :=
    conforms_term hfirst (fun t ht ↦ hinner t (List.mem_append_left _ ht)) hfront hmiddle
  apply hterm.bind
  rintro between rfl _
  exact conforms_links EndsTerm hlinks (fun t ht ↦ hinner t (List.mem_append_right _ ht))
    hback hlast.1 hlast.isAdditive_eq_false htest Sign.endsTerm hround

theorem conforms_comparison {tree : Condition} {tokens : List Token} {last : Outlook σ}
    (htree : tree.Derives tokens) (hinner : ∀ token ∈ tokens, token.IsInner)
    (hpasses : Passes state.outlook tokens last) (hlast : EndsCondition last.2.kind) :
    Conforms comparison setting state tokens last tree.text tree.mentions := by
  obtain ⟨⟨first, links⟩, hcompares⟩ := tree
  obtain ⟨front, back, rfl, hfirst, hlinks⟩ := htree
  obtain ⟨middle, hfront, hback⟩ := passes_append_iff.mp hpasses
  have hround : ∀ {now : Generator σ} {last : Outlook σ} {relation : Comparison}
      {tree : Expression} {token : Token} {tokens : List Token}, token.kind = .comparison relation →
      Expression.Derives tree tokens → (∀ t ∈ token :: tokens, t.IsInner) →
      Passes now.outlook (token :: tokens) last → EndsExpression last.2.kind →
      Conforms (do let relation ← advance; write relation.spelling; expression) setting now
        (token :: tokens) last (relation.symbol ++ tree.text) tree.mentions := by
    intro now last relation tree token tokens hkind htree hinner hpasses hlast
    obtain ⟨middle, hfirst, hrest⟩ := hpasses.exists_of_cons
    rw [← (hinner token List.mem_cons_self).wellSpelled.comparison hkind]
    apply conforms_advance hfirst
    rintro between rfl _
    apply conforms_write_bind
    intro between' houtlook _
    exact conforms_expression htree (fun t ht ↦ hinner t (List.mem_cons_of_mem _ ht))
      (houtlook ▸ hrest) hlast
  have htest : ∀ relation : Comparison, (Kind.comparison relation).isComparison = true :=
    fun _ ↦ rfl
  have hmiddle : EndsExpression middle.2.kind := by
    apply kind_of_follows hback
    exact hlinks.follows endsExpression_comparison (follows_cons.mpr hlast.1)
  have hexpression : Conforms expression setting state front middle first.text first.mentions :=
    conforms_expression hfirst (fun t ht ↦ hinner t (List.mem_append_left _ ht)) hfront hmiddle
  apply hexpression.bind
  rintro between rfl _
  have hloop := conforms_links EndsExpression hlinks
    (fun t ht ↦ hinner t (List.mem_append_right _ ht)) hback hlast.1 hlast.isComparison_eq_false
    htest endsExpression_comparison hround
  apply hloop.of_apply
  cases links with
  | nil => exact absurd rfl hcompares
  | cons link rest =>
    obtain ⟨token, _, _, rfl, hkind, _⟩ := hlinks
    have hcurrent : token = between.current := (passes_cons_iff.mp hback).1
    have hcomparison : between.current.kind.isComparison = true := by
      rw [← hcurrent, hkind]
      rfl
    have hget : kind setting between = .ok between.current.kind between := rfl
    rw [bind_of_ok hget, hcomparison]
    rfl

section

omit [TokenSupply σ] [LawfulTokenSupply σ]

theorem checkName_of_mem {token : Token} {reserved : List String}
    (h : token.spelling ∈ reserved) : checkName token reserved setting state =
      (failAt (.reservedName token.spelling) token.location : Generate σ Unit) setting state := by
  rw [checkName, if_pos h]

theorem checkName_of_not_mem {token : Token} {reserved : List String}
    (h : token.spelling ∉ reserved) : checkName token reserved setting state = .ok () state := by
  rw [checkName, if_neg h]
  rfl

/-- A step that enters one name conforms if it leaves the scope with that name in it. -/
theorem conforms_of_enter {step : Generate σ Unit} {mention : Mention} {scope : Scope}
    {tokens : List Token} {last : Outlook σ} {text : String}
    (henter : state.scope.enter mention = .ok scope) (hstep : step setting state = .ok () state')
    (heffect : Effect state tokens last text scope state') :
    Conforms step setting state tokens last text [mention] := by
  unfold Conforms
  rw [Scope.enterAll_singleton_of_ok henter]
  exact ⟨state', hstep, heffect⟩

theorem conforms_declareVariable (token : Token) :
    Conforms (declareVariable token) setting state [] state.outlook ""
      [⟨.target, Name.ofToken token⟩] := by
  have hget : (get : Generate σ (Generator σ)) setting state = .ok state state := rfl
  by_cases hknown : state.scope.declaredVariables.contains token.spelling = true
  · have henter : state.scope.enter ⟨.target, Name.ofToken token⟩ = .ok state.scope :=
      if_pos hknown
    have hstep : declareVariable token setting state = .ok () state := by
      rw [declareVariable, bind_of_ok hget, if_pos hknown]
      rfl
    exact (conforms_pure.of_apply hstep).of_enter henter
  by_cases hreserved : token.spelling ∈ Reserved.variableNames
  · have hobject : state.scope.enter ⟨.target, Name.ofToken token⟩ =
        .error (.reservedName token.spelling) :=
      (if_neg hknown).trans (if_pos hreserved)
    apply conforms_of_error hobject
    rw [declareVariable, bind_of_ok hget, if_neg hknown, bind_apply, checkName_of_mem hreserved]
    rfl
  · have henter : state.scope.enter ⟨.target, Name.ofToken token⟩ = .ok { state.scope with
        declaredVariables :=
          state.scope.declaredVariables.insertNew token.spelling token.location } :=
      (if_neg hknown).trans (if_neg hreserved)
    have hnames : (state.scope.declaredVariables.insertNew token.spelling token.location).names =
        state.scope.declaredVariables.names ++ [token.spelling] := by
      rw [Table.names_insertNew, if_neg hknown]
    apply conforms_of_enter henter
    · rw [declareVariable, bind_of_ok hget, if_neg hknown,
        bind_of_ok (checkName_of_not_mem hreserved)]
      rfl
    · exact ⟨rfl, by simp [Listing.declare], rfl, ⟨[token.spelling], hnames,
        by simp [Listing.declare, declarationLine, String.append_assoc]⟩, rfl, rfl⟩

end

/-! ## Simple statements -/

omit [LawfulTokenSupply σ] in
/-- A keyword and a name, and going on with the name. -/
theorem conforms_keyword {keyword : Keyword} {name : Name} {front tokens : List Token}
    {middle last : Outlook σ} {text : String} {mentions : List Mention}
    {next : Token → Generate σ Unit} (hfront : KeywordDerives keyword name front)
    (hpasses : Passes state.outlook front middle)
    (hnext : ∀ (token : Token) (between : Generator σ), Name.ofToken token = name →
      between.outlook = middle → between.depth = state.depth →
      Conforms (next token) setting between tokens last text mentions) :
    Conforms (do
      let _ ← expect (.keyword keyword)
      let token ← expect .identifier
      next token) setting state (front ++ tokens) last text mentions := by
  obtain ⟨word, token, rfl, hword, htoken, hname⟩ := hfront
  obtain ⟨middle', hfirst, hsecond⟩ := hpasses.exists_of_cons
  apply conforms_expect hfirst hword
  rintro between rfl hdepth
  apply conforms_expect hsecond htoken
  rintro between' rfl hdepth'
  exact hnext token between' hname rfl (hdepth'.trans hdepth)

omit [LawfulTokenSupply σ] in
theorem conforms_printText {text : String} {tokens : List Token} {last : Outlook σ}
    (htree : (Statement.printText text).DerivesFront tokens)
    (hpasses : Passes state.outlook tokens last) :
    Conforms printStatement setting state tokens last
      (closedLines ((Statement.printText text).lines setting.numberFormat))
      (Statement.printText text).mentions := by
  obtain ⟨word, token, rfl, hword, htoken, rfl⟩ := htree
  obtain ⟨middle, hfirst, hsecond⟩ := hpasses.exists_of_cons
  have hprint : Conforms printStatement setting state [word, token] last
      (s!"printf(\"{token.spelling}\\n\");" ++ "\n") [] := by
    apply conforms_expect hfirst hword
    rintro between rfl _
    have hcurrent : token = between.current := (passes_cons_iff.mp hsecond).1
    have hstring : decide (between.current.kind = .string) = true :=
      decide_eq_true (hcurrent ▸ htoken)
    have hline : Conforms (do
        let token ← advance
        writeLine s!"printf(\"{token.spelling}\\n\");") setting between [token] last
        (s!"printf(\"{token.spelling}\\n\");" ++ "\n") [] := by
      apply conforms_advance hsecond
      rintro between' rfl _
      exact conforms_writeLine _
    apply hline.of_apply
    rw [bind_of_ok (check_apply Kind.string), hstring]
    rfl
  exact hprint.of_eq rfl (by simp [Statement.lines]) (by simp [Statement.mentions])

theorem conforms_print {value : Expression} {tokens : List Token} {last : Outlook σ}
    (htree : (Statement.print value).DerivesFront tokens)
    (hinner : ∀ token ∈ tokens, token.IsInner) (hpasses : Passes state.outlook tokens last)
    (hlast : EndsExpression last.2.kind) :
    Conforms printStatement setting state tokens last
      (closedLines ((Statement.print value).lines setting.numberFormat))
      (Statement.print value).mentions := by
  obtain ⟨word, rest, rfl, hword, hvalue⟩ := htree
  obtain ⟨middle, hfirst, hrest⟩ := hpasses.exists_of_cons
  have hprint : Conforms printStatement setting state (word :: (rest ++ [])) last
      (s!"printf(\"{setting.numberFormat}\\n\", (float)(" ++ (value.text ++ ("));" ++ "\n")))
      (value.mentions ++ []) := by
    apply conforms_expect hfirst hword
    rintro between rfl _
    have hstring : decide (between.current.kind = .string) = false := by
      apply decide_eq_false
      have hhead := hrest.head?_eq
      cases hheads : rest ++ [last.2] with
      | nil => simp at hheads
      | cons head more =>
        rw [hheads, List.head?_cons, Option.some.injEq] at hhead
        have hother := not_string_of_derives hvalue hheads
        rw [hhead] at hother
        exact hother
    have hline : Conforms (do
        write s!"printf(\"{setting.numberFormat}\\n\", (float)("
        expression
        writeLine "));") setting between (rest ++ []) last
        (s!"printf(\"{setting.numberFormat}\\n\", (float)(" ++ (value.text ++ ("));" ++ "\n")))
        (value.mentions ++ []) := by
      apply conforms_write_bind
      intro between' houtlook _
      have hexpression : Conforms expression setting between' rest last value.text value.mentions :=
        conforms_expression hvalue (fun t ht ↦ hinner t (List.mem_cons_of_mem _ ht))
          (houtlook ▸ hrest) hlast
      apply hexpression.bind
      rintro between'' rfl _
      exact conforms_writeLine _
    apply hline.of_apply
    rw [bind_of_ok (check_apply Kind.string), hstring]
    rfl
  apply hprint.of_eq (by simp) ?_ (by simp [Statement.mentions])
  simp only [Statement.lines, closedLines_cons, closedLines_nil, String.append_empty,
    String.append_assoc]
  rfl

omit [LawfulTokenSupply σ] in
theorem conforms_labelStatement {name : Name} {tokens : List Token} {last : Outlook σ}
    (htree : (Statement.label name).DerivesFront tokens)
    (hpasses : Passes state.outlook tokens last) :
    Conforms labelStatement setting state tokens last
      (closedLines ((Statement.label name).lines setting.numberFormat))
      (Statement.label name).mentions := by
  have hlabel : Conforms labelStatement setting state (tokens ++ []) last
      (s!"{name.spelling}:" ++ "\n") [⟨.label, name⟩] := by
    apply conforms_keyword htree hpasses
    rintro token between rfl rfl _
    have hget : (get : Generate σ (Generator σ)) setting between = .ok between between := rfl
    by_cases hreserved : token.spelling ∈ Reserved.labelNames
    · have hobject : between.scope.enter ⟨.label, Name.ofToken token⟩ =
          .error (.reservedName token.spelling) := if_pos hreserved
      apply conforms_of_error hobject
      rw [bind_apply, checkName_of_mem hreserved]
      rfl
    have hcheck : checkName token Reserved.labelNames setting between = .ok () between :=
      checkName_of_not_mem hreserved
    by_cases hknown : between.scope.declaredLabels.contains token.spelling = true
    · have hobject : between.scope.enter ⟨.label, Name.ofToken token⟩ =
          .error (.duplicateLabel token.spelling
            (between.scope.declaredLabels.find? token.spelling)) :=
        (if_neg hreserved).trans (if_pos hknown)
      apply conforms_of_error hobject
      rw [bind_of_ok hcheck, bind_of_ok hget, if_pos hknown, bind_apply]
      rfl
    · have henter : between.scope.enter ⟨.label, Name.ofToken token⟩ = .ok { between.scope with
          declaredLabels := between.scope.declaredLabels.insertNew token.spelling token.location } :=
        (if_neg hreserved).trans (if_neg hknown)
      apply conforms_of_enter henter
      · rw [bind_of_ok hcheck, bind_of_ok hget, if_neg hknown]
        rfl
      · exact ⟨rfl, String.append_assoc, rfl, ⟨[], by simp, by simp [Listing.writeLine]⟩, rfl, rfl⟩
  exact hlabel.of_eq (by simp) (by simp [Statement.lines]) (by simp [Statement.mentions])

omit [LawfulTokenSupply σ] in
theorem conforms_gotoStatement {target : Name} {tokens : List Token} {last : Outlook σ}
    (htree : (Statement.jump target).DerivesFront tokens)
    (hpasses : Passes state.outlook tokens last) :
    Conforms gotoStatement setting state tokens last
      (closedLines ((Statement.jump target).lines setting.numberFormat))
      (Statement.jump target).mentions := by
  have hjump : Conforms gotoStatement setting state (tokens ++ []) last
      (s!"goto {target.spelling};" ++ "\n") [⟨.jump, target⟩] := by
    apply conforms_keyword htree hpasses
    rintro token between rfl rfl _
    by_cases hreserved : token.spelling ∈ Reserved.labelNames
    · have hobject : between.scope.enter ⟨.jump, Name.ofToken token⟩ =
          .error (.reservedName token.spelling) := if_pos hreserved
      apply conforms_of_error hobject
      rw [bind_apply, checkName_of_mem hreserved]
      rfl
    · have henter : between.scope.enter ⟨.jump, Name.ofToken token⟩ = .ok { between.scope with
          referencedLabels :=
            between.scope.referencedLabels.insertNew token.spelling token.location } :=
        if_neg hreserved
      apply conforms_of_enter henter
      · rw [bind_of_ok (checkName_of_not_mem hreserved)]
        rfl
      · exact ⟨rfl, String.append_assoc, rfl, ⟨[], by simp, by simp [Listing.writeLine]⟩, rfl, rfl⟩
  exact hjump.of_eq (by simp) (by simp [Statement.lines]) (by simp [Statement.mentions])

theorem conforms_letStatement {target : Name} {value : Expression} {tokens : List Token}
    {last : Outlook σ} (htree : (Statement.assign target value).DerivesFront tokens)
    (hinner : ∀ token ∈ tokens, token.IsInner) (hpasses : Passes state.outlook tokens last)
    (hlast : EndsExpression last.2.kind) :
    Conforms letStatement setting state tokens last
      (closedLines ((Statement.assign target value).lines setting.numberFormat))
      (Statement.assign target value).mentions := by
  obtain ⟨front, sign, back, rfl, hfront, hsign, hvalue⟩ := htree
  obtain ⟨middle, hname, hrest⟩ := passes_append_iff.mp hpasses
  obtain ⟨middle', hassign, hback⟩ := hrest.exists_of_cons
  have hlet : Conforms letStatement setting state (front ++ ([] ++ sign :: (back ++ []))) last
      ("" ++ (s!"{target.spelling} = " ++ (value.text ++ (";" ++ "\n"))))
      ([⟨.target, target⟩] ++ (value.mentions ++ [])) := by
    apply conforms_keyword hfront hname
    rintro token between rfl rfl _
    apply (conforms_declareVariable token).bind
    intro between' houtlook _
    apply conforms_write_bind
    intro between'' houtlook' _
    rw [← houtlook, ← houtlook'] at hassign
    apply conforms_expect hassign hsign
    rintro behind rfl _
    have hinside : ∀ t ∈ back, t.IsInner :=
      fun t ht ↦ hinner t (List.mem_append_right _ (List.mem_cons_of_mem _ ht))
    have hexpression : Conforms expression setting behind back last value.text value.mentions :=
      conforms_expression hvalue hinside hback hlast
    apply hexpression.bind
    rintro final rfl _
    exact conforms_writeLine _
  apply hlet.of_eq (by simp) ?_ (by simp [Statement.mentions])
  simp only [Statement.lines, closedLines_cons, closedLines_nil, String.append_empty,
    String.empty_append, String.append_assoc]
  rfl

omit [LawfulTokenSupply σ] in
theorem conforms_inputStatement {target : Name} {tokens : List Token} {last : Outlook σ}
    (htree : (Statement.input target).DerivesFront tokens)
    (hpasses : Passes state.outlook tokens last) :
    Conforms inputStatement setting state tokens last
      (closedLines ((Statement.input target).lines setting.numberFormat))
      (Statement.input target).mentions := by
  have hinput : Conforms inputStatement setting state (tokens ++ ([] ++ [])) last
      ("" ++ closedLines ((Statement.input target).lines setting.numberFormat))
      ([⟨.target, target⟩] ++ []) := by
    apply conforms_keyword htree hpasses
    rintro token between rfl rfl _
    apply (conforms_declareVariable token).bind
    rintro between' houtlook _
    have hbody : (((between'.listing.writeLine
        s!"if (0 == scanf(\"%f\", &{token.spelling})) \x7b").writeLine
        s!"{token.spelling} = 0;").writeLine "scanf(\"%*s\");" |>.writeLine "\x7d").body =
        between'.listing.body ++ closedLines
          ((Statement.input (Name.ofToken token)).lines setting.numberFormat) := by
      simp only [Listing.writeLine, Statement.lines, closedLines_cons, closedLines_nil,
        String.append_empty, String.append_assoc]
      rfl
    exact conforms_of_ok rfl houtlook hbody rfl rfl rfl rfl
  exact hinput.of_eq (by simp) (by simp) (by simp [Statement.mentions])

/-! ## Blocks -/

theorem conforms_condition {tree : Condition} {opening closing : Keyword} {text : String}
    {first final : Token} {test ends : List Token} {last : Outlook σ}
    (hfirst : first.kind = .keyword opening) (htree : tree.Derives test)
    (hfinal : final.kind = .keyword closing) (hends : IsLineEnd ends)
    (hinner : ∀ token ∈ test, token.IsInner)
    (hpasses : Passes state.outlook (first :: (test ++ final :: ends)) last)
    (hlast : last.2.kind ≠ .newline) :
    Conforms (condition opening closing text) setting state (first :: (test ++ final :: ends)) last
      (text ++ (tree.text ++ (") \x7b" ++ "\n"))) tree.mentions := by
  obtain ⟨behindFirst, hopening, hrest⟩ := hpasses.exists_of_cons
  obtain ⟨behindTest, htest, htail⟩ := passes_append_iff.mp hrest
  obtain ⟨behindFinal, hclosing, hline⟩ := htail.exists_of_cons
  have hcondition : Conforms (condition opening closing text) setting state
      (first :: (test ++ final :: (ends ++ []))) last
      (text ++ (tree.text ++ ("" ++ (") \x7b" ++ "\n")))) (tree.mentions ++ ([] ++ [])) := by
    apply conforms_expect hopening hfirst
    rintro now rfl _
    apply conforms_write_bind
    intro now houtlook _
    have hbehind : EndsCondition behindTest.2.kind := by
      obtain ⟨hfinal', _⟩ := passes_cons_iff.mp hclosing
      rw [← hfinal', hfinal]
      exact endsCondition_keyword closing
    have hcomparison : Conforms comparison setting now test behindTest tree.text tree.mentions :=
      conforms_comparison htree hinner (houtlook ▸ htest) hbehind
    apply hcomparison.bind
    rintro now rfl _
    apply conforms_expect hclosing hfinal
    rintro now rfl _
    apply (conforms_newline hends hline hlast).bind
    rintro now rfl _
    exact conforms_writeLine _
  exact hcondition.of_eq (by simp) (by simp) (by simp)

/-- A way to generate blocks conforms to every block of fewer than a number of tokens that keeps to
the limit on nesting. -/
def ConformsBlocks (setting : Setting) (block : Kind → Generate σ Unit) (size : Nat) : Prop :=
  ∀ {state : Generator σ} {last : Outlook σ} {body : Program} {tokens : List Token}
    {closing : Token} {form : BlockForm}, body.DerivesBody tokens →
    closing.kind = .keyword form.closing → (∀ token ∈ tokens, token.IsInner) →
    Passes state.outlook (tokens ++ [closing]) last → tokens.length < size →
    WithinLimit setting state.depth (body.depth + 1) →
    Conforms (block (.keyword form.closing)) setting state (tokens ++ [closing]) last
      (closedLines (body.lines setting.numberFormat)) body.mentions

theorem conforms_blockStatement {block : Kind → Generate σ Unit} {size : Nat}
    (hblock : ConformsBlocks setting block size) (form : BlockForm) {text : String}
    (htext : text = form.word ++ " (") {tree : Condition} {body : Program} {tokens : List Token}
    {last : Outlook σ} (htree : (Statement.block form tree body).DerivesFront tokens)
    (hinner : ∀ token ∈ tokens, token.IsInner) (hpasses : Passes state.outlook tokens last)
    (hsize : tokens.length ≤ size)
    (hlimit : WithinLimit setting state.depth (Statement.block form tree body).depth) :
    Conforms (do
      condition form.opening form.middle text
      block (.keyword form.closing)
      writeLine "\x7d") setting state tokens last
      (closedLines ((Statement.block form tree body).lines setting.numberFormat))
      (Statement.block form tree body).mentions := by
  obtain ⟨opening, test, final, ends, inside, closing, rfl, hopening, htest, hfinal, hends, hbody,
    hclosing⟩ := htree
  rw [Statement.depth] at hlimit
  have hsplit : opening :: (test ++ final :: (ends ++ (inside ++ [closing]))) =
      opening :: (test ++ final :: ends) ++ (inside ++ [closing]) := by simp
  have htestInner : ∀ t ∈ test, t.IsInner := fun t ht ↦ hinner t (by simp [ht])
  have hinsideInner : ∀ t ∈ inside, t.IsInner := fun t ht ↦ hinner t (by simp [ht])
  rw [hsplit] at hpasses ⊢
  obtain ⟨middle, hfront, hback⟩ := passes_append_iff.mp hpasses
  have hfollows : Follows (· ≠ .newline) (inside ++ [closing] ++ [last.2]) := by
    rw [List.append_assoc]
    apply hbody.follows
    rw [List.cons_append, follows_cons, hclosing]
    exact endsBody_closing form
  have hmiddle : middle.2.kind ≠ .newline := kind_of_follows hback hfollows
  have hlength : inside.length < size := by
    simp only [List.length_cons, List.length_append] at hsize
    omega
  have hstatement : Conforms (do
      condition form.opening form.middle text
      block (.keyword form.closing)
      writeLine "\x7d") setting state
      (opening :: (test ++ final :: ends) ++ ((inside ++ [closing]) ++ [])) last
      (text ++ (tree.text ++ (") \x7b" ++ "\n")) ++
        (closedLines (body.lines setting.numberFormat) ++ ("\x7d" ++ "\n")))
      (tree.mentions ++ (body.mentions ++ [])) := by
    apply (conforms_condition hopening htest hfinal hends htestInner hfront hmiddle).bind
    rintro now rfl hdepth
    apply (hblock hbody hclosing hinsideInner hback hlength (hdepth ▸ hlimit)).bind
    rintro now rfl _
    exact conforms_writeLine _
  apply hstatement.of_eq (by simp) ?_ (by simp [Statement.mentions])
  rw [htext]
  simp only [Statement.lines, List.cons_append, closedLines_cons, closedLines_append,
    closedLines_nil, String.append_empty, String.append_assoc]
  rfl

/-- The rule that a statement starts conforms to it. -/
theorem conforms_statementRule {block : Kind → Generate σ Unit} {size : Nat}
    (hblock : ConformsBlocks setting block size) {tree : Statement} {tokens : List Token}
    {last : Outlook σ} (htree : tree.DerivesFront tokens)
    (hinner : ∀ token ∈ tokens, token.IsInner) (hpasses : Passes state.outlook tokens last)
    (hlast : last.2.kind = .newline) (hsize : tokens.length ≤ size)
    (hlimit : WithinLimit setting state.depth tree.depth) :
    Conforms (statementRule block (.keyword tree.keyword)) setting state tokens last
      (closedLines (tree.lines setting.numberFormat)) tree.mentions := by
  have hends : EndsExpression last.2.kind := by
    rw [hlast]
    exact endsCondition_newline.1
  cases tree with
  | printText text =>
    rw [Statement.keyword, statementRule]
    exact conforms_printText htree hpasses
  | print value =>
    rw [Statement.keyword, statementRule]
    exact conforms_print htree hinner hpasses hends
  | block form condition body =>
    cases form with
    | conditional =>
      rw [Statement.keyword, BlockForm.opening, statementRule, ifStatement]
      exact conforms_blockStatement hblock .conditional (by decide) htree hinner hpasses hsize
        hlimit
    | loop =>
      rw [Statement.keyword, BlockForm.opening, statementRule, whileStatement]
      exact conforms_blockStatement hblock .loop (by decide) htree hinner hpasses hsize hlimit
  | label name =>
    rw [Statement.keyword, statementRule]
    exact conforms_labelStatement htree hpasses
  | jump target =>
    rw [Statement.keyword, statementRule]
    exact conforms_gotoStatement htree hpasses
  | assign target value =>
    rw [Statement.keyword, statementRule]
    exact conforms_letStatement htree hinner hpasses hends
  | input target =>
    rw [Statement.keyword, statementRule]
    exact conforms_inputStatement htree hpasses

theorem conforms_statementWith {block : Kind → Generate σ Unit} {size : Nat}
    (hblock : ConformsBlocks setting block size) {tree : Statement} {front ends : List Token}
    {last : Outlook σ} (htree : tree.DerivesFront front) (hends : IsLineEnd ends)
    (hinner : ∀ token ∈ front, token.IsInner) (hpasses : Passes state.outlook (front ++ ends) last)
    (hlast : last.2.kind ≠ .newline) (hsize : front.length ≤ size)
    (hlimit : WithinLimit setting state.depth tree.depth) :
    Conforms (statementWith block) setting state (front ++ ends) last
      (closedLines (tree.lines setting.numberFormat)) tree.mentions := by
  obtain ⟨middle, hfront, hback⟩ := passes_append_iff.mp hpasses
  have hmiddle : middle.2.kind = .newline := kind_of_follows hback (hends.follows _)
  have hstart : state.current.kind = .keyword tree.keyword := by
    obtain ⟨word, rest, rfl, hword⟩ := htree.exists_keyword
    have hcurrent : word = state.current := (passes_cons_iff.mp hfront).1
    rw [← hcurrent, hword]
  have hrule := conforms_statementRule hblock htree hinner hfront hmiddle hsize hlimit
  have hstatement : Conforms (statementRule block (.keyword tree.keyword) >>= fun _ ↦ newline)
      setting state (front ++ ends) last
      (closedLines (tree.lines setting.numberFormat) ++ "") (tree.mentions ++ []) := by
    apply hrule.bind
    rintro now rfl _
    exact conforms_newline hends hback hlast
  have happly : statementWith block setting state =
      (statementRule block (.keyword tree.keyword) >>= fun _ ↦ newline) setting state := by
    rw [statementWith_apply, hstart]
  exact (hstatement.of_apply happly).of_eq rfl (by simp) (by simp)

/-- Statements in a row, given that a round of the loop conforms to each of them. -/
theorem conforms_body {test : Kind → Bool} {step : Generate σ Unit} {depth size : Nat}
    {body : Program} {tokens : List Token} {last : Outlook σ} (hbody : body.DerivesBody tokens)
    (hinner : ∀ token ∈ tokens, token.IsInner) (hpasses : Passes state.outlook tokens last)
    (hlast : EndsBody last.2.kind) (hstop : test last.2.kind = false)
    (htest : ∀ statement : Statement, test (.keyword statement.keyword) = true)
    (hdepth : state.depth = depth) (hsize : tokens.length ≤ size)
    (hlimit : WithinLimit setting depth body.depth)
    (hround : ∀ {now : Generator σ} {last : Outlook σ} {tree : Statement}
      {front ends : List Token}, now.depth = depth → tree.DerivesFront front →
      IsLineEnd ends → (∀ t ∈ front, t.IsInner) → Passes now.outlook (front ++ ends) last →
      last.2.kind ≠ .newline → front.length ≤ size → WithinLimit setting depth tree.depth →
      Conforms step setting now (front ++ ends) last
        (closedLines (tree.lines setting.numberFormat)) tree.mentions) :
    Conforms (loopWhile test step) setting state tokens last
      (closedLines (body.lines setting.numberFormat)) body.mentions := by
  have hrepeat : ∀ rounds, tokens.length < rounds →
      Conforms (repeatWhile test step rounds) setting state tokens last
        (closedLines (body.lines setting.numberFormat)) body.mentions := by
    induction body generalizing state tokens with
    | nil =>
      intro rounds hrounds
      have htokens : tokens = [] := hbody
      rw [htokens] at hpasses ⊢
      obtain rfl := passes_nil_iff.mp hpasses
      exact (conforms_repeatWhile_stop (Nat.zero_lt_of_lt hrounds) hstop).of_eq rfl
        (by simp [Program.lines]) (by simp [Program.mentions])
    | cons tree rest ih =>
      intro rounds hrounds
      obtain ⟨rounds, rfl⟩ := Nat.exists_eq_add_one.mpr (Nat.zero_lt_of_lt hrounds)
      obtain ⟨front, ends, back, rfl, htree, hends, hrest⟩ := hbody
      have hword := htree.exists_keyword
      simp only [List.length_append] at hrounds hsize
      rw [← List.append_assoc] at hpasses ⊢
      obtain ⟨middle, hfront, hback⟩ := passes_append_iff.mp hpasses
      have hgo : test state.current.kind = true := by
        obtain ⟨word, more, rfl, hkind⟩ := hword
        have hcurrent : word = state.current := (passes_cons_iff.mp hfront).1
        rw [← hcurrent, hkind, htest]
      have hmiddle : middle.2.kind ≠ .newline :=
        kind_of_follows hback (hrest.follows (follows_cons.mpr hlast))
      have hlength : back.length < rounds := by
        have hnonempty : 0 < ends.length := List.length_pos_iff.mpr hends.1
        omega
      have hfirst := hround hdepth htree hends (fun t ht ↦ hinner t (by simp [ht])) hfront hmiddle
        (by omega) (hlimit.mono (Nat.le_max_left _ _))
      have hstep : Conforms (repeatWhile test step (rounds + 1)) setting state
          (front ++ ends ++ back) last
          (closedLines (tree.lines setting.numberFormat) ++
            closedLines (Program.lines setting.numberFormat rest))
          (tree.mentions ++ Program.mentions rest) := by
        apply conforms_repeatWhile_step hgo hfirst
        rintro now rfl hnow
        exact ih hrest (fun t ht ↦ hinner t (by simp [ht])) hback (hnow.trans hdepth) (by omega)
          (hlimit.mono (Nat.le_max_right _ _)) rounds hlength
      exact hstep.of_eq rfl (by simp [Program.lines]) (by simp [Program.mentions])
  have hlength : tokens.length < TokenSupply.bound state.supply :=
    hpasses.length_lt_bound fun token htoken ↦ (hinner token htoken).ne_endOfInput
  exact hrepeat _ hlength

omit [TokenSupply σ] [LawfulTokenSupply σ] in
theorem enterBlock_of_le (h : ((state.depth + 1 : Nat) : Int) ≤ setting.maxDepth) :
    enterBlock setting state = .ok () { state with depth := state.depth + 1 } := by
  have happly : enterBlock setting state =
      (if setting.maxDepth < ((state.depth + 1 : Nat) : Int) then
        failAt (.nestedTooDeeply setting.maxDepth) state.current.location
      else pure () : Generate σ Unit) setting { state with depth := state.depth + 1 } := rfl
  rw [happly, if_neg (Int.not_lt.mpr h)]
  rfl

omit [TokenSupply σ] [LawfulTokenSupply σ] in
theorem conforms_enclosed {step : Generate σ Unit} {tokens : List Token} {last : Outlook σ}
    {text : String} {mentions : List Mention}
    (hroom : ((state.depth + 1 : Nat) : Int) ≤ setting.maxDepth)
    (h : Conforms step setting { state with depth := state.depth + 1 } tokens last text mentions) :
    Conforms (do
      enterBlock
      step
      modify fun state ↦ { state with depth := state.depth - 1 }) setting state tokens last text
      mentions := by
  unfold Conforms at h ⊢
  rw [bind_of_ok (enterBlock_of_le hroom)]
  dsimp only at h
  cases henter : state.scope.enterAll mentions with
  | error objection =>
    rw [henter] at h
    obtain ⟨stop, hstop⟩ := h
    exact ⟨stop, bind_of_error hstop⟩
  | ok scope =>
    rw [henter] at h
    obtain ⟨inside, hinside, heffect⟩ := h
    have hdepth : inside.depth - 1 = state.depth := by
      rw [heffect.depth_eq]
      rfl
    rw [bind_of_ok hinside]
    exact ⟨_, rfl, heffect.outlook_eq, heffect.body_eq, heffect.scope_eq, heffect.declares, hdepth,
      heffect.pulled_eq⟩

theorem conformsBlocks_blockOf {statement : Generate σ Unit} {size : Nat}
    (hstatement : ∀ {now : Generator σ} {last : Outlook σ} {tree : Statement}
      {front ends : List Token}, tree.DerivesFront front → IsLineEnd ends →
      (∀ t ∈ front, t.IsInner) → Passes now.outlook (front ++ ends) last →
      last.2.kind ≠ .newline → front.length ≤ size → WithinLimit setting now.depth tree.depth →
      Conforms statement setting now (front ++ ends) last
        (closedLines (tree.lines setting.numberFormat)) tree.mentions) :
    ConformsBlocks setting (blockOf statement) (size + 1) := by
  intro state last body tokens closing form hbody hclosing hinner hpasses hsize hlimit
  obtain ⟨middle, hfront, hback⟩ := passes_append_iff.mp hpasses
  have hmiddle : middle.2.kind = .keyword form.closing := by
    rw [← hclosing, (passes_cons_iff.mp hback).1]
  have hroom : ((state.depth + 1 : Nat) : Int) ≤ setting.maxDepth := by
    rcases hlimit with hzero | hroom <;> omega
  have hwithin : WithinLimit setting (state.depth + 1) body.depth := by
    rcases hlimit with hzero | hroom
    · omega
    · right
      omega
  have hround : ∀ {now : Generator σ} {last : Outlook σ} {tree : Statement}
      {front ends : List Token}, now.depth = state.depth + 1 → tree.DerivesFront front →
      IsLineEnd ends → (∀ t ∈ front, t.IsInner) → Passes now.outlook (front ++ ends) last →
      last.2.kind ≠ .newline → front.length ≤ size →
      WithinLimit setting (state.depth + 1) tree.depth →
      Conforms (do
        if ← check .endOfInput then unexpected (Kind.keyword form.closing).description
        statement) setting now (front ++ ends) last
        (closedLines (tree.lines setting.numberFormat)) tree.mentions := by
    intro now last tree front ends hdepth htree hends hinner hpasses hlast hsize hlimit
    have hopen : decide (now.current.kind = .endOfInput) = false := by
      obtain ⟨word, rest, rfl, hword⟩ := htree.exists_keyword
      have hcurrent : word = now.current := (passes_cons_iff.mp hpasses).1
      rw [← hcurrent, hword]
      rfl
    apply (hstatement htree hends hinner hpasses hlast hsize (hdepth ▸ hlimit)).of_apply
    rw [bind_of_ok (check_apply Kind.endOfInput), hopen]
    rfl
  have hstop : decide (middle.2.kind ≠ .keyword form.closing) = false := by simp [hmiddle]
  have htest : ∀ statement : Statement,
      decide (Kind.keyword statement.keyword ≠ .keyword form.closing) = true := by
    intro statement
    exact decide_eq_true fun h ↦ (endsBody_closing form).2 statement h.symm
  have hends : EndsBody middle.2.kind := by
    rw [hmiddle]
    exact endsBody_closing form
  have hloop : Conforms (loopWhile (· ≠ .keyword form.closing) do
        if ← check .endOfInput then unexpected (Kind.keyword form.closing).description
        statement) setting { state with depth := state.depth + 1 } tokens middle
      (closedLines (body.lines setting.numberFormat)) body.mentions :=
    conforms_body hbody hinner hfront hends hstop htest rfl (Nat.le_of_lt_succ hsize) hwithin
      hround
  have hinside : Conforms (do
      loopWhile (· ≠ .keyword form.closing) do
        if ← check .endOfInput then unexpected (Kind.keyword form.closing).description
        statement
      let _ ← expect (.keyword form.closing)) setting { state with depth := state.depth + 1 }
      (tokens ++ [closing]) last (closedLines (body.lines setting.numberFormat) ++ "")
      (body.mentions ++ []) := by
    apply hloop.bind
    rintro now rfl _
    apply conforms_expect hback hclosing
    rintro now rfl _
    exact conforms_pure
  have happly : blockOf statement (.keyword form.closing) = (do
      enterBlock
      (do
        loopWhile (· ≠ .keyword form.closing) do
          if ← check .endOfInput then unexpected (Kind.keyword form.closing).description
          statement
        let _ ← expect (.keyword form.closing))
      modify fun state ↦ { state with depth := state.depth - 1 }) := by
    simp only [blockOf, bind_assoc, pure_bind]
  rw [happly]
  exact (conforms_enclosed hroom hinside).of_eq rfl (by simp) (by simp)

theorem conformsBlocks_nestedBlock (nesting : Nat) :
    ConformsBlocks setting (nestedBlock (σ := σ) nesting) nesting := by
  induction nesting with
  | zero =>
    intro state last body tokens closing form _ _ _ _ hsize _
    exact absurd hsize (Nat.not_lt_zero _)
  | succ nesting ih => exact conformsBlocks_blockOf (conforms_statementWith ih)

theorem conformsBlocks_block (size : Nat) : ConformsBlocks setting (block (σ := σ)) size := by
  intro state last body tokens closing form hbody hclosing hinner hpasses _ hlimit
  have hlength : tokens.length < TokenSupply.bound state.supply := by
    obtain ⟨middle, hfront, _⟩ := passes_append_iff.mp hpasses
    exact hfront.length_lt_bound fun token htoken ↦ (hinner token htoken).ne_endOfInput
  exact conformsBlocks_nestedBlock _ hbody hclosing hinner hpasses hlength hlimit

/-- A generator that has written the lines before the declarations. -/
def opened (state : Generator σ) : Generator σ :=
  { state with
    listing := { state.listing with header := state.listing.header ++ closedLines prologue } }

omit [LawfulTokenSupply σ] in
theorem program_apply : program setting state =
    (loopWhile (· ≠ .endOfInput) statement >>= fun _ ↦ epilogue.forM writeLine : Generate σ Unit)
      setting (opened state) := by
  have hprologue : (prologue.forM declare : Generate σ Unit) setting state =
      .ok () (opened state) := by
    have hheader : (prologue.foldl Listing.declare state.listing) =
        { state.listing with header := state.listing.header ++ closedLines prologue } := by
      simp [prologue, Listing.declare, String.append_assoc]
    have hrun : (prologue.forM declare : Generate σ Unit) setting state =
        .ok () { state with listing := prologue.foldl Listing.declare state.listing } := rfl
    rw [hrun, hheader]
    rfl
  rw [program, bind_of_ok hprologue]

omit [TokenSupply σ] [LawfulTokenSupply σ] in
theorem conforms_epilogue : Conforms (epilogue.forM writeLine) setting state [] state.outlook
    (closedLines epilogue) [] := by
  have hbody : (epilogue.foldl Listing.writeLine state.listing).body =
      state.listing.body ++ closedLines epilogue := by
    simp [epilogue, Listing.writeLine, String.append_assoc]
  exact conforms_of_ok rfl rfl hbody rfl rfl rfl rfl

/-- What follows the lines before the declarations conforms to the statements of a program. -/
theorem conforms_statements {body : Program} {tokens : List Token} {last : Outlook σ}
    (hbody : body.DerivesBody tokens) (hinner : ∀ token ∈ tokens, token.IsInner)
    (hpasses : Passes state.outlook tokens last) (hlast : last.2.kind = .endOfInput)
    (hlimit : WithinLimit setting state.depth body.depth) :
    Conforms (loopWhile (· ≠ .endOfInput) statement >>= fun _ ↦ epilogue.forM writeLine) setting
      state tokens last (closedLines (body.lines setting.numberFormat ++ epilogue))
      body.mentions := by
  have hround : ∀ {now : Generator σ} {last : Outlook σ} {tree : Statement}
      {front ends : List Token}, now.depth = state.depth → tree.DerivesFront front →
      IsLineEnd ends → (∀ t ∈ front, t.IsInner) → Passes now.outlook (front ++ ends) last →
      last.2.kind ≠ .newline → front.length ≤ tokens.length →
      WithinLimit setting state.depth tree.depth →
      Conforms statement setting now (front ++ ends) last
        (closedLines (tree.lines setting.numberFormat)) tree.mentions := by
    intro now last tree front ends hdepth htree hends hinner hpasses hlast hsize hlimit
    exact conforms_statementWith (conformsBlocks_block _) htree hends hinner hpasses hlast hsize
      (hdepth ▸ hlimit)
  have hends : EndsBody last.2.kind := by
    rw [hlast]
    exact endsBody_endOfInput
  have hstop : decide (last.2.kind ≠ .endOfInput) = false := by simp [hlast]
  have hloop : Conforms (loopWhile (· ≠ .endOfInput) statement) setting state tokens last
      (closedLines (body.lines setting.numberFormat)) body.mentions :=
    conforms_body hbody hinner hpasses hends hstop (fun _ ↦ rfl) rfl (Nat.le_refl _) hlimit hround
  have hrun : Conforms (loopWhile (· ≠ .endOfInput) statement >>= fun _ ↦ epilogue.forM writeLine)
      setting state (tokens ++ []) last
      (closedLines (body.lines setting.numberFormat) ++ closedLines epilogue)
      (body.mentions ++ []) := by
    apply hloop.bind
    rintro now rfl _
    exact conforms_epilogue
  exact hrun.of_eq (by simp) (by simp) (by simp)

/-- A run over the tokens of a program that keeps to the limit on nesting. If something is wrong
with a name, the run fails at the first such name. Otherwise it goes on to check the jumps, with the
whole program written. -/
theorem sourceText_of_derives (setting : Setting) (state : Generator σ) {tree : Program}
    {tokens : List Token} {last : Outlook σ} (htree : tree.Derives (tokens ++ [last.2]))
    (hinner : ∀ token ∈ tokens, token.IsInner) (hpasses : Passes state.outlook tokens last)
    (hlimit : WithinLimit setting state.depth tree.depth) :
    match state.scope.enterAll tree.mentions with
    | .ok scope => ∃ state', sourceText setting state = checkLabels setting state' ∧
        Effect (opened state) tokens last
          (closedLines (tree.lines setting.numberFormat ++ epilogue)) scope state'
    | .error (cause, location) => ∃ state', sourceText setting state =
        .error ⟨cause, some location, setting.line? location.line⟩ state' := by
  obtain ⟨blank, body, final, htokens, hblank, hbody, hend⟩ := htree
  obtain ⟨rfl, hlast⟩ : tokens = blank ++ body ∧ last.2 = final := by
    rw [← List.append_assoc] at htokens
    obtain ⟨hfront, hback⟩ := List.append_inj' htokens rfl
    exact ⟨hfront, by simpa using hback⟩
  rw [← hlast] at hend
  obtain ⟨middle, hfront, hback⟩ := passes_append_iff.mp hpasses
  have hmiddle : middle.2.kind ≠ .newline := by
    have hfollows : Follows EndsBody [last.2] := by
      rw [follows_cons, hend]
      exact endsBody_endOfInput
    exact kind_of_follows hback (hbody.follows hfollows)
  obtain ⟨start, hskip, heffect⟩ : ∃ start, skipNewlines setting state = .ok () start ∧
      Effect state blank middle "" state.scope start :=
    conforms_skipNewlines hblank hfront hmiddle
  have hopened : Effect (opened state) blank middle "" state.scope (opened start) := by
    obtain ⟨names, hnames, hheader⟩ := heffect.declares
    obtain rfl : names = [] := by simpa using hnames
    have hsame : start.listing.header = state.listing.header := by simpa using hheader
    exact ⟨heffect.outlook_eq, heffect.body_eq, heffect.scope_eq,
      ⟨[], by simp [opened], by simp [opened, hsame]⟩, heffect.depth_eq, heffect.pulled_eq⟩
  have hstatements : Conforms
      (loopWhile (· ≠ .endOfInput) statement >>= fun _ ↦ epilogue.forM writeLine) setting
      (opened start) body last (closedLines (tree.lines setting.numberFormat ++ epilogue))
      tree.mentions := by
    obtain rfl := hopened.outlook_eq
    apply conforms_statements hbody (fun t ht ↦ hinner t (List.mem_append_right _ ht)) hback hend
    rw [hopened.depth_eq]
    exact hlimit
  have hrun : sourceText setting state = (program >>= fun _ ↦ checkLabels) setting start := by
    rw [sourceText, bind_of_ok hskip]
  unfold Conforms at hstatements
  rw [hopened.scope_eq] at hstatements
  cases henter : state.scope.enterAll tree.mentions with
  | error objection =>
    rw [henter] at hstatements
    obtain ⟨stop, hstop⟩ := hstatements
    rw [← program_apply] at hstop
    exact ⟨stop, hrun.trans (bind_of_error hstop)⟩
  | ok scope =>
    rw [henter] at hstatements
    obtain ⟨state', hstate', hlater⟩ := hstatements
    rw [← program_apply] at hstate'
    have htotal := hopened.append hlater
    rw [String.empty_append] at htotal
    exact ⟨state', hrun.trans (bind_of_ok hstate'), htotal⟩

end TeenyBasic.Generate
