import TeenyBasic.Proofs.Generation.Conformance
import TeenyBasic.Proofs.Generation.Indifference

/-!
# Going on behind a program

Behind the last line of a program, a source text goes on as it would start: with line ends to move
past, statements up to the end of the input, and the lines that close a program. What has been
written before is kept apart, and of what has been read before only the names in scope matter. So
tokens that stand behind a program are generated as they are alone, if the names of the program are
in scope.

The main statement is `verdict_of_reaches`.
-/

namespace TeenyBasic

open Source

/-- The tokens of a program without the end of its last line. -/
inductive Source.Program.DerivesOpen : Program → List Token → Prop
  | last {tree : Statement} {front : List Token} (htree : tree.DerivesFront front) :
    DerivesOpen [tree] front
  | cons {tree : Statement} {rest : Program} {front ends back : List Token}
    (htree : tree.DerivesFront front) (hends : IsLineEnd ends) (hrest : DerivesOpen rest back) :
    DerivesOpen (tree :: rest) (front ++ ends ++ back)

theorem Source.Program.DerivesOpen.exists_keyword {body : Program} {tokens : List Token}
    (h : body.DerivesOpen tokens) :
    ∃ word rest keyword, tokens = word :: rest ∧ word.kind = .keyword keyword := by
  cases h with
  | last htree =>
    obtain ⟨word, rest, rfl, hword⟩ := htree.exists_keyword
    exact ⟨word, rest, _, rfl, hword⟩
  | cons htree hends hrest =>
    obtain ⟨word, rest, rfl, hword⟩ := htree.exists_keyword
    exact ⟨word, _, _, rfl, hword⟩

theorem Source.Program.DerivesBody.exists_open {body : Program} {tokens : List Token}
    (h : body.DerivesBody tokens) (hne : body ≠ []) :
    ∃ front ends, tokens = front ++ ends ∧ IsLineEnd ends ∧ body.DerivesOpen front := by
  induction body generalizing tokens with
  | nil => exact absurd rfl hne
  | cons tree rest ih =>
    obtain ⟨front, ends, back, rfl, htree, hends, hrest⟩ := h
    cases rest with
    | nil =>
      have hback : back = [] := hrest
      exact ⟨front, ends, by rw [hback, List.append_nil], hends, .last htree⟩
    | cons next rest =>
      obtain ⟨front', ends', rfl, hends', hopen⟩ := ih hrest (by simp)
      exact ⟨front ++ ends ++ front', ends', by simp, hends', .cons htree hends hopen⟩

namespace Generate

section

variable {σ : Type} [TokenSupply σ] [LawfulTokenSupply σ] {setting : Setting}
  {state : Generator σ} {last : Outlook σ} {scope : Scope}

/-- A statement whose names are in order leads to the end of its line. -/
theorem exists_effect_of_statement {tree : Statement} {tokens : List Token}
    (htree : tree.DerivesFront tokens) (hinner : ∀ token ∈ tokens, token.IsInner)
    (hpasses : Passes state.outlook tokens last) (hlast : last.2.kind = .newline)
    (hlimit : WithinLimit setting state.depth tree.depth)
    (henter : state.scope.enterAll tree.mentions = .ok scope) :
    ∃ now, Effect state tokens last (closedLines (tree.lines setting.numberFormat)) scope now ∧
      statement setting state = newline setting now := by
  have hrule := conforms_statementRule (conformsBlocks_block tokens.length) htree hinner hpasses
    hlast (Nat.le_refl _) hlimit
  unfold Conforms at hrule
  rw [henter] at hrule
  obtain ⟨now, hnow, heffect⟩ := hrule
  have hstart : state.current.kind = .keyword tree.keyword := by
    obtain ⟨word, rest, rfl, hword⟩ := htree.exists_keyword
    have hcurrent : word = state.current := (passes_cons_iff.mp hpasses).1
    rw [← hcurrent, hword]
  refine ⟨now, heffect, ?_⟩
  rw [statement, statementWith_apply, hstart, bind_of_ok hnow]

omit [TokenSupply σ] [LawfulTokenSupply σ] in
theorem repeatWhile_of_test {test : Kind → Bool} {step : Generate σ Unit} {rounds : Nat}
    (h : test state.current.kind = true) :
    repeatWhile test step (rounds + 1) setting state =
      (step >>= fun _ ↦ repeatWhile test step rounds) setting state := by
  have hkind : kind setting state = .ok state.current.kind state := rfl
  rw [repeatWhile, bind_of_ok hkind, h]
  rfl

omit [TokenSupply σ] [LawfulTokenSupply σ] in
theorem bind_congr_apply {α β : Type} {step step' : Generate σ α} {next : α → Generate σ β}
    {state' : Generator σ} (h : step setting state = step' setting state') :
    (step >>= next) setting state = (step' >>= next) setting state' := by
  rw [bind_apply, bind_apply, h]

omit [LawfulTokenSupply σ] in
theorem repeatWhile_of_open {body : Program} {tokens : List Token} {rounds : Nat}
    (h : body.DerivesOpen tokens) (hpasses : Passes state.outlook tokens last) :
    repeatWhile (· ≠ .endOfInput) statement (rounds + 1) setting state =
      (statement >>= fun _ ↦ repeatWhile (· ≠ .endOfInput) statement rounds) setting state := by
  apply repeatWhile_of_test
  obtain ⟨word, rest, keyword, rfl, hword⟩ := h.exists_keyword
  have hcurrent : word = state.current := (passes_cons_iff.mp hpasses).1
  rw [← hcurrent, hword]
  rfl

/-- The statements of a program lead to the end of its last line, if their names are in order. -/
theorem exists_effect_of_open {body : Program} {tokens : List Token} (h : body.DerivesOpen tokens)
    (hinner : ∀ token ∈ tokens, token.IsInner) (hpasses : Passes state.outlook tokens last)
    (hlast : last.2.kind = .newline) (hlimit : WithinLimit setting state.depth body.depth)
    (henter : state.scope.enterAll body.mentions = .ok scope) {rounds : Nat}
    (hrounds : tokens.length ≤ rounds) :
    ∃ now rounds',
      Effect state tokens last (closedLines (body.lines setting.numberFormat)) scope now ∧
      repeatWhile (· ≠ .endOfInput) statement (rounds + 1) setting state =
        (newline >>= fun _ ↦ repeatWhile (· ≠ .endOfInput) statement rounds') setting now := by
  induction h generalizing state rounds with
  | @last tree front htree =>
    have henter' : state.scope.enterAll tree.mentions = .ok scope := by
      simpa [Program.mentions] using henter
    have hlimit' : WithinLimit setting state.depth tree.depth := hlimit.mono (Nat.le_max_left _ _)
    obtain ⟨now, heffect, hstatement⟩ :=
      exists_effect_of_statement htree hinner hpasses hlast hlimit' henter'
    rw [repeatWhile_of_open (.last htree) hpasses]
    refine ⟨now, rounds, ?_, bind_congr_apply hstatement⟩
    simpa [Program.lines] using heffect
  | @cons tree rest front ends back htree hends hrest ih =>
    obtain ⟨middle, hfirst, hback⟩ := passes_append_iff.mp hpasses
    obtain ⟨word, more, keyword, hword, hkind⟩ := hrest.exists_keyword
    have hmiddle : middle.2.kind ≠ .newline := by
      rw [hword] at hback
      rw [← (passes_cons_iff.mp hback).1, hkind]
      simp
    have hstatement : Conforms statement setting state (front ++ ends) middle
        (closedLines (tree.lines setting.numberFormat)) tree.mentions :=
      conforms_statementWith (conformsBlocks_block front.length) htree hends
        (fun t ht ↦ hinner t (by simp [ht])) hfirst hmiddle (Nat.le_refl _)
        (hlimit.mono (Nat.le_max_left _ _))
    rw [Program.mentions, Scope.enterAll_append] at henter
    unfold Conforms at hstatement
    cases hfirstScope : state.scope.enterAll tree.mentions with
    | error objection =>
      rw [hfirstScope] at henter
      cases henter
    | ok between =>
      rw [hfirstScope] at henter hstatement
      obtain ⟨next, hnext, heffect⟩ := hstatement
      have hlength : back.length ≤ rounds - 1 := by
        have hnonempty : 0 < ends.length := List.length_pos_iff.mpr hends.1
        simp only [List.length_append] at hrounds
        omega
      have hpositive : rounds - 1 + 1 = rounds := by
        have hnonempty : 0 < back.length := by simp [hword]
        simp only [List.length_append] at hrounds
        omega
      have hlimit' : WithinLimit setting next.depth (Program.depth rest) := by
        rw [heffect.depth_eq]
        exact hlimit.mono (Nat.le_max_right _ _)
      obtain ⟨now, rounds', hrestEffect, hrepeat⟩ :=
        ih (fun t ht ↦ hinner t (by simp [ht])) (heffect.outlook_eq ▸ hback) hlimit'
          (heffect.scope_eq ▸ henter) hlength
      rw [repeatWhile_of_open (.cons htree hends hrest) hpasses, bind_of_ok hnext]
      rw [hpositive] at hrepeat
      refine ⟨now, rounds', ?_, hrepeat⟩
      simpa [Program.lines] using heffect.append hrestEffect

end

theorem passes_of_append {supply tokens rest : List Token} {current next : Token}
    (h : current :: supply = tokens ++ next :: rest) :
    Passes (supply, current) tokens (rest, next) := by
  induction tokens generalizing supply current with
  | nil =>
    cases h
    exact .refl _
  | cons token tokens ih =>
    obtain ⟨rfl, hsupply⟩ := List.cons.inj h
    obtain ⟨following, behind, hbehind⟩ : ∃ following behind, supply = following :: behind := by
      cases tokens with
      | nil => exact ⟨_, _, hsupply⟩
      | cons following tokens => exact ⟨_, _, hsupply⟩
    subst hbehind
    exact .step rfl (ih hsupply)

/-- What is left to do at the end of a line behind some statements. -/
def resume (rounds : Nat) : Generate (List Token) Unit := do
  skipNewlines
  repeatWhile (· ≠ .endOfInput) statement rounds
  epilogue.forM writeLine
  checkLabels

section

variable {setting setting' : Setting} {front front' : Listing}
  {state state' : Generator (List Token)}

/-- Over tokens of one substance, the rest of a source text is generated with results that agree. -/
theorem agrees_resume (hterms : setting.SameTerms setting')
    (hwork : state.SameWork front front' state')
    (hbehind : substance (state'.current :: state'.supply) =
      substance (state.current :: state.supply)) (rounds rounds' : Nat) :
    (Conduct.inStep hterms front front').Agrees state.depth (resume rounds setting state)
      (resume rounds' setting' state') := by
  refine agrees_bind (agrees_skipNewlines hwork hbehind) fun _ _ _ hmiddle hdepth ↦ ?_
  rw [← hdepth]
  have hloop : ∀ state state', Keeps (Conduct.inStep hterms front front')
      (repeatWhile (· ≠ .endOfInput) statement rounds)
      (repeatWhile (· ≠ .endOfInput) statement rounds') state state' := fun _ _ ↦
    keeps_repeatWhile (fun _ _ _ ↦ keeps_statementWith keepsBlocks_inStep) (.inr trivial)
  refine keeps_bind (hloop _ _) (fun _ _ _ ↦ ?_) hmiddle
  exact keeps_bind (keeps_forM _ fun _ _ _ _ ↦ keeps_writeLine _) fun _ _ _ ↦ keeps_checkLabels

end

end Generate

/-! ## Source texts -/

/-- What a run over a source text comes to: the listing and the names in scope, or the fault. -/
def Generator.verdict {σ : Type} :
    EStateM.Result Diagnostic (Generator σ) Unit → Except Diagnostic (Listing × Scope)
  | .ok _ state => .ok (state.listing, state.scope)
  | .error fault _ => .error fault

namespace Generate

variable {setting : Setting} {state : Generator (List Token)} {scope : Scope}

/-- Moving past line ends neither writes anything nor looks at what has been written. -/
theorem skipNewlines_opened :
    (∃ last last', skipNewlines setting state = .error exhausted last ∧
      skipNewlines setting (opened state) = .error exhausted last') ∨
    ∃ start, start.listing = state.listing ∧ skipNewlines setting state = .ok () start ∧
      skipNewlines setting (opened state) = .ok () (opened start) := by
  have hskips : SkipsTo state ((state.current :: state.supply).dropWhile (·.kind = .newline))
      (skipNewlines setting state) := skipsTo_skipNewlines
  have hskips' : SkipsTo (opened state)
      ((state.current :: state.supply).dropWhile (·.kind = .newline))
      (skipNewlines setting (opened state)) := skipsTo_skipNewlines
  generalize (state.current :: state.supply).dropWhile (·.kind = .newline) = tokens
    at hskips hskips'
  cases tokens with
  | nil =>
    obtain ⟨last, hlast⟩ := hskips
    obtain ⟨last', hlast'⟩ := hskips'
    exact .inl ⟨last, last', hlast, hlast'⟩
  | cons next rest =>
    rw [SkipsTo] at hskips hskips'
    exact .inr ⟨_, by rfl, hskips, hskips'⟩

theorem listing_of_skipNewlines {value : Unit} {state' : Generator (List Token)}
    (h : skipNewlines setting state = .ok value state') : state'.listing = state.listing := by
  rcases skipNewlines_opened with ⟨_, _, hlast, _⟩ | ⟨start, hlisting, hstart, _⟩
  · cases h.symm.trans hlast
  · cases h.symm.trans hstart
    exact hlisting

/-- The statements of a source text, and what comes behind them. -/
theorem program_checkLabels_apply : (program >>= fun _ ↦ checkLabels) setting state =
    (do
      repeatWhile (· ≠ .endOfInput) statement (TokenSupply.bound state.supply)
      epilogue.forM writeLine
      checkLabels : Generate (List Token) Unit) setting (opened state) := by
  rw [bind_congr_apply program_apply, bind_assoc]
  rfl

/-- A source text is resumed at the end of a line before it, behind the lines that precede all
declarations. -/
theorem exists_verdict_resume (setting : Setting) (state : Generator (List Token)) :
    ∃ rounds, Generator.verdict (sourceText setting state) =
      Generator.verdict (resume rounds setting (opened state)) := by
  rcases skipNewlines_opened with ⟨last, last', hlast, hlast'⟩ | ⟨start, _, hstart, hstart'⟩
  · refine ⟨0, ?_⟩
    rw [sourceText, resume, bind_of_error hlast, bind_of_error hlast']
    rfl
  · refine ⟨TokenSupply.bound start.supply, ?_⟩
    rw [sourceText, resume, bind_of_ok hstart, bind_of_ok hstart', program_checkLabels_apply]

/-- What has been written for a program, if nothing was written before it. -/
theorem exists_listing_of_effect {σ : Type} {start state : Generator σ} {tokens : List Token}
    {last : Outlook σ} {lines : List String} (h : start.listing = .empty)
    (heffect : Effect (opened start) tokens last (closedLines lines) scope state) :
    ∃ names, scope.declaredVariables.names = start.scope.declaredVariables.names ++ names ∧
      state.listing = ⟨closedLines (prologue ++ names.map declarationLine), closedLines lines⟩ := by
  obtain ⟨names, hnames, hheader⟩ := heffect.declares
  have hlisting : state.listing = ⟨state.listing.header, state.listing.body⟩ := rfl
  refine ⟨names, hnames, ?_⟩
  rw [hlisting, hheader, heffect.body_eq]
  simp [opened, h, Listing.empty]

/-- A generator has come to the end of the last line of a program, with tokens behind it: the names
of the program are in scope, and the program is written. -/
structure Reaches (setting : Setting) (state : Generator (List Token)) (body : Program)
    (rest : List Token) (scope : Scope) (now : Generator (List Token)) : Prop where
  ahead : ∃ ends, IsLineEnd ends ∧ now.current :: now.supply = ends ++ rest
  scope_eq : now.scope = scope
  depth_eq : now.depth = state.depth
  listing_eq : ∃ names,
    scope.declaredVariables.names = state.scope.declaredVariables.names ++ names ∧
    now.listing = ⟨closedLines (prologue ++ names.map declarationLine),
      closedLines (body.lines setting.numberFormat)⟩

theorem Reaches.of_effect {body : Program} {front ends rest : List Token} {first : Token}
    {now : Generator (List Token)} (h : state.listing = .empty)
    (hends : IsLineEnd (first :: ends))
    (heffect : Effect (opened state) front (ends ++ rest, first)
      (closedLines (body.lines setting.numberFormat)) scope now) :
    Reaches setting state body rest scope now where
  ahead := by
    have hcurrent : now.current = first := congrArg Prod.snd heffect.outlook_eq
    have hsupply : now.supply = ends ++ rest := congrArg Prod.fst heffect.outlook_eq
    exact ⟨first :: ends, hends, by rw [hcurrent, hsupply, List.cons_append]⟩
  scope_eq := heffect.scope_eq
  depth_eq := heffect.depth_eq
  listing_eq := exists_listing_of_effect h heffect

/-- Behind a program whose names are in order, a source text is resumed at the end of the last
line. -/
theorem exists_reaches_of_open {body : Program} {blank front ends rest : List Token}
    (h : state.listing = .empty)
    (hahead : state.current :: state.supply = blank ++ (front ++ (ends ++ rest)))
    (hblank : ∀ token ∈ blank, token.kind = .newline) (hbody : body.DerivesOpen front)
    (hends : IsLineEnd ends) (hinner : ∀ token ∈ front, token.IsInner)
    (hlimit : WithinLimit setting state.depth body.depth)
    (henter : state.scope.enterAll body.mentions = .ok scope) :
    ∃ now rounds, Reaches setting state body rest scope now ∧
      sourceText setting state = resume rounds setting now := by
  obtain ⟨first, tail, rfl⟩ := List.exists_cons_of_ne_nil hends.1
  have hpasses : Passes state.outlook (blank ++ front) (tail ++ rest, first) :=
    passes_of_append (by rw [hahead]; simp)
  obtain ⟨middle, hfirst, hsecond⟩ := passes_append_iff.mp hpasses
  have hmiddle : middle.2.kind ≠ .newline := by
    obtain ⟨word, words, keyword, rfl, hkind⟩ := hbody.exists_keyword
    rw [← (passes_cons_iff.mp hsecond).1, hkind]
    simp
  obtain ⟨start, hskip, hstart⟩ : ∃ start, skipNewlines setting state = .ok () start ∧
      Effect state blank middle "" state.scope start :=
    conforms_skipNewlines hblank hfirst hmiddle
  have hbehind : Passes (opened start).outlook front (tail ++ rest, first) :=
    hstart.outlook_eq ▸ hsecond
  have hlength : front.length < start.supply.length + 2 :=
    hbehind.length_lt_bound fun token htoken ↦ (hinner token htoken).ne_endOfInput
  have hlimit' : WithinLimit setting (opened start).depth body.depth := hstart.depth_eq ▸ hlimit
  have henter' : (opened start).scope.enterAll body.mentions = .ok scope :=
    hstart.scope_eq ▸ henter
  obtain ⟨now, rounds, heffect, hrepeat⟩ := exists_effect_of_open hbody hinner hbehind
    (hends.2 first List.mem_cons_self) hlimit' henter' (Nat.le_of_lt_succ hlength)
  have hreaches : Reaches setting start body rest scope now :=
    .of_effect ((listing_of_skipNewlines hskip).trans h) hends heffect
  have hloop : repeatWhile (· ≠ .endOfInput) statement (TokenSupply.bound start.supply) setting
      (opened start) = (newline >>= fun _ ↦ repeatWhile (· ≠ .endOfInput) statement rounds) setting
        now := hrepeat
  have hnewline : now.current.kind = .newline := by
    rw [show now.current = first from congrArg Prod.snd heffect.outlook_eq]
    exact hends.2 first List.mem_cons_self
  refine ⟨now, rounds, ⟨hreaches.ahead, hreaches.scope_eq, hreaches.depth_eq.trans hstart.depth_eq,
    hstart.scope_eq ▸ hreaches.listing_eq⟩, ?_⟩
  rw [sourceText, bind_of_ok hskip, program_checkLabels_apply, bind_congr_apply hloop, bind_assoc,
    bind_congr_apply (newline_of_kind hnewline)]
  rfl

/-- The same for any program, as long as a line ends before it. -/
theorem exists_reaches {body : Program} {blank tokens rest : List Token}
    (h : state.listing = .empty)
    (hahead : state.current :: state.supply = blank ++ (tokens ++ rest))
    (hblank : IsLineEnd blank) (hbody : body.DerivesBody tokens)
    (hinner : ∀ token ∈ tokens, token.IsInner)
    (hlimit : WithinLimit setting state.depth body.depth)
    (henter : state.scope.enterAll body.mentions = .ok scope) :
    ∃ now rounds, Reaches setting state body rest scope now ∧
      Generator.verdict (sourceText setting state) =
        Generator.verdict (resume rounds setting now) := by
  cases body with
  | nil =>
    have htokens : tokens = [] := hbody
    have hscope : state.scope = scope := by simpa [Program.mentions, Scope.enterAll] using henter
    obtain ⟨rounds, hrounds⟩ := exists_verdict_resume setting state
    rw [htokens, List.nil_append] at hahead
    have hlisting : (opened state).listing =
        ⟨closedLines (prologue ++ ([] : List String).map declarationLine),
          closedLines (Program.lines setting.numberFormat [])⟩ := by
      simp [opened, h, Listing.empty, Program.lines]
    exact ⟨opened state, rounds, ⟨⟨blank, hblank, hahead⟩, hscope, rfl,
      ⟨[], by rw [hscope, List.append_nil], hlisting⟩⟩, hrounds⟩
  | cons tree more =>
    obtain ⟨front, ends, rfl, hends, hopen⟩ := hbody.exists_open (by simp)
    rw [List.append_assoc] at hahead
    obtain ⟨now, rounds, hreaches, hresume⟩ := exists_reaches_of_open h hahead hblank.2 hopen hends
      (fun token htoken ↦ hinner token (by simp [htoken])) hlimit henter
    exact ⟨now, rounds, hreaches, by rw [hresume]⟩

end Generate

theorem wordings_of_map_eq {tokens tokens' : List Token}
    (h : tokens'.map Token.wording = tokens.map Token.wording) :
    wordings tokens' = wordings tokens := by
  induction tokens generalizing tokens' with
  | nil =>
    obtain rfl : tokens' = [] := List.map_eq_nil_iff.mp h
    rfl
  | cons token rest ih =>
    obtain ⟨token', rest', rfl, htoken, hrest⟩ := List.map_eq_cons_iff.mp h
    have hkind : token'.kind = token.kind := congrArg Prod.fst htoken
    have hhead : rest'.head?.map Token.kind = rest.head?.map Token.kind := by
      have hfirst := congrArg (fun wordings ↦ wordings.head?.map Prod.fst) hrest
      simpa [Function.comp_def, Token.wording] using hfirst
    have hsame := ih hrest
    unfold wordings at hsame ⊢
    rw [collapse, collapse, hkind, hhead]
    split
    · exact hsame
    · rw [List.map_cons, List.map_cons, htoken, hsame]

theorem substance_of_map_eq {tokens tokens' : List Token}
    (h : tokens'.map Token.wording = tokens.map Token.wording) :
    substance tokens' = substance tokens := by
  rw [substance_eq_dropWhile, substance_eq_dropWhile, wordings_of_map_eq h]

theorem substance_append_of_newlines {ends : List Token} (h : ∀ token ∈ ends, token.kind = .newline)
    (rest : List Token) : substance (ends ++ rest) = substance rest := by
  rw [substance, substance, List.dropWhile_append_of_pos (by simpa using h)]

/-- A generator that has not pulled its first token, with names in scope. -/
def Generator.idleIn {σ : Type} (scope : Scope) (supply : σ) : Generator σ :=
  { Generator.idle supply with scope }

theorem Generator.verdict_ne_stalled {σ : Type} [TokenSupply σ] [LawfulTokenSupply σ]
    (setting : Setting) (state : Generator σ) :
    verdict (Generate.sourceText setting state) ≠ .error stalled := by
  intro h
  cases hresult : Generate.sourceText setting state with
  | ok value state' =>
    rw [hresult] at h
    cases h
  | error fault state' =>
    rw [hresult] at h
    cases h
    exact Generate.ne_stalled_of_sourceText hresult rfl

/-- Tokens behind a program are generated as they are alone, with the names of the program in
scope. -/
theorem Generate.verdict_of_reaches {setting setting' : Setting}
    (hterms : setting.SameTerms setting') {state now : Generator (List Token)} {body : Program}
    {tokens rest : List Token} {scope : Scope} {rounds : Nat} (hdepth : state.depth = 0)
    (hreaches : Reaches setting' state body rest scope now)
    (hverdict : Generator.verdict (sourceText setting' state) =
      Generator.verdict (resume rounds setting' now))
    (hrest : rest.map Token.wording = tokens.map Token.wording) :
    (∃ listing scope₂ scope₃,
      Generator.verdict (sourceText setting (.idleIn scope tokens)) =
        .ok (Listing.append ⟨closedLines prologue, ""⟩ listing, scope₂) ∧
      Generator.verdict (sourceText setting' state) = .ok (now.listing.append listing, scope₃) ∧
      scope₂.SameNames scope₃) ∨
    ∃ fault fault', Generator.verdict (sourceText setting (.idleIn scope tokens)) = .error fault ∧
      Generator.verdict (sourceText setting' state) = .error fault' ∧
      fault'.cause.unplaced = fault.cause.unplaced := by
  obtain ⟨ends, hends, hahead⟩ := hreaches.ahead
  let alone : Generator (List Token) := opened (.idleIn scope tokens)
  have hbehind : substance (now.current :: now.supply) =
      substance (alone.current :: alone.supply) := by
    change _ = substance ((Generator.idleIn scope tokens).current :: tokens)
    rw [hahead, substance_append_of_newlines hends.2, ← List.singleton_append,
      substance_append_of_newlines (by simp [Generator.idleIn, Generator.idle])]
    exact substance_of_map_eq hrest
  have hwork : alone.SameWork ⟨closedLines prologue, ""⟩ now.listing now := by
    refine ⟨⟨.empty, ?_, (Listing.append_empty _).symm⟩, ?_, hreaches.depth_eq.trans hdepth⟩
    · simp [alone, opened, Generator.idleIn, Generator.idle, Listing.append, Listing.empty]
    · rw [hreaches.scope_eq]
      exact .refl scope
  obtain ⟨rounds₂, halone⟩ : ∃ rounds, Generator.verdict (sourceText setting
      (.idleIn scope tokens)) = Generator.verdict (resume rounds setting alone) :=
    exists_verdict_resume setting _
  have hstalled := Generator.verdict_ne_stalled setting (.idleIn scope tokens)
  have hstalled' := Generator.verdict_ne_stalled setting' state
  have hagrees := agrees_resume hterms hwork hbehind rounds₂ rounds
  rw [halone] at hstalled ⊢
  rw [hverdict] at hstalled' ⊢
  generalize resume rounds₂ setting alone = result at hagrees hstalled ⊢
  generalize resume rounds setting' now = result' at hagrees hstalled' ⊢
  cases hagrees with
  | @ok _ last last' hstep _ =>
    obtain ⟨added, hlisting, hlisting'⟩ := hstep.listing_eq
    refine .inl ⟨added, last.scope, last'.scope, ?_, ?_, hstep.sameNames⟩
    · rw [Generator.verdict, hlisting]
    · rw [Generator.verdict, hlisting']
  | error hcause => exact .inr ⟨_, _, rfl, rfl, hcause⟩
  | stalled_left _ => exact absurd rfl hstalled
  | stalled_right _ => exact absurd rfl hstalled'

end TeenyBasic
