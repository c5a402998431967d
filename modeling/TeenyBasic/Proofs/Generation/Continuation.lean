import TeenyBasic.Proofs.Generation.Resumption
import TeenyBasic.Proofs.Lexing.Concatenation

/-!
# Source texts behind one another

A source text can be parsed with names in scope that other texts have left there. Two texts that are
parsed in turn come to the same as the one text of both with a line feed between them: the second
is accepted behind the first exactly when the whole is, what is written for the whole is what is
written for the two in turn but for the lines that enclose a program, and the names are the same. If
the second is rejected, the whole is rejected for the same cause.

The main statement is `parse_append`.
-/

namespace TeenyBasic

open Source

/-- Parses a source text with names in scope: what has been written and the names in scope behind
it, or the fault. -/
def Options.parse (options : Options) (file source : String) (scope : Scope) :
    Except Diagnostic (Listing × Scope) :=
  match Generator.begin (Cursor.start file source) scope with
  | .error fault => .error fault
  | .ok start =>
    match start.run (options.setting source) with
    | (_, some fault) => .error fault
    | (state, none) => .ok (state.listing, state.scope)

/-- Compiling is parsing without names in scope. -/
theorem compile_eq_parse (options : Options) (file source : String) :
    (options.compile source file).map (fun c ↦ (c.listing, c.variableNames, c.labelNames)) =
      (options.parse file source .empty).map fun left ↦
        (left.1, left.2.declaredVariables.names, left.2.declaredLabels.names) := by
  unfold Options.compile Options.attempt Options.parse
  cases Generator.begin (Cursor.start file source) .empty with
  | error fault => rfl
  | ok start =>
    dsimp only
    generalize start.run (options.setting source) = result
    obtain ⟨state, fault⟩ := result
    cases fault <;> rfl

theorem parse_eq_verdict (options : Options) (file source : String) (scope : Scope) :
    options.parse file source scope =
      Generator.verdict ((Generate.advance >>= fun _ ↦ Generate.sourceText)
        (options.setting source) (.idleIn scope (Cursor.start file source))) := by
  unfold Options.parse Generator.begin
  rw [Generate.bind_apply, Generate.advance_apply]
  cases hpull : TokenSupply.pull (Cursor.start file source) with
  | error fault rest =>
    have hfirst : TokenSupply.pull.run (Cursor.start file source) = .error fault rest := hpull
    have hidle : TokenSupply.pull (Generator.idleIn scope (Cursor.start file source)).supply =
        .error fault rest := hpull
    simp only [hfirst, hidle]
    rfl
  | ok token rest =>
    have hfirst : TokenSupply.pull.run (Cursor.start file source) = .ok token rest := hpull
    have hidle : TokenSupply.pull (Generator.idleIn scope (Cursor.start file source)).supply =
        .ok token rest := hpull
    have hstart : (Generator.idleIn scope (Cursor.start file source)).moveTo rest token =
        ⟨rest, token, .empty, scope, 0, 1, #[]⟩ := rfl
    simp only [hfirst, hidle, hstart, Generator.run]
    cases hresult : Generate.sourceText (options.setting source)
        ⟨rest, token, .empty, scope, 0, 1, #[]⟩ with
    | ok value state =>
      have hrun : (Generate.sourceText.run (options.setting source)).run
          ⟨rest, token, .empty, scope, 0, 1, #[]⟩ = .ok value state := hresult
      simp only [hrun]
      rfl
    | error fault state =>
      have hrun : (Generate.sourceText.run (options.setting source)).run
          ⟨rest, token, .empty, scope, 0, 1, #[]⟩ = .error fault state := hresult
      simp only [hrun]
      rfl

/-- A cursor is ahead of the list of the tokens of its stream. -/
def Correspondence.streaming (fault : Option Diagnostic) : Correspondence Cursor (List Token) where
  Related kind cursor tokens := kind ≠ .endOfInput →
    (Cursor.stream cursor).tokens = tokens ∧ (Cursor.stream cursor).fault = fault
  Fails pulled _ given _ := fault = some pulled ∧ given = exhausted
  pull {_ cursor tokens} h hkind := by
    obtain ⟨htokens, hfault⟩ := h hkind
    cases hnext : Cursor.next cursor with
    | error pulled rest =>
      have hpull : TokenSupply.pull cursor = .error pulled rest := hnext
      rw [Cursor.stream_of_error hnext] at htokens hfault
      subst htokens
      simp [hpull, pull_nil, ← hfault]
    | ok token rest =>
      have hpull : TokenSupply.pull cursor = .ok token rest := hnext
      by_cases hend : token.kind = .endOfInput
      · rw [Cursor.stream_of_endOfInput hnext hend] at htokens hfault
        subst htokens
        simp [hpull, pull_cons, hend]
      · rw [Cursor.stream_of_ne_endOfInput hnext hend] at htokens hfault
        subst htokens
        simpa [hpull, pull_cons, hend] using hfault

/-- At the end of a line, a source text may as well start with the next token. -/
theorem Generate.advance_sourceText_of_newline {setting : Setting}
    {state : Generator (List Token)} (h : state.current.kind = .newline) :
    (advance >>= fun _ ↦ sourceText) setting state = sourceText setting state := by
  have hskip : (advance >>= fun _ ↦ skipNewlines) setting state = skipNewlines setting state := by
    rw [← newline_of_kind h, newline]
    exact (bind_congr_apply (expect_of_kind h)).symm
  rw [sourceText, ← bind_congr_apply hskip, bind_assoc]

/-- The faults of a run over a list of tokens: those that have a place are about the program. -/
def Lockstep.placed (setting : Setting) :
    Lockstep (List Token) (List Token) setting setting where
  Known _ := True
  Holds state supply := supply = state.supply
  Fails fault _ _ _ := fault.location ≠ none → fault.cause.family ≠ .other
  Moves _ := True
  mayStall := False
  sameText := .refl setting
  moves _ := trivial
  known_current _ := trivial
  pull := by
    rintro state _ rfl _
    cases hsupply : state.supply with
    | nil => exact fun hplace ↦ absurd rfl hplace
    | cons token rest => exact ⟨rfl, rfl⟩
  change h _ := by simpa using h
  fault _ hfits _ := by
    cases hfits <;> simp [Reason.diagnostic, Reason.cause, Cause.family, Cause.undeclared]
  bound_eq h := .inl (by rw [h])
  stalled _ := .inl fun hplace ↦ absurd rfl hplace

theorem family_of_verdict {setting : Setting} {state : Generator (List Token)}
    {fault : Diagnostic}
    (h : Generator.verdict (Generate.sourceText setting state) = .error fault)
    (hplace : fault.location ≠ none) : fault.cause.family ≠ .other := by
  have hblocks : Generate.KeepsBlocks (Lockstep.placed setting).conduct Generate.block
      Generate.block := by
    refine Generate.keepsBlocks_block rfl ?_
    rintro state _ depth ⟨_, rfl, rfl⟩
    exact ⟨state.supply, rfl, rfl⟩
  have hagrees := Generate.keeps_sourceTextWith hblocks
    (⟨state.supply, rfl, rfl⟩ : (Lockstep.placed setting).conduct.Holds state state)
  rw [← Generate.sourceText_eq] at hagrees
  cases hresult : Generate.sourceText setting state with
  | ok value last =>
    rw [hresult] at h
    cases h
  | error given last =>
    rw [hresult] at h hagrees
    cases h
    obtain ⟨_, _, _, _, hfamily⟩ := hagrees.exists_fails id
    exact hfamily hplace

theorem verdict_advance_ne_stalled {σ : Type} [TokenSupply σ] [LawfulTokenSupply σ]
    (setting : Setting) (state : Generator σ) :
    Generator.verdict ((Generate.advance >>= fun _ ↦ Generate.sourceText) setting state) ≠
      .error stalled := by
  rw [Generate.bind_apply, Generate.advance_apply]
  cases hpull : TokenSupply.pull state.supply with
  | error fault rest =>
    intro h
    cases h
    exact LawfulTokenSupply.ne_stalled hpull rfl
  | ok token rest => exact Generator.verdict_ne_stalled setting _

/-- Parses a list of tokens of a source text with names in scope. -/
def Options.parseTokens (options : Options) (source : String) (tokens : List Token)
    (scope : Scope) : Except Diagnostic (Listing × Scope) :=
  Generator.verdict (Generate.sourceText (options.setting source) (.idleIn scope tokens))

/-- What a source text and the list of its tokens come to. It is the same and no fault of the list
itself, unless the list gives out where the text has a lexical fault. -/
inductive Listed (fault : Option Diagnostic) :
    Except Diagnostic (Listing × Scope) → Except Diagnostic (Listing × Scope) → Prop
  | same {outcome : Except Diagnostic (Listing × Scope)}
    (h : ∀ given, outcome = .error given → given.cause.family ≠ .other) :
    Listed fault outcome outcome
  | exhausted {given : Diagnostic} (h : fault = some given) :
    Listed fault (.error given) (.error exhausted)

/-- A source text is parsed as the list of its tokens is, unless the list gives out where a lexical
fault lies. -/
theorem listed_parse (options : Options) (file source : String) (scope : Scope) :
    Listed (Cursor.stream (Cursor.start file source)).fault (options.parse file source scope)
      (options.parseTokens source (Cursor.stream (Cursor.start file source)).tokens scope) := by
  unfold Options.parseTokens
  have hrelated :
      (Correspondence.streaming (Cursor.stream (Cursor.start file source)).fault).Related .newline
        (Cursor.start file source) (Cursor.stream (Cursor.start file source)).tokens :=
    fun _ ↦ ⟨rfl, rfl⟩
  generalize (Cursor.stream (Cursor.start file source)).fault = fault at hrelated ⊢
  generalize (Cursor.stream (Cursor.start file source)).tokens = tokens at hrelated ⊢
  have hstart : (Correspondence.streaming fault).Related
      (Generator.idleIn scope (Cursor.start file source)).current.kind
      (Cursor.start file source) tokens := hrelated
  have hagrees := Generate.agrees_sourceText (Correspondence.streaming fault)
    (options.setting source) hstart (by simp [Generator.idleIn, Generator.idle])
  have hbatch : (Generate.advance >>= fun _ ↦ Generate.sourceText) (options.setting source)
      ((Generator.idleIn scope (Cursor.start file source)).withSupply tokens) =
        Generate.sourceText (options.setting source) (.idleIn scope tokens) :=
    Generate.advance_sourceText_of_newline rfl
  have hstalled := verdict_advance_ne_stalled (options.setting source)
    (.idleIn scope (Cursor.start file source))
  have hstalled' := Generator.verdict_ne_stalled (options.setting source) (.idleIn scope tokens)
  have hfamily : ∀ fault,
      Generator.verdict (Generate.sourceText (options.setting source) (.idleIn scope tokens)) =
        .error fault → fault.location ≠ none → fault.cause.family ≠ .other :=
    fun _ ↦ family_of_verdict
  rw [hbatch] at hagrees
  rw [parse_eq_verdict]
  generalize (Generate.advance >>= fun _ ↦ Generate.sourceText) (options.setting source)
    (.idleIn scope (Cursor.start file source)) = result at hagrees hstalled ⊢
  generalize Generate.sourceText (options.setting source) (.idleIn scope tokens) = batch
    at hagrees hstalled' hfamily ⊢
  cases hagrees with
  | ok hholds _ =>
    obtain ⟨_, rfl, _⟩ := hholds
    exact .same fun _ h ↦ by cases h
  | error hfails =>
    obtain ⟨_, rfl, ⟨rfl, hplace, _⟩ | ⟨hfault, rfl⟩⟩ := hfails
    · refine .same fun given hgiven ↦ hfamily given hgiven ?_
      cases hgiven
      exact hplace
    · exact .exhausted hfault
  | stalled_left _ => exact absurd rfl hstalled
  | stalled_right _ => exact absurd rfl hstalled'

/-- A source text that is parsed without a fault has a first token, and the run behind it comes to
its end. -/
theorem exists_run_of_parse {options : Options} {file source : String} {scope scope' : Scope}
    {listing : Listing} (h : options.parse file source scope = .ok (listing, scope')) :
    ∃ first cursor state, Cursor.next (Cursor.start file source) = .ok first cursor ∧
      Generate.sourceText (options.setting source) ⟨cursor, first, .empty, scope, 0, 1, #[]⟩ =
        .ok () state ∧ state.listing = listing ∧ state.scope = scope' := by
  rw [parse_eq_verdict] at h
  cases hrun : (Generate.advance >>= fun _ ↦ Generate.sourceText) (options.setting source)
      (.idleIn scope (Cursor.start file source)) with
  | error fault state =>
    rw [hrun] at h
    cases h
  | ok value state =>
    rw [hrun] at h
    cases h
    obtain ⟨_, middle, hadvance, hsource⟩ := Generate.bind_eq_ok_iff.mp hrun
    obtain ⟨_, first, cursor, hfirst, rfl⟩ := Generate.advance_eq_ok_iff.mp hadvance
    exact ⟨first, cursor, state, hfirst, hsource, rfl, rfl⟩

/-- A program that is parsed with names in scope. Its tokens are those of the source text, its names
are in order, and it is written between the lines that enclose a program. -/
structure Options.Parses (options : Options) (file source : String) (scope : Scope)
    (program : Program) (listing : Listing) (scope' : Scope) : Prop where
  fault_eq : (Cursor.stream (Cursor.start file source)).fault = none
  tokens_eq : ∃ blank body last,
    (Cursor.stream (Cursor.start file source)).tokens = blank ++ body ++ [last] ∧
    (∀ token ∈ blank, token.kind = .newline) ∧ program.DerivesBody body ∧
    ∀ token ∈ body, token.IsInner
  withinLimit : Generate.WithinLimit (options.setting source) 0 program.depth
  enterAll_eq : scope.enterAll program.mentions = .ok scope'
  listing_eq : ∃ names,
    scope'.declaredVariables.names = scope.declaredVariables.names ++ names ∧
    listing = ⟨closedLines (Generate.prologue ++ names.map declarationLine),
      closedLines (program.lines options.numberFormat ++ Generate.epilogue)⟩

theorem exists_parses_of_parse {options : Options} {file source : String} {scope scope' : Scope}
    {listing : Listing} (h : options.parse file source scope = .ok (listing, scope')) :
    ∃ program, options.Parses file source scope program listing scope' := by
  obtain ⟨first, cursor, state, hfirst, hsource, rfl, rfl⟩ := exists_run_of_parse h
  obtain ⟨program, tokens, hderives, hpasses, hlimit⟩ :=
    Generate.exists_program_of_sourceText hsource
  obtain ⟨hinside, hend⟩ := hderives.inside
  have hstream := Cursor.stream_of_passes hfirst hpasses hinside hend
  have hinner : ∀ token ∈ tokens, token.IsInner := by
    intro token htoken
    have hmem : token ∈ (Cursor.stream (Cursor.start file source)).tokens := by
      rw [hstream]
      exact List.mem_append_left _ htoken
    exact ⟨Cursor.wellSpelled_of_mem_stream hmem, hinside token htoken⟩
  have hrun := Generate.sourceText_of_derives (options.setting source)
    ⟨cursor, first, .empty, scope, 0, 1, #[]⟩ hderives hinner hpasses hlimit
  cases henter : scope.enterAll program.mentions with
  | error objection =>
    rw [henter] at hrun
    obtain ⟨_, hfails⟩ := hrun
    rw [hfails] at hsource
    cases hsource
  | ok left =>
    rw [henter] at hrun
    obtain ⟨state', hcheck, heffect⟩ := hrun
    rw [hcheck] at hsource
    obtain ⟨_, rfl⟩ := Generate.checkLabels_eq_ok_iff.mp hsource
    obtain ⟨blank, body, last, htokens, hblank, hbody, _⟩ := hderives
    have hfront : tokens = blank ++ body := by
      rw [← List.append_assoc] at htokens
      exact (List.append_inj' htokens rfl).1
    have hlist : (Cursor.stream (Cursor.start file source)).tokens =
        blank ++ body ++ [state.current] := by
      rw [hstream, hfront]
      rfl
    obtain rfl : state.scope = left := heffect.scope_eq
    exact ⟨program, by rw [hstream], ⟨blank, body, state.current, hlist, hblank, hbody,
      fun token htoken ↦ hinner token (by simp [hfront, htoken])⟩, hlimit, henter,
      Generate.exists_listing_of_effect rfl heffect⟩

/-- What is written for a text behind another one: the statements of the first before those of the
second, and the declarations of the second behind those of the first. -/
structure Listing.Continues (first second whole : Listing) : Prop where
  body : ∃ statements, first.body = statements ++ closedLines Generate.epilogue ∧
    whole.body = statements ++ second.body
  header : ∃ declarations, second.header = closedLines Generate.prologue ++ declarations ∧
    whole.header = first.header ++ declarations

/-- What a text comes to behind another one, and what the whole of both comes to: the listing and
the names in scope go on from the first text, or there are faults of the same cause. -/
inductive Continued (first : Listing) :
    Except Diagnostic (Listing × Scope) → Except Diagnostic (Listing × Scope) → Prop
  | ok {second whole : Listing} {scope scope' : Scope} (hlisting : first.Continues second whole)
    (hscope : scope.SameNames scope') : Continued first (.ok (second, scope)) (.ok (whole, scope'))
  | error {fault fault' : Diagnostic} (hcause : fault'.cause.unplaced = fault.cause.unplaced) :
    Continued first (.error fault) (.error fault')

/-- The texts come to what the lists of their tokens come to, if their lexical faults have the same
cause. -/
theorem Continued.of_listed {first : Listing} {fault fault' : Option Diagnostic}
    {alone whole listed listed' : Except Diagnostic (Listing × Scope)}
    (h : Continued first listed listed') (halone : Listed fault alone listed)
    (hwhole : Listed fault' whole listed')
    (hcause : fault'.map Diagnostic.cause = fault.map Diagnostic.cause) :
    Continued first alone whole := by
  cases halone with
  | same hfamily =>
    cases hwhole with
    | same _ => exact h
    | exhausted _ =>
      cases h with
      | error hgiven =>
        refine absurd ?_ (hfamily _ rfl)
        rw [← Cause.family_unplaced, ← hgiven]
        rfl
  | @exhausted given hfault =>
    cases hwhole with
    | same hfamily =>
      cases h with
      | error hgiven =>
        refine absurd ?_ (hfamily _ rfl)
        rw [← Cause.family_unplaced, hgiven]
        rfl
    | @exhausted given' hfault' =>
      rw [hfault, hfault'] at hcause
      have hsame : given'.cause = given.cause := Option.some.inj hcause
      exact .error (congrArg Cause.unplaced hsame)

section

variable {options : Options} {file first : String} {scope between : Scope} {listing : Listing}

/-- The tokens of a text come to the same behind those of another one as alone with the names in
scope that the other text has left. -/
theorem continued_parseTokens (h : options.parse file first scope = .ok (listing, between))
    (second : String) :
    Continued listing
      (options.parseTokens second (Cursor.stream (Cursor.start file second)).tokens between)
      (options.parseTokens (first ++ "\n" ++ second)
        (Cursor.stream (Cursor.start file (first ++ "\n" ++ second))).tokens scope) := by
  obtain ⟨program, hparses⟩ := exists_parses_of_parse h
  obtain ⟨blank, body, last, htokens, hblank, hbody, hinner⟩ := hparses.tokens_eq
  obtain ⟨names, hnames, rfl⟩ := hparses.listing_eq
  obtain ⟨inner, last', rest, htokens', hwhole, hwordings, _⟩ :=
    Cursor.exists_stream_append file first second hparses.fault_eq
  obtain rfl : inner = blank ++ body := (List.append_inj' (htokens'.symm.trans htokens) rfl).1
  have hline : IsLineEnd ((Generator.idleIn scope (blank ++ body ++ rest)).current :: blank) :=
    ⟨by simp, by simpa [Generator.idleIn, Generator.idle] using hblank⟩
  have hahead : (Generator.idleIn scope (blank ++ body ++ rest)).current ::
      (Generator.idleIn scope (blank ++ body ++ rest)).supply =
        ((Generator.idleIn scope (blank ++ body ++ rest)).current :: blank) ++ (body ++ rest) := by
    simp [Generator.idleIn, Generator.idle]
  have hlimit : Generate.WithinLimit (options.setting (first ++ "\n" ++ second)) 0
      program.depth := hparses.withinLimit
  obtain ⟨now, rounds, hreaches, hverdict⟩ :=
    Generate.exists_reaches rfl hahead hline hbody hinner hlimit hparses.enterAll_eq
  obtain ⟨names', hnames', hnow⟩ := hreaches.listing_eq
  obtain rfl : names' = names := List.append_cancel_left (hnames'.symm.trans hnames)
  have hterms : (options.setting second).SameTerms (options.setting (first ++ "\n" ++ second)) :=
    ⟨rfl, rfl⟩
  rw [hwhole, Options.parseTokens, Options.parseTokens]
  rcases Generate.verdict_of_reaches hterms rfl hreaches hverdict hwordings with
    ⟨added, scope₂, scope₃, halone, hjoined, hsame⟩ | ⟨fault, fault', halone, hjoined, hcause⟩
  · rw [halone, hjoined, hnow]
    exact .ok ⟨⟨closedLines (program.lines options.numberFormat), closedLines_append _ _, rfl⟩,
      ⟨added.header, rfl, rfl⟩⟩ hsame
  · rw [halone, hjoined]
    exact .error hcause

/-- Parsing goes on behind a text. With the names in scope that the first text has left, a second
one is parsed as it is in the whole of both, with a line feed between them. Either both are written:
the listing of the whole is that of the second text behind that of the first, and the tables hold
the same names in the same order. Or both are rejected for the same cause with the same message, up
to the place that the cause leads back to. -/
theorem parse_append (h : options.parse file first scope = .ok (listing, between))
    (second : String) :
    (∃ listing₂ scope₂ listing₃ scope₃,
      options.parse file second between = .ok (listing₂, scope₂) ∧
      options.parse file (first ++ "\n" ++ second) scope = .ok (listing₃, scope₃) ∧
      listing.Continues listing₂ listing₃ ∧ scope₂.SameNames scope₃) ∨
    ∃ fault fault', options.parse file second between = .error fault ∧
      options.parse file (first ++ "\n" ++ second) scope = .error fault' ∧
      fault'.cause.unplaced = fault.cause.unplaced ∧
      fault'.cause.family = fault.cause.family ∧ fault'.cause.text = fault.cause.text := by
  obtain ⟨program, hparses⟩ := exists_parses_of_parse h
  obtain ⟨_, _, _, _, _, _, hlexical⟩ :=
    Cursor.exists_stream_append file first second hparses.fault_eq
  have hcontinued : Continued listing (options.parse file second between)
      (options.parse file (first ++ "\n" ++ second) scope) :=
    (continued_parseTokens h second).of_listed (listed_parse options file second between)
      (listed_parse options file (first ++ "\n" ++ second) scope) hlexical
  generalize options.parse file second between = alone at hcontinued
  generalize options.parse file (first ++ "\n" ++ second) scope = whole at hcontinued
  cases hcontinued with
  | ok hlisting hscope => exact .inl ⟨_, _, _, _, rfl, rfl, hlisting, hscope⟩
  | @error fault fault' hcause =>
    have hfamily : fault'.cause.family = fault.cause.family := by
      rw [← Cause.family_unplaced, hcause, Cause.family_unplaced]
    have htext : fault'.cause.text = fault.cause.text := by
      rw [← Cause.text_unplaced, hcause, Cause.text_unplaced]
    exact .inr ⟨fault, fault', rfl, rfl, hcause, hfamily, htext⟩

end

/-- Behind a text that declares a label, a jump to it goes on from that text, and a second
declaration is rejected as it is in the whole. -/
theorem parse_append_label : ∃ listing between,
    Options.standard.parse "" "LET a = 1\nLABEL x" .empty = .ok (listing, between) ∧
    (∃ listing₂ scope₂ listing₃ scope₃,
      Options.standard.parse "" "LET b = a\nGOTO x" between = .ok (listing₂, scope₂) ∧
      Options.standard.parse "" ("LET a = 1\nLABEL x" ++ "\n" ++ "LET b = a\nGOTO x") .empty =
        .ok (listing₃, scope₃) ∧
      listing.Continues listing₂ listing₃ ∧ scope₂.SameNames scope₃) ∧
    ∃ fault fault', Options.standard.parse "" "LABEL x" between = .error fault ∧
      Options.standard.parse "" ("LET a = 1\nLABEL x" ++ "\n" ++ "LABEL x") .empty =
        .error fault' ∧
      fault.cause = .duplicateLabel "x" (some ⟨"", 2, 7⟩) ∧
      fault'.cause.unplaced = .duplicateLabel "x" none := by
  have hfirst : Options.standard.parse "" "LET a = 1\nLABEL x" .empty =
      .ok (⟨"#include <stdio.h>\nint main(int argc, char *argv[]) \x7b\nfloat a;\n",
        "a = 1;\nx:\nreturn 0;\n\x7d\n"⟩,
        ⟨⟨[("a", ⟨"", 1, 5⟩)]⟩, ⟨[("x", ⟨"", 2, 7⟩)]⟩, ⟨[]⟩⟩) := by
    decide +kernel
  have hjump : Options.standard.parse "" "LET b = a\nGOTO x"
      ⟨⟨[("a", ⟨"", 1, 5⟩)]⟩, ⟨[("x", ⟨"", 2, 7⟩)]⟩, ⟨[]⟩⟩ =
      .ok (⟨"#include <stdio.h>\nint main(int argc, char *argv[]) \x7b\nfloat b;\n",
        "b = a;\ngoto x;\nreturn 0;\n\x7d\n"⟩,
        ⟨⟨[("a", ⟨"", 1, 5⟩), ("b", ⟨"", 1, 5⟩)]⟩, ⟨[("x", ⟨"", 2, 7⟩)]⟩,
          ⟨[("x", ⟨"", 2, 6⟩)]⟩⟩) := by
    decide +kernel
  have hlabel : Options.standard.parse "" "LABEL x"
      ⟨⟨[("a", ⟨"", 1, 5⟩)]⟩, ⟨[("x", ⟨"", 2, 7⟩)]⟩, ⟨[]⟩⟩ =
      .error ⟨.duplicateLabel "x" (some ⟨"", 2, 7⟩), some ⟨"", 1, 7⟩, some "LABEL x"⟩ := by
    decide +kernel
  refine ⟨_, _, hfirst, ?_, ?_⟩
  · rcases parse_append hfirst "LET b = a\nGOTO x" with hboth | ⟨fault, _, hfails, _⟩
    · exact hboth
    · rw [hjump] at hfails
      cases hfails
  · rcases parse_append hfirst "LABEL x" with
      ⟨_, _, _, _, hok, _⟩ | ⟨fault, fault', hfails, hfails', hcause, _⟩
    · rw [hlabel] at hok
      cases hok
    · rw [hlabel] at hfails
      cases hfails
      exact ⟨_, fault', hlabel, hfails', rfl, hcause⟩

end TeenyBasic
