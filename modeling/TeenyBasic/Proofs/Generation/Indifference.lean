import TeenyBasic.Proofs.Generation.Batch
import TeenyBasic.Proofs.Generation.Conduct
import TeenyBasic.Proofs.Reading.Essence

/-!
# Indifference to layout

Blanks, comments and empty lines change the places of tokens and the number of line ends in a row,
and nothing else. Two generators over lists of tokens that differ only so keep step: between rules
they look at tokens of the same wording, they have written the same, and their tables hold the same
names in the same order. Runs of line ends are the one thing they do not move past together, but a
rule that moves past one line end moves past all that follow it.

Places flow into tables, events and faults, but no decision depends on them. So either both come to
the end with the same text, or they fail for the same cause, up to the place that a cause may lead
back to.

The main statement is `compile_of_substance_eq`.
-/

namespace TeenyBasic

/-- What a token says wherever it stands: its kind and its spelling. -/
def Token.wording (token : Token) : Gist :=
  (token.kind, token.spelling)

/-- The wordings of tokens, with one line end for each run of them. -/
def wordings (tokens : List Token) : List Gist :=
  (collapse tokens).map Token.wording

/-- What layout leaves as it is: the wordings of tokens without the line ends in front and with one
for each run of others. -/
def substance (tokens : List Token) : List Gist :=
  wordings (tokens.dropWhile (·.kind = .newline))

theorem wordings_cons_of_ne {token : Token} (rest : List Token) (h : token.kind ≠ .newline) :
    wordings (token :: rest) = token.wording :: wordings rest := by
  rw [wordings, collapse_cons_of_ne rest h, List.map_cons, ← wordings]

theorem wordings_newline_newline {token next : Token} (rest : List Token)
    (h : token.kind = .newline) (hnext : next.kind = .newline) :
    wordings (token :: next :: rest) = wordings (next :: rest) := by
  rw [wordings, collapse, if_pos ⟨h, by simp [hnext]⟩, ← wordings]

theorem wordings_cons_cons_of_ne (token : Token) {next : Token} (rest : List Token)
    (hnext : next.kind ≠ .newline) :
    wordings (token :: next :: rest) = token.wording :: wordings (next :: rest) := by
  have hlast : ¬ (token.kind = .newline ∧ (next :: rest).head?.map Token.kind = some .newline) := by
    simp [hnext]
  rw [wordings, collapse, if_neg hlast, List.map_cons, ← wordings]

theorem map_fst_head?_wordings (token : Token) (rest : List Token) :
    (wordings (token :: rest)).head?.map Prod.fst = some token.kind := by
  induction rest generalizing token with
  | nil => simp [wordings, collapse, Token.wording]
  | cons next rest ih =>
    by_cases h : token.kind = .newline
    · by_cases hnext : next.kind = .newline
      · rw [wordings_newline_newline rest h hnext, ih, h, hnext]
      · rw [wordings_cons_cons_of_ne token rest hnext]
        rfl
    · rw [wordings_cons_of_ne _ h]
      rfl

theorem wordings_eq_nil_iff {tokens : List Token} : wordings tokens = [] ↔ tokens = [] := by
  cases tokens with
  | nil => simp [wordings, collapse]
  | cons token rest =>
    have hhead := map_fst_head?_wordings token rest
    constructor
    · intro h
      rw [h] at hhead
      cases hhead
    · intro h
      cases h

theorem substance_eq_dropWhile (tokens : List Token) :
    substance tokens = (wordings tokens).dropWhile (·.1 = .newline) := by
  induction tokens with
  | nil => simp [substance, wordings, collapse]
  | cons token rest ih =>
    by_cases h : token.kind = .newline
    · have hdrop : substance (token :: rest) = substance rest := by
        simp [substance, h]
      rw [hdrop, ih]
      cases rest with
      | nil => simp [wordings, collapse, Token.wording, h]
      | cons next rest =>
        by_cases hnext : next.kind = .newline
        · rw [wordings_newline_newline rest h hnext]
        · rw [wordings_cons_cons_of_ne token rest hnext]
          simp [Token.wording, h]
    · have hdrop : substance (token :: rest) = wordings (token :: rest) := by
        simp [substance, h]
      rw [hdrop, wordings_cons_of_ne rest h]
      simp [Token.wording, h]

/-- A cause without the place it may lead back to. The kind of the fault, its message and everything
it names are kept. -/
def Cause.unplaced : Cause → Cause
  | .duplicateLabel name _ => .duplicateLabel name none
  | cause => cause

@[simp] theorem Cause.text_unplaced (cause : Cause) : cause.unplaced.text = cause.text := by
  cases cause <;> rfl

@[simp] theorem Cause.family_unplaced (cause : Cause) : cause.unplaced.family = cause.family := by
  cases cause <;> rfl

/-! ## Generators that keep step -/

/-- One listing behind another, part by part. -/
def Listing.append (front back : Listing) : Listing :=
  ⟨front.header ++ back.header, front.body ++ back.body⟩

theorem Listing.append_empty (front : Listing) : front.append .empty = front := by
  simp [append, empty]

theorem Listing.append_write (front back : Listing) (text : String) :
    (front.append back).write text = front.append (back.write text) := by
  simp [append, write, String.append_assoc]

theorem Listing.append_declare (front back : Listing) (line : String) :
    (front.append back).declare line = front.append (back.declare line) := by
  simp [append, declare, String.append_assoc]

theorem Table.names_insertNew_of_names_eq {table table' : Table} (h : table'.names = table.names)
    (name : String) (location location' : Location) :
    (table'.insertNew name location').names = (table.insertNew name location).names := by
  rw [names_insertNew, names_insertNew, contains_of_names_eq h, h]

/-- Two generators that have done the same work: they have written the same behind two listings,
hold the same names and are inside as many blocks. -/
structure Generator.SameWork (front front' : Listing) (state state' : Generator (List Token)) :
    Prop where
  listing_eq : ∃ added, state.listing = front.append added ∧ state'.listing = front'.append added
  sameNames : state.scope.SameNames state'.scope
  depth_eq : state'.depth = state.depth

/-- Two generators that have done the same work and have the same wordings before them. -/
structure Generator.InStep (front front' : Listing) (state state' : Generator (List Token)) : Prop
    extends state.SameWork front front' state' where
  ahead : wordings (state'.current :: state'.supply) = wordings (state.current :: state.supply)

section

variable {front front' : Listing} {state state' : Generator (List Token)}

theorem Generator.SameWork.alter {change change' : Change}
    (h : state.SameWork front front' state')
    (hfits : change.Fits (fun token token' ↦ token'.wording = token.wording) state change') :
    (state.alter change).SameWork front front' (state'.alter change') := by
  obtain ⟨⟨added, hlisting, hlisting'⟩, ⟨hvariables, hlabels, hjumps⟩, hdepth⟩ := h
  cases hfits with
  | write text =>
    refine ⟨⟨added.write text, ?_, ?_⟩, ⟨hvariables, hlabels, hjumps⟩, hdepth⟩
    · rw [Generator.alter, hlisting, Listing.append_write]
    · rw [Generator.alter, hlisting', Listing.append_write]
  | @opening line hline =>
    refine ⟨⟨added.declare line, ?_, ?_⟩, ⟨hvariables, hlabels, hjumps⟩, hdepth⟩
    · rw [Generator.alter, hlisting, Listing.append_declare]
    · rw [Generator.alter, hlisting', Listing.append_declare]
  | @newVariable token token' hknown hkind hnew hopen =>
    have hspelling : token'.spelling = token.spelling := congrArg Prod.snd hknown
    refine ⟨⟨added.declare s!"float {token.spelling};", ?_, ?_⟩, ⟨?_, hlabels, hjumps⟩, hdepth⟩
    · rw [Generator.alter, hlisting, Listing.append_declare]
    · rw [Generator.alter, hlisting', Listing.append_declare, hspelling]
    · rw [Generator.alter, Generator.alter, hspelling]
      exact Table.names_insertNew_of_names_eq hvariables _ _ _
  | @newLabel token token' hknown hkind hnew hopen =>
    have hspelling : token'.spelling = token.spelling := congrArg Prod.snd hknown
    refine ⟨⟨added, hlisting, hlisting'⟩, ⟨hvariables, ?_, hjumps⟩, hdepth⟩
    rw [Generator.alter, Generator.alter, hspelling]
    exact Table.names_insertNew_of_names_eq hlabels _ _ _
  | @newJump token token' hknown hkind hopen =>
    have hspelling : token'.spelling = token.spelling := congrArg Prod.snd hknown
    refine ⟨⟨added, hlisting, hlisting'⟩, ⟨hvariables, hlabels, ?_⟩, hdepth⟩
    rw [Generator.alter, Generator.alter, hspelling]
    exact Table.names_insertNew_of_names_eq hjumps _ _ _

theorem Generator.InStep.kind_eq (h : state.InStep front front' state') :
    state'.current.kind = state.current.kind := by
  have hhead := map_fst_head?_wordings state'.current state'.supply
  rw [h.ahead, map_fst_head?_wordings] at hhead
  exact (Option.some.inj hhead).symm

/-- Away from line ends, the tokens looked at have the same wording, and so have those behind
them. -/
theorem Generator.InStep.of_ne (h : state.InStep front front' state')
    (hkind : state.current.kind ≠ .newline) :
    state'.current.wording = state.current.wording ∧
      wordings state'.supply = wordings state.supply := by
  have hahead := h.ahead
  rw [wordings_cons_of_ne _ hkind, wordings_cons_of_ne _ (h.kind_eq ▸ hkind)] at hahead
  exact List.cons.inj hahead

theorem Generator.InStep.description_eq (h : state.InStep front front' state') :
    state'.current.description = state.current.description := by
  by_cases hkind : state.current.kind = .newline
  · simp [Token.description, h.kind_eq, hkind]
  · have hspelling : state'.current.spelling = state.current.spelling :=
      congrArg Prod.snd (h.of_ne hkind).1
    rw [Token.description, Token.description, h.kind_eq, hspelling]

/-- The causes of failing at the same time are the same up to the place of an earlier label. -/
theorem Generator.InStep.unplaced_eq (h : state.InStep front front' state')
    {reason reason' : Reason}
    (hfits : reason.Fits (fun token token' ↦ token'.wording = token.wording) state state'
      reason') : (reason'.cause state').unplaced = (reason.cause state).unplaced := by
  cases hfits with
  | unexpected _ => rw [Reason.cause, Reason.cause, h.description_eq]
  | tooDeep _ => rfl
  | undeclared hkind _ =>
    have hspelling : state'.current.spelling = state.current.spelling :=
      congrArg Prod.snd (h.of_ne (by simp [hkind])).1
    rw [Reason.cause, Reason.cause, hspelling, h.sameNames.declaredVariables]
  | @reserved token token' hknown _ =>
    have hspelling : token'.spelling = token.spelling := congrArg Prod.snd hknown
    rw [Reason.cause, Reason.cause, hspelling]
  | @duplicate token token' hknown _ =>
    have hspelling : token'.spelling = token.spelling := congrArg Prod.snd hknown
    rw [Reason.cause, Reason.cause, hspelling]
    rfl
  | undefined _ _ => rfl

end

/-- Settings with one limit on nesting and one format; they may be about different texts. -/
structure Setting.SameTerms (setting setting' : Setting) : Prop where
  maxDepth_eq : setting'.maxDepth = setting.maxDepth
  numberFormat_eq : setting'.numberFormat = setting.numberFormat

/-- Generators that keep step fail for the same cause, up to the place it leads back to. Past line
ends they do not move together, and they may need different numbers of rounds for the same work. -/
def Conduct.inStep {setting setting' : Setting} (hterms : setting.SameTerms setting')
    (front front' : Listing) : Conduct (List Token) (List Token) setting setting' where
  Known token token' := token'.wording = token.wording
  Holds state state' := state.InStep front front' state'
  Fails fault _ fault' _ := fault'.cause.unplaced = fault.cause.unplaced
  Moves kind := kind ≠ .newline
  mayStall := True
  numberFormat_eq := hterms.numberFormat_eq
  kind_eq_of_known h := congrArg Prod.fst h
  spelling_eq_of_known h := congrArg Prod.snd h
  kind_eq h := h.kind_eq
  sameNames h := h.sameNames
  depth_eq h := h.depth_eq
  moves h := h.1
  known_current h hkind := (h.of_ne hkind).1
  pull {state state'} h hkind := by
    have hbehind := (h.of_ne hkind).2
    cases hsupply : state.supply with
    | nil =>
      rw [hsupply, wordings_eq_nil_iff.mpr rfl, wordings_eq_nil_iff] at hbehind
      rw [hbehind, pull_nil]
    | cons token rest =>
      cases hsupply' : state'.supply with
      | nil =>
        rw [hsupply, hsupply', wordings_eq_nil_iff.mpr rfl, eq_comm, wordings_eq_nil_iff]
          at hbehind
        cases hbehind
      | cons token' rest' =>
        rw [hsupply, hsupply'] at hbehind
        exact ⟨⟨h.listing_eq, h.sameNames, h.depth_eq⟩, hbehind⟩
  change h hfits := ⟨h.toSameWork.alter hfits, by simpa using h.ahead⟩
  fault h hfits := h.unplaced_eq hfits
  bound_eq _ := .inr trivial
  stalled _ := .inr trivial

namespace Generate

variable {setting setting' : Setting} {front front' : Listing}
  {state state' : Generator (List Token)}

/-- The outcome of moving past the line ends in front of a list of tokens: the first other token is
looked at, or the list has given out. -/
def SkipsTo (state : Generator (List Token)) :
    List Token → EStateM.Result Diagnostic (Generator (List Token)) Unit → Prop
  | [], result => ∃ last, result = .error exhausted last
  | next :: rest, result => result = .ok ()
      { state with
        supply := rest
        current := next
        pulled := state.pulled + (state.supply.length - rest.length) }

/-- The loop that moves past line ends. -/
def passNewlines (rounds : Nat) : Generate (List Token) Unit :=
  repeatWhile (· = .newline) (do let _ ← advance) rounds

theorem passNewlines_of_ne {rounds : Nat} (h : state.current.kind ≠ .newline) :
    passNewlines (rounds + 1) setting state = .ok () state := by
  have hkind : kind setting state = .ok state.current.kind state := rfl
  rw [passNewlines, repeatWhile, bind_of_ok hkind, if_neg (by simpa using h)]
  rfl

theorem passNewlines_of_newline {rounds : Nat} (h : state.current.kind = .newline) :
    passNewlines (rounds + 1) setting state =
      (advance >>= fun _ ↦ passNewlines rounds) setting state := by
  have hkind : kind setting state = .ok state.current.kind state := rfl
  rw [passNewlines, repeatWhile, bind_of_ok hkind, if_pos (by simpa using h), bind_assoc]
  rfl

theorem SkipsTo.of_moveTo {token : Token} {tail tokens : List Token}
    {result : EStateM.Result Diagnostic (Generator (List Token)) Unit}
    (hsupply : state.supply = token :: tail) (htokens : tokens.length ≤ tail.length + 1)
    (h : SkipsTo (state.moveTo tail token) tokens result) : SkipsTo state tokens result := by
  cases tokens with
  | nil => exact h
  | cons next rest =>
    have hpulled : state.pulled + 1 + (tail.length - rest.length) =
        state.pulled + (state.supply.length - rest.length) := by
      rw [hsupply, List.length_cons]
      rw [List.length_cons] at htokens
      omega
    rw [SkipsTo, ← hpulled]
    exact h

theorem skipsTo_passNewlines {tokens : List Token} {rounds : Nat} (hsupply : state.supply = tokens)
    (hrounds : tokens.length < rounds) :
    SkipsTo state ((state.current :: tokens).dropWhile (·.kind = .newline))
      (passNewlines rounds setting state) := by
  induction rounds generalizing state tokens with
  | zero => exact absurd hrounds (Nat.not_lt_zero _)
  | succ rounds ih =>
    by_cases hnewline : state.current.kind = .newline
    · rw [List.dropWhile_cons_of_pos (by simpa using hnewline), passNewlines_of_newline hnewline,
        bind_apply, advance_apply, hsupply]
      cases tokens with
      | nil => exact ⟨_, rfl⟩
      | cons token tail =>
        have htail : (state.moveTo tail token).supply = tail := rfl
        exact .of_moveTo hsupply (List.length_dropWhile_le _ _)
          (ih htail (Nat.lt_of_succ_lt_succ hrounds))
    · rw [List.dropWhile_cons_of_neg (by simpa using hnewline), passNewlines_of_ne hnewline,
        ← hsupply, SkipsTo, Nat.sub_self]
      rfl

theorem skipsTo_skipNewlines :
    SkipsTo state ((state.current :: state.supply).dropWhile (·.kind = .newline))
      (skipNewlines setting state) :=
  skipsTo_passNewlines rfl (Nat.lt_add_of_pos_right Nat.two_pos)

theorem newline_of_kind (h : state.current.kind = .newline) :
    newline setting state = skipNewlines setting state := by
  have hskip : skipNewlines setting state =
      passNewlines (state.supply.length + 2) setting state := rfl
  rw [hskip, passNewlines_of_newline h, newline, bind_apply, bind_apply, expect_of_kind h,
    advance_apply]
  cases state.supply <;> rfl

theorem newline_of_ne (h : state.current.kind ≠ .newline) :
    newline setting state =
      (unexpected Kind.newline.description : Generate (List Token) Unit) setting state := by
  rw [newline, bind_apply, expect_of_ne h]
  rfl

section

variable {hterms : setting.SameTerms setting'}

/-- Line ends in front make no difference to generators that have the same behind them. -/
theorem agrees_skipNewlines (hwork : state.SameWork front front' state')
    (hbehind : substance (state'.current :: state'.supply) =
      substance (state.current :: state.supply)) :
    (Conduct.inStep hterms front front').Agrees state.depth (skipNewlines setting state)
      (skipNewlines setting' state') := by
  have hleft : SkipsTo state _ (skipNewlines setting state) := skipsTo_skipNewlines
  have hright : SkipsTo state' _ (skipNewlines setting' state') := skipsTo_skipNewlines
  unfold substance at hbehind
  generalize (state.current :: state.supply).dropWhile (·.kind = .newline) = tokens
    at hleft hbehind
  generalize (state'.current :: state'.supply).dropWhile (·.kind = .newline) = tokens'
    at hright hbehind
  cases tokens with
  | nil =>
    obtain rfl : tokens' = [] := by
      rwa [wordings_eq_nil_iff.mpr rfl, wordings_eq_nil_iff] at hbehind
    obtain ⟨last, hlast⟩ := hleft
    obtain ⟨last', hlast'⟩ := hright
    rw [hlast, hlast']
    exact .error rfl
  | cons next rest =>
    cases tokens' with
    | nil =>
      rw [wordings_eq_nil_iff.mpr rfl, eq_comm, wordings_eq_nil_iff] at hbehind
      cases hbehind
    | cons next' rest' =>
      rw [SkipsTo] at hleft hright
      rw [hleft, hright]
      exact .ok ⟨⟨hwork.listing_eq, hwork.sameNames, hwork.depth_eq⟩, hbehind⟩ rfl

instance : (Conduct.inStep hterms front front').SkipsLines := by
  have hskip : ∀ {state state'},
      Keeps (Conduct.inStep hterms front front') skipNewlines skipNewlines state state' := by
    intro state state' hstep
    apply agrees_skipNewlines hstep.toSameWork
    rw [substance_eq_dropWhile, substance_eq_dropWhile, hstep.ahead]
  refine ⟨hskip, fun {state state'} hstep ↦ ?_⟩
  by_cases hkind : state.current.kind = .newline
  · rw [newline_of_kind hkind, newline_of_kind (hstep.kind_eq.trans hkind)]
    exact hskip hstep
  · rw [newline_of_ne hkind, newline_of_ne (hstep.kind_eq ▸ hkind)]
    exact keeps_unexpected (.inl ⟨.newline, rfl⟩) hstep

theorem keepsBlocks_inStep :
    KeepsBlocks (Conduct.inStep hterms front front') block block := by
  refine keepsBlocks_block hterms.maxDepth_eq fun {state state'} depth hstep ↦ ?_
  exact ⟨⟨hstep.listing_eq, hstep.sameNames, rfl⟩, hstep.ahead⟩

variable (hterms)

/-- Over tokens of one substance, a whole source text is generated with results that agree. -/
theorem agrees_sourceText_of_substance (hwork : state.SameWork front front' state')
    (hbehind : substance (state'.current :: state'.supply) =
      substance (state.current :: state.supply)) :
    (Conduct.inStep hterms front front').Agrees state.depth (sourceText setting state)
      (sourceText setting' state') := by
  refine agrees_bind (agrees_skipNewlines hwork hbehind) fun _ _ _ hmiddle hdepth ↦ ?_
  rw [← hdepth]
  exact keeps_bind (keeps_programWith keepsBlocks_inStep) (fun _ _ _ ↦ keeps_checkLabels) hmiddle

end

end Generate

namespace Options

variable (options : Options) {source source' file file' : String}

/-- Compilations of tokens of one substance agree before anything is made of their results. -/
theorem agrees_resultFrom_of_substance {tokens tokens' : List Token}
    (h : substance tokens' = substance tokens) (hne : tokens ≠ []) (hne' : tokens' ≠ []) :
    ∃ hterms : (options.setting source).SameTerms (options.setting source'),
      (Conduct.inStep hterms .empty .empty).Agrees 0 (options.resultFrom tokens source)
        (options.resultFrom tokens' source') := by
  obtain ⟨token, rest, rfl⟩ := List.exists_cons_of_ne_nil hne
  obtain ⟨token', rest', rfl⟩ := List.exists_cons_of_ne_nil hne'
  let start : Generator (List Token) := ⟨rest, token, .empty, .empty, 0, 1, #[]⟩
  let start' : Generator (List Token) := ⟨rest', token', .empty, .empty, 0, 1, #[]⟩
  have hwork : start.SameWork .empty .empty start' := ⟨⟨.empty, rfl, rfl⟩, .refl _, rfl⟩
  exact ⟨⟨rfl, rfl⟩, Generate.agrees_sourceText_of_substance _ hwork h⟩

/-- The tokens of a text without lexical faults are all that its compilation depends on. -/
theorem compile_eq_of_stream (h : (Cursor.stream (Cursor.start file source)).fault = none) :
    options.compile source file = (Attempt.ofResult source file (options.resultFrom
      (Cursor.stream (Cursor.start file source)).tokens source)).outcome := by
  rcases options.attempt_or_fault source file with ⟨_, hsame, _⟩ | ⟨_, _, fault, hfault, _⟩
  · rw [compile, hsame, attemptFrom_eq_ofResult]
  · rw [h] at hfault
    cases hfault

/-- Layout does not matter. Two texts without lexical faults whose tokens have the same substance
are both translated, to the same text with the same variables and labels, or both rejected for the
same cause with the same message, up to the place that the cause leads back to. -/
theorem compile_of_substance_eq
    (hfault : (Cursor.stream (Cursor.start file source)).fault = none)
    (hfault' : (Cursor.stream (Cursor.start file' source')).fault = none)
    (h : substance (Cursor.stream (Cursor.start file' source')).tokens =
      substance (Cursor.stream (Cursor.start file source)).tokens) :
    (∃ compilation compilation', options.compile source file = .ok compilation ∧
      options.compile source' file' = .ok compilation' ∧
      compilation'.text = compilation.text ∧
      compilation'.variableNames = compilation.variableNames ∧
      compilation'.labelNames = compilation.labelNames) ∨
    ∃ fault fault', options.compile source file = .error fault ∧
      options.compile source' file' = .error fault' ∧
      fault'.cause.unplaced = fault.cause.unplaced ∧ fault'.cause.text = fault.cause.text := by
  obtain ⟨front, last, hlast, _⟩ := Cursor.exists_last_of_stream hfault
  obtain ⟨front', last', hlast', _⟩ := Cursor.exists_last_of_stream hfault'
  rw [options.compile_eq_of_stream hfault, options.compile_eq_of_stream hfault']
  generalize (Cursor.stream (Cursor.start file source)).tokens = tokens at h hlast
  generalize (Cursor.stream (Cursor.start file' source')).tokens = tokens' at h hlast'
  obtain ⟨_, hagrees⟩ := options.agrees_resultFrom_of_substance h (by simp [hlast])
    (by simp [hlast'])
  generalize hleft : options.resultFrom tokens source = result at hagrees
  generalize hright : options.resultFrom tokens' source' = result' at hagrees
  cases hagrees with
  | @ok _ state state' hstep _ =>
    obtain ⟨added, hlisting, hlisting'⟩ := hstep.listing_eq
    have hsame : state'.listing = state.listing := hlisting'.trans hlisting.symm
    exact .inl ⟨_, _, rfl, rfl, congrArg Listing.output hsame,
      hstep.sameNames.declaredVariables, hstep.sameNames.declaredLabels⟩
  | @error fault fault' _ _ hcause =>
    have htext : fault'.cause.text = fault.cause.text := by
      rw [← Cause.text_unplaced, hcause, Cause.text_unplaced]
    exact .inr ⟨fault, fault', rfl, rfl, hcause, htext⟩
  | stalled_left _ => exact absurd rfl (ne_stalled_of_resultFrom hleft)
  | stalled_right _ => exact absurd rfl (ne_stalled_of_resultFrom hright)

/-- A label that is declared twice is rejected with the same message when there are empty lines and
a comment around it, though the report leads back to another place. -/
theorem compile_of_substance_eq_labels :
    (Cursor.stream (Cursor.start "" "LABEL a\nLABEL a")).fault = none ∧
    (Cursor.stream (Cursor.start "" "\n# note\nLABEL\ta\r\n\n LABEL a")).fault = none ∧
    substance (Cursor.stream (Cursor.start "" "\n# note\nLABEL\ta\r\n\n LABEL a")).tokens =
      substance (Cursor.stream (Cursor.start "" "LABEL a\nLABEL a")).tokens ∧
    ∃ fault fault', standard.compile "LABEL a\nLABEL a" "" = .error fault ∧
      standard.compile "\n# note\nLABEL\ta\r\n\n LABEL a" "" = .error fault' ∧
      fault.cause = .duplicateLabel "a" (some ⟨"", 1, 7⟩) ∧
      fault'.cause.unplaced = .duplicateLabel "a" none := by
  have hfault : (Cursor.stream (Cursor.start "" "LABEL a\nLABEL a")).fault = none := by
    decide +kernel
  have hfault' : (Cursor.stream (Cursor.start "" "\n# note\nLABEL\ta\r\n\n LABEL a")).fault =
      none := by
    decide +kernel
  have hsubstance :
      substance (Cursor.stream (Cursor.start "" "\n# note\nLABEL\ta\r\n\n LABEL a")).tokens =
        substance (Cursor.stream (Cursor.start "" "LABEL a\nLABEL a")).tokens := by
    decide +kernel
  have hcompile : standard.compile "LABEL a\nLABEL a" "" =
      .error ⟨.duplicateLabel "a" (some ⟨"", 1, 7⟩), some ⟨"", 2, 7⟩, some "LABEL a"⟩ := by
    decide +kernel
  refine ⟨hfault, hfault', hsubstance, ?_⟩
  rcases standard.compile_of_substance_eq hfault hfault' hsubstance with
    ⟨compilation, _, hok, _⟩ | ⟨fault, fault', hfails, hfails', hcause, _⟩
  · rw [hcompile] at hok
    cases hok
  · rw [hcompile] at hfails
    cases hfails
    exact ⟨_, fault', hcompile, hfails', rfl, hcause⟩

end Options

end TeenyBasic
