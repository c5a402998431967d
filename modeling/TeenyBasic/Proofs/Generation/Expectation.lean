import TeenyBasic.Proofs.Generation.Compilation
import TeenyBasic.Proofs.Lexing.Fault
import TeenyBasic.Proofs.Source.Completion

/-!
# What was expected

A generator that refuses a token has read a beginning of a program, can go on from there with each
of the kinds it names as expected, and could not have gone on with the token it refuses. So no token
before the refused one is to blame, and none of the expected kinds is an idle suggestion.

The rules of the generator are followed with the language that is ahead of them: a rule that is
handed a language starting with its own phrase either succeeds and hands on what follows the phrase,
or refuses a token with which no word of the language goes on.
-/

open scoped Computability

namespace TeenyBasic

open Grammar

/-- The kinds that a text for what was expected stands for. -/
def expectedKinds (text : String) : List Kind :=
  if text = "a statement" then starters.map .keyword
  else if text = "a number or variable" then [.number, .identifier]
  else if text = "a comparison operator" then
    [.comparison .equal, .comparison .notEqual, .comparison .less, .comparison .lessOrEqual,
      .comparison .greater, .comparison .greaterOrEqual]
  else Kind.all.filter (·.description = text)

/-- Apart from the three texts for several kinds, the description of a kind stands for that kind
alone. -/
theorem expectedKinds_description (kind : Kind) : expectedKinds kind.description = [kind] := by
  cases kind with
  | keyword word => cases word <;> decide +kernel
  | operator sign => cases sign <;> decide +kernel
  | comparison sign => cases sign <;> decide +kernel
  | _ => decide +kernel

/-- A fault that refuses a token behind the kinds read. -/
structure Refuses (fault : Diagnostic) (read : List Kind) (token : Token) : Prop where
  location_eq : fault.location = some token.location
  viable : Viable read
  not_viable : ¬ Viable (read ++ [token.kind])
  exists_expected : ∃ expected, fault.cause = .unexpectedToken expected token.description ∧
    expectedKinds expected ≠ [] ∧ ∀ kind ∈ expectedKinds expected, Viable (read ++ [kind])

namespace Generate

/-- What holds of the kinds read, and of the kind looked at, when a step is over. -/
abbrev Stance := List Kind → Kind → Prop

/-- A step succeeds in a stance, or refuses the token it looks at, or fails for another reason. -/
def Heeds {α : Type} (read : List Kind) (state : Generator Cursor) (post : Stance) :
    EStateM.Result Diagnostic (Generator Cursor) α → Prop
  | .ok _ state' => ∃ tokens, Passes state.outlook tokens state'.outlook ∧
      post (read ++ kinds tokens) state'.current.kind
  | .error fault state' =>
    (∀ expected found, fault.cause ≠ .unexpectedToken expected found) ∨
      ∃ tokens, Passes state.outlook tokens state'.outlook ∧
        Refuses fault (read ++ kinds tokens) state'.current

section

variable {α β : Type} {setting : Setting} {state state' : Generator Cursor} {read : List Kind}
  {post middle : Stance}

theorem Heeds.bind {step : Generate Cursor α} {next : α → Generate Cursor β}
    (hstep : Heeds read state middle (step setting state))
    (hnext : ∀ value state' read', middle read' state'.current.kind →
      Heeds read' state' post (next value setting state')) :
    Heeds read state post ((step >>= next) setting state) := by
  rw [bind_apply]
  cases h : step setting state with
  | error fault state' =>
    rw [h] at hstep
    exact hstep
  | ok value state' =>
    rw [h] at hstep
    obtain ⟨tokens, hpasses, hmiddle⟩ := hstep
    have hrest := hnext value state' _ hmiddle
    dsimp only
    cases h' : next value setting state' with
    | ok value' state'' =>
      rw [h'] at hrest
      obtain ⟨tokens', hpasses', hpost⟩ := hrest
      refine ⟨tokens ++ tokens', hpasses.append hpasses', ?_⟩
      simpa [kinds] using hpost
    | error fault state'' =>
      rw [h'] at hrest
      rcases hrest with hother | ⟨tokens', hpasses', hrefuses⟩
      · exact Or.inl hother
      · refine Or.inr ⟨tokens ++ tokens', hpasses.append hpasses', ?_⟩
        simpa [kinds] using hrefuses

theorem Heeds.mono {result : EStateM.Result Diagnostic (Generator Cursor) α}
    (h : Heeds read state middle result) (hpost : ∀ read next, middle read next → post read next) :
    Heeds read state post result := by
  cases result with
  | ok value state' =>
    obtain ⟨tokens, hpasses, hmiddle⟩ := h
    exact ⟨tokens, hpasses, hpost _ _ hmiddle⟩
  | error fault state' => exact h

theorem heeds_of_outlook {value : α} (houtlook : state'.outlook = state.outlook)
    (hpost : post read state.current.kind) : Heeds read state post (.ok value state') := by
  have hcurrent : state'.current = state.current := congrArg Prod.snd houtlook
  refine ⟨[], passes_nil_iff.mpr houtlook, ?_⟩
  rw [hcurrent]
  simpa [kinds] using hpost

/-- A step that neither moves nor refuses a token. -/
def Plain (step : Generate Cursor α) : Prop :=
  ∀ setting (state : Generator Cursor), match step setting state with
    | .ok _ state' => state'.outlook = state.outlook
    | .error fault _ => ∀ expected found, fault.cause ≠ .unexpectedToken expected found

theorem Plain.heeds {step : Generate Cursor α} (h : Plain step)
    (hpost : post read state.current.kind) : Heeds read state post (step setting state) := by
  have hstep := h setting state
  cases hresult : step setting state with
  | ok value state' =>
    rw [hresult] at hstep
    exact heeds_of_outlook hstep hpost
  | error fault state' =>
    rw [hresult] at hstep
    exact Or.inl hstep

theorem Plain.bind {step : Generate Cursor α} {next : α → Generate Cursor β} (hstep : Plain step)
    (hnext : ∀ value, Plain (next value)) : Plain (step >>= next) := by
  intro setting state
  rw [bind_apply]
  have hfront := hstep setting state
  cases h : step setting state with
  | error fault state' =>
    rw [h] at hfront
    exact hfront
  | ok value state' =>
    rw [h] at hfront
    have hback := hnext value setting state'
    dsimp only at hfront ⊢
    cases h' : next value setting state' with
    | error fault state'' =>
      rw [h'] at hback
      exact hback
    | ok value' state'' =>
      rw [h'] at hback
      exact hback.trans hfront

theorem plain_pure (value : α) : Plain (pure value) := fun _ _ ↦ rfl

theorem plain_write (text : String) : Plain (write text) := fun _ _ ↦ rfl

theorem plain_writeLine (text : String) : Plain (writeLine text) := fun _ _ ↦ rfl

theorem plain_declare (line : String) : Plain (declare line) := fun _ _ ↦ rfl

theorem plain_failAt {cause : Cause} (location : Location)
    (h : ∀ expected found, cause ≠ .unexpectedToken expected found) :
    Plain (failAt (α := α) cause location) :=
  fun _ _ ↦ h

theorem plain_checkName (token : Token) (reserved : List String) :
    Plain (checkName token reserved) := by
  unfold checkName
  split
  · exact plain_failAt _ (by simp)
  · exact plain_pure _

theorem plain_get : Plain (get : Generate Cursor (Generator Cursor)) := fun _ _ ↦ rfl

theorem plain_read : Plain (MonadReader.read : Generate Cursor Setting) := fun _ _ ↦ rfl

theorem plain_modify {change : Generator Cursor → Generator Cursor}
    (h : ∀ state, (change state).outlook = state.outlook) : Plain (modify change) :=
  fun _ state ↦ h state

theorem plain_declareVariable (token : Token) : Plain (declareVariable token) := by
  refine plain_get.bind fun state ↦ ?_
  split
  · exact plain_pure _
  · refine (plain_checkName _ _).bind fun _ ↦ ?_
    refine (plain_modify ?_).bind fun _ ↦ plain_declare _
    exact fun _ ↦ rfl

theorem plain_checkLabels : Plain checkLabels := by
  refine plain_get.bind fun state ↦ ?_
  dsimp only
  split
  · exact plain_pure _
  · split
    · exact plain_failAt _ (by simp)
    · exact plain_pure _

theorem plain_enterBlock : Plain enterBlock := by
  refine (plain_modify ?_).bind fun _ ↦ plain_get.bind fun state ↦ plain_read.bind fun setting ↦ ?_
  · exact fun _ ↦ rfl
  dsimp only
  split
  · exact plain_failAt _ (by simp)
  · exact plain_pure _

theorem heeds_advance {test : Kind → Bool} {rest : Language Kind}
    (h : Ahead (oneOf test * rest) read state.current.kind)
    (hkind : test state.current.kind = true) :
    Heeds read state (Ahead rest) (advance setting state) := by
  rw [advance_apply]
  cases hpull : TokenSupply.pull state.supply with
  | ok token supply =>
    exact ⟨[state.current], .step hpull (.refl _), h.move hkind token.kind⟩
  | error fault supply =>
    have hfamily := Cursor.family_of_next hpull
    refine Or.inl fun expected found hcause ↦ ?_
    rw [hcause] at hfamily
    cases hfamily

theorem heeds_unexpected {rest : Language Kind} {expected : String}
    (h : Ahead rest read state.current.kind) (hnext : state.current.kind ∉ first rest)
    (hsome : expectedKinds expected ≠ [])
    (hall : ∀ kind ∈ expectedKinds expected, kind ∈ first rest) :
    Heeds read state post (unexpected (α := α) expected setting state) := by
  refine Or.inr ⟨[], .refl _, ?_⟩
  rw [kinds, List.map_nil, List.append_nil]
  exact ⟨rfl, h.viable, h.not_viable_concat hnext, expected, rfl, hsome,
    fun kind hkind ↦ h.viable_concat (hall kind hkind)⟩

theorem heeds_expect {expected : Kind} {rest : Language Kind}
    (h : Ahead (only expected * rest) read state.current.kind) :
    Heeds read state (Ahead rest) (expect expected setting state) := by
  by_cases hkind : state.current.kind = expected
  · rw [expect_of_kind hkind]
    rw [only_eq_oneOf] at h
    exact heeds_advance h (by simpa using hkind)
  · rw [expect, bind_of_ok (check_apply expected), decide_eq_false hkind]
    refine heeds_unexpected h (fun hfirst ↦ hkind (first_only_mul hfirst)) ?_ ?_
    · simp [expectedKinds_description]
    · intro kind hmem
      rw [expectedKinds_description, List.mem_singleton] at hmem
      rw [hmem]
      exact mem_first_only_mul expected h.hasWord.of_mul

/-- A loop keeps to a stance that each of its rounds keeps to. -/
theorem heeds_repeatWhile {test : Kind → Bool} {step : Generate Cursor Unit} {rounds : Nat}
    (stance : Stance) (hstance : stance read state.current.kind)
    (hround : ∀ state read, test state.current.kind = true → stance read state.current.kind →
      Heeds read state stance (step setting state))
    (hstop : ∀ read next, test next = false → stance read next → post read next) :
    Heeds read state post (repeatWhile test step rounds setting state) := by
  induction rounds generalizing state read with
  | zero => exact Or.inl (by simp [stalled])
  | succ rounds ih =>
    have hkind : kind setting state = .ok state.current.kind state := rfl
    rw [repeatWhile, bind_of_ok hkind]
    split
    · rename_i htest
      exact (hround state read htest hstance).bind fun _ _ _ hnext ↦ ih hnext
    · rename_i htest
      exact heeds_of_outlook rfl (hstop _ _ (by simpa using htest) hstance)

theorem heeds_loopWhile {test : Kind → Bool} {step : Generate Cursor Unit} (stance : Stance)
    (hstance : stance read state.current.kind)
    (hround : ∀ state read, test state.current.kind = true → stance read state.current.kind →
      Heeds read state stance (step setting state))
    (hstop : ∀ read next, test next = false → stance read next → post read next) :
    Heeds read state post (loopWhile test step setting state) :=
  heeds_repeatWhile stance hstance hround hstop

/-- Operators with their operands are repeated as long as an operator comes next. The loop may also
start where one operator must come. -/
theorem heeds_links {test : Kind → Bool} {operand : Token → Generate Cursor Unit}
    {item rest : Language Kind} (hitem : HasWord item)
    (hoperand : ∀ token state read,
      Ahead (item * ((oneOf test * item)∗ * rest)) read state.current.kind →
      Heeds read state (Ahead ((oneOf test * item)∗ * rest)) (operand token setting state))
    (hrest : ∀ kind ∈ first rest, test kind = false)
    (h : Ahead ((oneOf test * item)∗ * rest) read state.current.kind ∨
      test state.current.kind = true ∧
        Ahead (oneOf test * item * ((oneOf test * item)∗ * rest)) read state.current.kind) :
    Heeds read state (Ahead rest)
      (loopWhile test (advance >>= operand) setting state) := by
  refine heeds_loopWhile (fun read next ↦ Ahead ((oneOf test * item)∗ * rest) read next ∨
    test next = true ∧ Ahead (oneOf test * item * ((oneOf test * item)∗ * rest)) read next) h ?_ ?_
  · intro state read htest h
    have hround : Ahead (oneOf test * item * ((oneOf test * item)∗ * rest)) read
        state.current.kind := by
      rcases h with h | ⟨_, h⟩
      · have hfresh : state.current.kind ∉ first rest := by
          intro hmem
          simp [hrest _ hmem] at htest
        refine h.of_kstar_step ?_ hfresh
        exact HasWord.mul ⟨[state.current.kind], _, htest, rfl⟩ hitem
      · exact h
    rw [mul_assoc] at hround
    refine (heeds_advance hround htest).bind fun token state read h ↦ ?_
    exact (hoperand token state read h).mono fun _ _ ↦ Or.inl
  · rintro read next htest (h | ⟨hnext, _⟩)
    · refine h.of_kstar_stop fun hfirst ↦ ?_
      simp [first_oneOf_mul hfirst] at htest
    · simp [htest] at hnext

/-- A rule for a phrase: whatever may follow the phrase is ahead when the rule is over. -/
def Reads (phrase : Language Kind) (follow : Kind → Prop) (rule : Generate Cursor α) : Prop :=
  ∀ setting state read rest, (∀ kind ∈ first rest, follow kind) →
    Ahead (phrase * rest) read state.current.kind →
    Heeds read state (Ahead rest) (rule setting state)

theorem reads_skipNewlines : Reads (only .newline)∗ (· ≠ .newline) skipNewlines := by
  intro setting state read rest hrest h
  have hnewlines : only .newline = oneOf (· = .newline) * 1 := by rw [mul_one, only_eq_oneOf]
  rw [hnewlines] at h
  have hempty : HasWord 1 := ⟨[], rfl⟩
  refine heeds_links hempty ?_ ?_ (Or.inl h)
  · intro token state read h
    rw [one_mul] at h
    exact (plain_pure ()).heeds h
  · intro kind hkind
    simpa using hrest kind hkind

theorem reads_newline : Reads lines (· ≠ .newline) newline := by
  intro setting state read rest hrest h
  rw [lines, mul_assoc] at h
  refine (heeds_expect h).bind fun _ state read h ↦ ?_
  exact reads_skipNewlines setting state read rest hrest h

open Source (EndsTerm EndsExpression EndsCondition)

theorem primary_of_other (hnumber : state.current.kind ≠ .number)
    (hidentifier : state.current.kind ≠ .identifier) :
    primary setting state = unexpected "a number or variable" setting state := by
  have hget : (get : Generate Cursor (Generator Cursor)) setting state = .ok state state := rfl
  rw [primary, bind_of_ok hget]
  cases hkind : state.current.kind with
  | number => exact absurd hkind hnumber
  | identifier => exact absurd hkind hidentifier
  | _ => rfl

theorem reads_primary : Reads Grammar.primary (fun _ ↦ True) primary := by
  intro setting state read rest _ h
  rw [primary_eq_oneOf] at h
  by_cases hnumber : state.current.kind = .number
  · rw [primary_of_number hnumber]
    refine (heeds_advance h (by simp [hnumber])).bind fun _ _ _ h ↦ ?_
    exact (plain_write _).heeds h
  by_cases hidentifier : state.current.kind = .identifier
  · rw [primary_of_identifier hidentifier]
    split
    · refine (heeds_advance h (by simp [hidentifier])).bind fun _ _ _ h ↦ ?_
      exact (plain_write _).heeds h
    · exact Or.inl (by simp [Cause.undeclared])
  · rw [primary_of_other hnumber hidentifier]
    refine heeds_unexpected h ?_ (by decide) ?_
    · intro hfirst
      simpa [hnumber, hidentifier] using first_oneOf_mul hfirst
    · intro kind hkind
      refine mem_first_oneOf_mul ?_ h.hasWord.of_mul
      simpa [expectedKinds] using hkind

theorem reads_unary : Reads Grammar.unary (fun _ ↦ True) unary := by
  intro setting state read rest hrest h
  rw [unary_mul] at h
  have hprimary : HasWord (Grammar.primary * rest) := by
    obtain ⟨word, hword | hword⟩ := h.hasWord
    · exact ⟨word, hword⟩
    · exact HasWord.of_mul ⟨word, hword⟩
  have hkind : kind setting state = .ok state.current.kind state := rfl
  rw [unary, bind_of_ok hkind]
  split
  · rename_i hsign
    have hsigned := h.of_add_right (HasWord.mul ⟨_, _, hsign, rfl⟩ hprimary) fun hfirst ↦ by
      rcases first_primary_mul hfirst with heq | heq <;> simp [heq, Kind.isAdditive] at hsign
    refine (heeds_advance hsigned hsign).bind fun _ _ _ h ↦ ?_
    refine ((plain_write _).heeds h).bind fun _ _ _ h ↦ ?_
    exact reads_primary _ _ _ _ hrest h
  · rename_i hsign
    exact reads_primary _ _ _ _ hrest (h.of_add_left hprimary fun hfirst ↦
      hsign (first_oneOf_mul hfirst))

theorem reads_term : Reads Grammar.term EndsTerm term := by
  intro setting state read rest hrest h
  rw [Grammar.term, scaling_eq_oneOf, mul_assoc] at h
  refine (reads_unary _ _ _ _ (fun _ _ ↦ trivial) h).bind fun _ _ _ h ↦ ?_
  refine heeds_links hasWord_unary ?_
    (fun kind hkind ↦ (hrest kind hkind).isMultiplicative_eq_false) (Or.inl h)
  intro token state read h
  refine ((plain_write _).heeds h).bind fun _ _ _ h ↦ ?_
  exact reads_unary _ _ _ _ (fun _ _ ↦ trivial) h

theorem endsTerm_of_first {rest : Language Kind} (hrest : ∀ kind ∈ first rest, EndsExpression kind)
    {kind : Kind} (h : kind ∈ first ((oneOf Kind.isAdditive * Grammar.term)∗ * rest)) :
    EndsTerm kind := by
  rcases first_kstar_mul h with hsign | hlast
  · obtain ⟨sign, rfl⟩ := (Source.isAdditive_iff kind).mp (first_oneOf_mul hsign)
    exact sign.endsTerm
  · exact (hrest kind hlast).1

theorem reads_expression : Reads Grammar.expression EndsExpression expression := by
  intro setting state read rest hrest h
  rw [Grammar.expression, sign_eq_oneOf, mul_assoc] at h
  refine (reads_term _ _ _ _ (fun _ ↦ endsTerm_of_first hrest) h).bind fun _ _ _ h ↦ ?_
  refine heeds_links hasWord_term ?_ (fun kind hkind ↦ (hrest kind hkind).isAdditive_eq_false)
    (Or.inl h)
  intro token state read h
  refine ((plain_write _).heeds h).bind fun _ state read h ↦ ?_
  rw [bind_of_ok (check_apply token.kind)]
  split
  · refine ((plain_write _).heeds h).bind fun _ _ _ h ↦ ?_
    exact reads_term _ _ _ _ (fun _ ↦ endsTerm_of_first hrest) h
  · exact reads_term _ _ _ _ (fun _ ↦ endsTerm_of_first hrest) h

theorem endsExpression_of_first {rest : Language Kind}
    (hrest : ∀ kind ∈ first rest, EndsCondition kind) {kind : Kind}
    (h : kind ∈ first ((oneOf Kind.isComparison * Grammar.expression)∗ * rest)) :
    EndsExpression kind := by
  rcases first_kstar_mul h with hrelation | hlast
  · obtain ⟨comparison, rfl⟩ := (Source.isComparison_iff kind).mp (first_oneOf_mul hrelation)
    exact Source.endsExpression_comparison comparison
  · exact (hrest kind hlast).1

theorem reads_comparison : Reads Grammar.comparison EndsCondition comparison := by
  intro setting state read rest hrest h
  rw [Grammar.comparison, relation_eq_oneOf, mul_assoc, mul_assoc] at h
  refine (reads_expression _ _ _ _ (fun kind hkind ↦ ?_) h).bind fun _ state read h ↦ ?_
  · rw [mul_assoc] at hkind
    obtain ⟨comparison, rfl⟩ := (Source.isComparison_iff kind).mp (first_oneOf_mul hkind)
    exact Source.endsExpression_comparison comparison
  have hkind : kind setting state = .ok state.current.kind state := rfl
  rw [bind_of_ok hkind]
  split
  · rename_i hcomparison
    refine heeds_links hasWord_expression ?_
      (fun kind hkind ↦ (hrest kind hkind).isComparison_eq_false) (Or.inr ⟨hcomparison, h⟩)
    intro token state read h
    refine ((plain_write _).heeds h).bind fun _ _ _ h ↦ ?_
    exact reads_expression _ _ _ _ (fun _ ↦ endsExpression_of_first hrest) h
  · rename_i hcomparison
    rw [mul_assoc] at h
    have hcomparisons :
        ∀ kind ∈ expectedKinds "a comparison operator", kind.isComparison = true := by decide
    exact heeds_unexpected h (fun hfirst ↦ hcomparison (first_oneOf_mul hfirst)) (by decide)
      fun kind hmem ↦ mem_first_oneOf_mul (hcomparisons kind hmem) h.hasWord.of_mul

theorem reads_printStatement :
    Reads (word .PRINT * following .PRINT) EndsExpression printStatement := by
  intro setting state read rest hrest h
  rw [mul_assoc, following] at h
  refine (heeds_expect h).bind fun _ state read h ↦ ?_
  rw [add_mul] at h
  have hlast : HasWord rest := by
    rw [← add_mul] at h
    exact h.hasWord.of_mul
  rw [bind_of_ok (check_apply Kind.string)]
  split
  · rename_i hstring
    have hkind : state.current.kind = .string := by simpa using hstring
    have htext := h.of_add_right ((hasWord_only _).mul hlast) fun hfirst ↦ by
      simpa [hkind, Kind.isAdditive] using first_expression_mul hfirst
    rw [only_eq_oneOf] at htext
    refine (heeds_advance htext hstring).bind fun _ _ _ h ↦ ?_
    exact (plain_writeLine _).heeds h
  · rename_i hstring
    have hvalue := h.of_add_left (hasWord_expression.mul hlast) fun hfirst ↦
      hstring (by simpa using first_only_mul hfirst)
    refine (plain_read.heeds hvalue).bind fun _ _ _ h ↦ ?_
    refine ((plain_write _).heeds h).bind fun _ _ _ h ↦ ?_
    refine (reads_expression _ _ _ _ hrest h).bind fun _ _ _ h ↦ ?_
    exact (plain_writeLine _).heeds h

theorem reads_labelStatement :
    Reads (word .LABEL * following .LABEL) (fun _ ↦ True) labelStatement := by
  intro setting state read rest _ h
  rw [mul_assoc, following] at h
  refine (heeds_expect h).bind fun _ state read h ↦ ?_
  refine (heeds_expect h).bind fun token state read h ↦ ?_
  refine ((plain_checkName _ _).heeds h).bind fun _ state read h ↦ ?_
  refine Plain.heeds ?_ h
  refine plain_get.bind fun state ↦ ?_
  dsimp only
  split
  · exact plain_failAt _ (by simp)
  · refine (plain_modify ?_).bind fun _ ↦ plain_writeLine _
    exact fun _ ↦ rfl

theorem reads_gotoStatement :
    Reads (word .GOTO * following .GOTO) (fun _ ↦ True) gotoStatement := by
  intro setting state read rest _ h
  rw [mul_assoc, following] at h
  refine (heeds_expect h).bind fun _ state read h ↦ ?_
  refine (heeds_expect h).bind fun token state read h ↦ ?_
  refine Plain.heeds ((plain_checkName _ _).bind fun _ ↦ ?_) h
  refine (plain_modify ?_).bind fun _ ↦ plain_writeLine _
  exact fun _ ↦ rfl

theorem reads_letStatement :
    Reads (word .LET * following .LET) EndsExpression letStatement := by
  intro setting state read rest hrest h
  rw [mul_assoc, following, mul_assoc, mul_assoc] at h
  refine (heeds_expect h).bind fun _ state read h ↦ ?_
  refine (heeds_expect h).bind fun token state read h ↦ ?_
  refine ((plain_declareVariable _).heeds h).bind fun _ _ _ h ↦ ?_
  refine ((plain_write _).heeds h).bind fun _ _ _ h ↦ ?_
  refine (heeds_expect h).bind fun _ state read h ↦ ?_
  refine (reads_expression _ _ _ _ hrest h).bind fun _ _ _ h ↦ ?_
  exact (plain_writeLine _).heeds h

theorem reads_inputStatement :
    Reads (word .INPUT * following .INPUT) (fun _ ↦ True) inputStatement := by
  intro setting state read rest _ h
  rw [mul_assoc, following] at h
  refine (heeds_expect h).bind fun _ state read h ↦ ?_
  refine (heeds_expect h).bind fun token state read h ↦ ?_
  refine Plain.heeds ((plain_declareVariable _).bind fun _ ↦ ?_) h
  exact (plain_writeLine _).bind fun _ ↦ (plain_writeLine _).bind fun _ ↦
    (plain_writeLine _).bind fun _ ↦ plain_writeLine _

/-! ## Blocks -/

theorem first_statement_mul {kind : Kind} {rest : Language Kind}
    (h : kind ∈ first (Grammar.statement * rest)) :
    ∃ keyword ∈ starters, kind = .keyword keyword := by
  obtain ⟨word, hword⟩ := h
  obtain ⟨keyword, hkeyword, hkind, _⟩ := cons_mem_statement_mul hword
  exact ⟨keyword, hkeyword, hkind⟩

theorem first_statement {kind : Kind} (h : kind ∈ first Grammar.statement) :
    ∃ keyword ∈ starters, kind = .keyword keyword := by
  rw [← mul_one Grammar.statement] at h
  exact first_statement_mul h

theorem closing_not_mem_starters (form : Source.BlockForm) : form.closing ∉ starters := by
  cases form <;> decide

/-- A way to generate blocks that reads statements and the keyword that closes them. -/
def ReadsBlocks (block : Kind → Generate Cursor Unit) : Prop :=
  ∀ form : Source.BlockForm,
    Reads (statements * word form.closing) (fun _ ↦ True) (block (.keyword form.closing))

/-- Statements in front of what ends them start with a keyword of a statement or with the end. -/
theorem first_statements_mul {ending kind : Kind} {rest : Language Kind}
    (h : kind ∈ first (Grammar.statement∗ * (only ending * rest))) :
    (∃ keyword ∈ starters, kind = .keyword keyword) ∨ kind = ending := by
  rcases first_kstar_mul h with hstatement | hlast
  · exact Or.inl (first_statement hstatement)
  · exact Or.inr (first_only_mul hlast)

theorem ne_newline_of_first {ending kind : Kind} {rest : Language Kind}
    (hending : ending ≠ .newline)
    (h : kind ∈ first (Grammar.statement∗ * (only ending * rest))) : kind ≠ .newline := by
  rcases first_statements_mul h with ⟨keyword, _, rfl⟩ | rfl
  · simp
  · exact hending

theorem reads_condition (opening closing : Keyword) (text : String) :
    Reads (word opening * (Grammar.comparison * (word closing * lines))) (· ≠ .newline)
      (condition opening closing text) := by
  intro setting state read rest hrest h
  simp only [mul_assoc] at h
  refine (heeds_expect h).bind fun _ _ _ h ↦ ?_
  refine ((plain_write _).heeds h).bind fun _ _ _ h ↦ ?_
  refine (reads_comparison _ _ _ _ (fun kind hkind ↦ ?_) h).bind fun _ _ _ h ↦ ?_
  · rw [first_only_mul hkind]
    exact Source.endsCondition_keyword closing
  refine (heeds_expect h).bind fun _ _ _ h ↦ ?_
  refine (reads_newline _ _ _ _ hrest h).bind fun _ _ _ h ↦ ?_
  exact (plain_writeLine _).heeds h

/-- Both forms of a block are read in the same way from their keywords. -/
theorem reads_blockStatement {block : Kind → Generate Cursor Unit} (hblock : ReadsBlocks block)
    (form : Source.BlockForm) (text : String) :
    Reads (word form.opening * following form.opening) (fun _ ↦ True)
      (do
        condition form.opening form.middle text
        block (.keyword form.closing)
        writeLine "\x7d") := by
  intro setting state read rest hrest h
  have hparts : word form.opening * following form.opening * rest =
      word form.opening * (Grammar.comparison * (word form.middle * lines)) *
        (statements * word form.closing * rest) := by
    simp only [following_block, mul_assoc]
  rw [hparts] at h
  refine (reads_condition _ _ _ _ _ _ _ (fun kind hkind ↦ ?_) h).bind fun _ _ _ h ↦ ?_
  · rw [statements_eq_kstar, mul_assoc] at hkind
    exact ne_newline_of_first (by simp) hkind
  refine (hblock form _ _ _ _ hrest h).bind fun _ _ _ h ↦ ?_
  exact (plain_writeLine _).heeds h

theorem reads_statementRule {block : Kind → Generate Cursor Unit} (hblock : ReadsBlocks block)
    {keyword : Keyword} (hkeyword : keyword ∈ starters) :
    Reads (word keyword * following keyword) EndsExpression
      (statementRule block (.keyword keyword)) := by
  -- Only PRINT and LET end with an expression, but the condition does no harm to the others.
  have hany {rule : Generate Cursor Unit} {phrase : Language Kind}
      (h : Reads phrase (fun _ ↦ True) rule) : Reads phrase EndsExpression rule :=
    fun setting state read rest _ ↦ h setting state read rest fun _ _ ↦ trivial
  cases keyword with
  | PRINT => exact reads_printStatement
  | IF => exact hany (reads_blockStatement hblock .conditional "if (")
  | WHILE => exact hany (reads_blockStatement hblock .loop "while (")
  | LABEL => exact hany reads_labelStatement
  | GOTO => exact hany reads_gotoStatement
  | LET => exact reads_letStatement
  | INPUT => exact hany reads_inputStatement
  | _ => simp [starters] at hkeyword

theorem statementRule_of_not_starter {block : Kind → Generate Cursor Unit} {next : Kind}
    (h : ∀ keyword ∈ starters, next ≠ .keyword keyword) :
    statementRule block next = unexpected "a statement" := by
  cases next with
  | keyword keyword =>
    have hkeyword : keyword ∉ starters := fun hmem ↦ h keyword hmem rfl
    cases keyword <;> first | rfl | exact absurd (by decide) hkeyword
  | _ => rfl

theorem reads_statementWith {block : Kind → Generate Cursor Unit} (hblock : ReadsBlocks block) :
    Reads Grammar.statement (· ≠ .newline) (statementWith block) := by
  intro setting state read rest hrest h
  rw [statementWith_apply]
  by_cases hstarts : ∃ keyword ∈ starters, state.current.kind = .keyword keyword
  · obtain ⟨keyword, hkeyword, hkind⟩ := hstarts
    rw [hkind] at h ⊢
    have hchosen := h.of_statement hkeyword
    rw [← mul_assoc, ← hkind] at hchosen
    refine (reads_statementRule hblock hkeyword _ _ _ _ (fun kind hfirst ↦ ?_) hchosen).bind
      fun _ _ _ h ↦ reads_newline _ _ _ _ hrest h
    rw [lines, mul_assoc] at hfirst
    rw [first_only_mul hfirst]
    exact Source.endsCondition_newline.1
  · rw [statementRule_of_not_starter fun keyword hkeyword hkind ↦
      hstarts ⟨keyword, hkeyword, hkind⟩]
    refine heeds_unexpected h (fun hfirst ↦ hstarts (first_statement_mul hfirst)) (by decide) ?_
    intro kind hmem
    obtain ⟨keyword, hkeyword, rfl⟩ : ∃ keyword ∈ starters, Kind.keyword keyword = kind := by
      simpa [expectedKinds] using hmem
    obtain ⟨tail, htail⟩ :=
      (hasWord_following hkeyword).mul (hasWord_lines.mul h.hasWord.of_mul)
    exact ⟨tail, word_mul_following_le (cons_mem_only_mul.mpr ⟨rfl, htail⟩)⟩

/-- Statements are repeated until the kind that ends them comes next. -/
theorem heeds_statements {ending : Kind} {step : Generate Cursor Unit} {rest : Language Kind}
    (hending : ∀ keyword ∈ starters, ending ≠ .keyword keyword)
    (hround : ∀ state read, state.current.kind ≠ ending →
      Ahead (Grammar.statement∗ * (only ending * rest)) read state.current.kind →
      Heeds read state (Ahead (Grammar.statement∗ * (only ending * rest))) (step setting state))
    (h : Ahead (statements * (only ending * rest)) read state.current.kind) :
    Heeds read state (Ahead (only ending * rest)) (loopWhile (· ≠ ending) step setting state) := by
  rw [statements_eq_kstar] at h
  refine heeds_loopWhile _ h (fun state read htest h ↦ ?_) fun read next hstop h ↦ ?_
  · exact hround state read (by simpa using htest) h
  · obtain rfl : next = ending := by simpa using hstop
    refine h.of_kstar_stop fun hfirst ↦ ?_
    obtain ⟨keyword, hkeyword, hkind⟩ := first_statement hfirst
    exact hending keyword hkeyword hkind

/-- One statement in front of further ones. -/
theorem heeds_statement {ending : Kind} {rule : Generate Cursor Unit} {rest : Language Kind}
    (hrule : Reads Grammar.statement (· ≠ .newline) rule) (hending : ending ≠ .newline)
    (hnext : state.current.kind ≠ ending)
    (h : Ahead (Grammar.statement∗ * (only ending * rest)) read state.current.kind) :
    Heeds read state (Ahead (Grammar.statement∗ * (only ending * rest))) (rule setting state) := by
  have hround := h.of_kstar_step hasWord_statement fun hfirst ↦ hnext (first_only_mul hfirst)
  exact hrule _ _ _ _ (fun _ ↦ ne_newline_of_first hending) hround

theorem readsBlocks_blockOf {statement : Generate Cursor Unit}
    (hstatement : Reads Grammar.statement (· ≠ .newline) statement) :
    ReadsBlocks (blockOf statement) := by
  intro form setting state read rest _ h
  rw [mul_assoc] at h
  refine (plain_enterBlock.heeds h).bind fun _ _ _ h ↦ ?_
  refine (heeds_statements ?_ (fun state read hnext h ↦ ?_) h).bind fun _ _ _ h ↦ ?_
  · intro keyword hkeyword heq
    obtain rfl : form.closing = keyword := by simpa using heq
    exact closing_not_mem_starters form hkeyword
  · rw [bind_of_ok (check_apply Kind.endOfInput)]
    split
    · rename_i hend
      have hkind : state.current.kind = .endOfInput := by simpa using hend
      refine heeds_unexpected h ?_ (by simp [expectedKinds_description]) ?_
      · intro hfirst
        rw [hkind] at hfirst
        rcases first_statements_mul hfirst with ⟨keyword, _, heq⟩ | heq <;> simp at heq
      · intro kind hmem
        rw [expectedKinds_description, List.mem_singleton] at hmem
        obtain ⟨tail, htail⟩ := mem_first_only_mul kind h.hasWord.of_mul.of_mul
        rw [← hmem]
        exact ⟨tail, mem_kstar_mul htail⟩
    · exact heeds_statement hstatement (by simp) hnext h
  · refine (heeds_expect h).bind fun _ _ _ h ↦ ?_
    refine Plain.heeds (plain_modify ?_) h
    exact fun _ ↦ rfl

theorem readsBlocks_nestedBlock (nesting : Nat) : ReadsBlocks (nestedBlock nesting) := by
  induction nesting with
  | zero =>
    intro form setting state read rest _ _
    exact Or.inl (by simp [stalled])
  | succ nesting ih => exact readsBlocks_blockOf (reads_statementWith ih)

theorem readsBlocks_block : ReadsBlocks block :=
  fun form setting state ↦ readsBlocks_nestedBlock _ form setting state

theorem plain_forM {step : String → Generate Cursor PUnit} (h : ∀ line, Plain (step line)) :
    ∀ lines : List String, Plain (lines.forM step)
  | [] => plain_pure _
  | line :: lines => (h line).bind fun _ ↦ plain_forM h lines

/-- A run over a source text that starts in front of a program keeps to the grammar. -/
theorem heeds_sourceText (setting : Setting) (state : Generator Cursor) :
    Heeds [] state (fun _ _ ↦ True) (sourceText setting state) := by
  have h := ahead_nil state.current.kind
  have hparts : Grammar.program =
      (only .newline)∗ * (statements * (only .endOfInput * 1)) := by
    rw [Grammar.program, mul_one, mul_assoc]
  rw [hparts] at h
  refine (reads_skipNewlines _ _ _ _ (fun kind hkind ↦ ?_) h).bind fun _ _ _ h ↦ ?_
  · rw [statements_eq_kstar] at hkind
    exact ne_newline_of_first (by simp) hkind
  have hprogram (state : Generator Cursor) (read : List Kind)
      (h : Ahead (statements * (only .endOfInput * 1)) read state.current.kind) :
      Heeds read state (fun _ _ ↦ True) (program setting state) := by
    refine ((plain_forM plain_declare prologue).heeds h).bind fun _ _ _ h ↦ ?_
    refine (heeds_statements (by simp) (fun _ _ hnext h ↦ ?_) h).bind fun _ _ _ _ ↦ ?_
    · exact heeds_statement (reads_statementWith readsBlocks_block) (by simp) hnext h
    · exact (plain_forM plain_writeLine epilogue).heeds trivial
  refine (hprogram _ _ h).bind fun _ _ _ _ ↦ ?_
  exact plain_checkLabels.heeds trivial

end

end Generate

/-! ## Compilations -/

/-- Moving past tokens before the end of the input goes through the front of the stream. -/
theorem Cursor.exists_stream_of_passes {c c' : Cursor} {first : Token} {tokens : List Token}
    {last : Outlook Cursor} (hfirst : next c = .ok first c')
    (hpasses : Passes (c', first) tokens last)
    (htokens : ∀ token ∈ tokens, token.kind ≠ .endOfInput) :
    ∃ after, (stream c).tokens = tokens ++ last.2 :: after := by
  induction tokens generalizing c c' first with
  | nil =>
    obtain rfl := passes_nil_iff.mp hpasses
    by_cases hkind : first.kind = .endOfInput
    · exact ⟨[], by rw [stream_of_endOfInput hfirst hkind]; rfl⟩
    · exact ⟨(stream c').tokens, by rw [stream_of_ne_endOfInput hfirst hkind]; rfl⟩
  | cons token rest ih =>
    obtain ⟨rfl, following, supply, hpull, hrest⟩ := passes_cons_iff.mp hpasses
    obtain ⟨after, hafter⟩ := ih hpull hrest fun t ht ↦ htokens t (List.mem_cons_of_mem _ ht)
    refine ⟨after, ?_⟩
    rw [stream_of_ne_endOfInput hfirst (htokens _ List.mem_cons_self), hafter]
    rfl

/-- A generator that meets an unexpected token has gone through the front of the stream and refuses
the token behind it. -/
theorem exists_refused_of_sourceText {source file : String} {setting : Setting} {first : Token}
    {cursor : Cursor} (hfirst : Cursor.next (Cursor.start file source) = .ok first cursor)
    {fault : Diagnostic} {state : Generator Cursor} {expected found : String}
    (hsource : Generate.sourceText setting ⟨cursor, first, .empty, .empty, 0, 1, #[]⟩ =
      .error fault state)
    (hcause : fault.cause = .unexpectedToken expected found) :
    ∃ before after,
      (Cursor.stream (Cursor.start file source)).tokens = before ++ state.current :: after ∧
      Refuses fault (kinds before) state.current := by
  have hheeds := Generate.heeds_sourceText setting ⟨cursor, first, .empty, .empty, 0, 1, #[]⟩
  rw [hsource] at hheeds
  rcases hheeds with hother | ⟨before, hpasses, hrefuses⟩
  · exact absurd hcause (hother expected found)
  rw [List.nil_append] at hrefuses
  obtain ⟨_, _, hsome, hall⟩ := hrefuses.exists_expected
  obtain ⟨kind, hkind⟩ := List.exists_mem_of_ne_nil _ hsome
  have hinside : ∀ token ∈ before, token.kind ≠ .endOfInput := by
    intro token htoken hend
    exact (hall kind hkind).endOfInput_not_mem (hend ▸ List.mem_map_of_mem htoken)
  obtain ⟨after, hstream⟩ := Cursor.exists_stream_of_passes hfirst hpasses hinside
  exact ⟨before, after, hstream, hrefuses⟩

/-- A compilation that meets an unexpected token has read the beginning of a program. The place of
the fault belongs to one token of the text. The kinds of the tokens before it can be completed to a
program, also behind each of the kinds that were expected, but not behind the kind of the token
itself. -/
theorem viable_of_compile_unexpected (options : Options) (source file : String)
    {fault : Diagnostic} {expected found : String}
    (h : options.compile source file = .error fault)
    (hcause : fault.cause = .unexpectedToken expected found) :
    ∃ before token after,
      (Cursor.stream (Cursor.start file source)).tokens = before ++ token :: after ∧
      fault.location = some token.location ∧ found = token.description ∧
      (∀ other ∈ before ++ after, other.location ≠ token.location) ∧
      Viable (kinds before) ∧ ¬ Viable (kinds before ++ [token.kind]) ∧
      expectedKinds expected ≠ [] ∧
      ∀ kind ∈ expectedKinds expected, Viable (kinds before ++ [kind]) := by
  rcases (compile_eq_error_iff_run options source file fault).mp h with
    ⟨stop, hnext⟩ | ⟨start, state, hbegin, hsource⟩
  · have hfamily := Cursor.family_of_next hnext
    rw [hcause] at hfamily
    cases hfamily
  obtain ⟨first, cursor, hfirst, rfl⟩ := begin_eq_ok_iff.mp hbegin
  obtain ⟨before, after, hstream, hrefuses⟩ := exists_refused_of_sourceText hfirst hsource hcause
  obtain ⟨expected', hcause', hsome, hall⟩ := hrefuses.exists_expected
  obtain ⟨rfl, rfl⟩ : expected' = expected ∧ state.current.description = found := by
    simpa using hcause'.symm.trans hcause
  have hnodup := Cursor.nodup_locations (Cursor.start file source) [] (Cursor.isBehind_start _ _)
  rw [hstream, List.map_append, List.map_cons, List.nodup_middle, List.nodup_cons,
    ← List.map_append] at hnodup
  have hplace : ∀ other ∈ before ++ after, other.location ≠ state.current.location :=
    fun other hmem heq ↦ hnodup.1 (List.mem_map.mpr ⟨other, hmem, heq⟩)
  exact ⟨before, state.current, after, hstream, hrefuses.location_eq, rfl, hplace, hrefuses.viable,
    hrefuses.not_viable, hsome, hall⟩

/-- A block cannot be closed by the keyword of the other form, but a loop could have started
there. -/
theorem viable_of_compile_unexpected_open :
    Options.standard.compile "IF 1 < 2 THEN\nENDWHILE" "" =
      .error ⟨.unexpectedToken "a statement" "'ENDWHILE'", some ⟨"", 2, 1⟩, some "ENDWHILE"⟩ ∧
    ∃ before token after,
      (Cursor.stream (Cursor.start "" "IF 1 < 2 THEN\nENDWHILE")).tokens =
        before ++ token :: after ∧ token.location = ⟨"", 2, 1⟩ ∧
      Viable (kinds before ++ [.keyword .WHILE]) ∧ ¬ Viable (kinds before ++ [token.kind]) := by
  have hcompile : Options.standard.compile "IF 1 < 2 THEN\nENDWHILE" "" =
      .error ⟨.unexpectedToken "a statement" "'ENDWHILE'", some ⟨"", 2, 1⟩, some "ENDWHILE"⟩ := by
    decide +kernel
  obtain ⟨before, token, after, htokens, hlocation, _, _, _, hnot, _, hall⟩ :=
    viable_of_compile_unexpected Options.standard _ _ hcompile rfl
  exact ⟨hcompile, before, token, after, htokens, (Option.some.inj hlocation).symm,
    hall _ (by decide), hnot⟩

end TeenyBasic
