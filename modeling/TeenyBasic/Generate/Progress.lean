import TeenyBasic.Generate.Program

/-!
# Progress of generators

A loop of a generator goes round at most as often as its supply has announced, and a supply that
gives more ends the run with the diagnostic `stalled`. This module shows that this never happens to
a supply that keeps to its bound, and that cursors do.

The measure of a state is what its supply can still give, and one more as long as the current token
is not the end of the input. Every rule of the grammar that succeeds has moved past some token, so
the measure sinks with each round of a loop and with each block that is opened inside another.

The main statement is `ne_stalled_of_sourceText`: whatever ends a run over a supply that keeps to
its bound, it is not the bound on loops.
-/

namespace TeenyBasic

/-- A supply that keeps to its bound: no pull raises it, and a pull that gives a token other than
the end of the input lowers it. -/
class LawfulTokenSupply (σ : Type) [TokenSupply σ] : Prop where
  two_le_bound (supply : σ) : 2 ≤ TokenSupply.bound supply
  bound_le {supply supply' : σ} {token : Token} (h : TokenSupply.pull supply = .ok token supply') :
    TokenSupply.bound supply' ≤ TokenSupply.bound supply
  bound_lt {supply supply' : σ} {token : Token} (h : TokenSupply.pull supply = .ok token supply')
    (hkind : token.kind ≠ .endOfInput) : TokenSupply.bound supply' < TokenSupply.bound supply
  ne_stalled {supply supply' : σ} {fault : Diagnostic}
    (h : TokenSupply.pull supply = .error fault supply') : fault ≠ stalled

instance : LawfulTokenSupply Cursor where
  two_le_bound _ := Nat.le_add_left 2 _
  bound_le h := Nat.add_le_add_right (Cursor.length_rest_next_le h) 2
  bound_lt h hkind := Nat.add_lt_add_right (Cursor.next_shortens h hkind) 2
  ne_stalled h := fun hstalled ↦ Cursor.location_ne_none_of_next h (by rw [hstalled]; rfl)

/-- What is left to a generator: the tokens its supply can still give, and its current token unless
that is the end of the input. -/
def Generator.remaining {σ : Type} [TokenSupply σ] (state : Generator σ) : Nat :=
  TokenSupply.bound state.supply - 2 + if state.current.kind = .endOfInput then 0 else 1

theorem Generator.remaining_lt_bound {σ : Type} [TokenSupply σ] [LawfulTokenSupply σ]
    (state : Generator σ) : state.remaining < TokenSupply.bound state.supply := by
  have htwo := LawfulTokenSupply.two_le_bound state.supply
  unfold remaining
  split <;> omega

namespace Generate

section

variable {σ α β : Type} {setting : Setting} {state : Generator σ}

/-- A step does not stall, and its value and the state it leaves meet a condition if it succeeds. -/
def Ensures (step : Generate σ α) (setting : Setting) (state : Generator σ)
    (post : α → Generator σ → Prop) : Prop :=
  match step setting state with
  | .ok value state' => post value state'
  | .error fault _ => fault ≠ stalled

theorem ensures_bind {step : Generate σ α} {next : α → Generate σ β}
    {post : β → Generator σ → Prop}
    (h : Ensures step setting state fun value state' ↦ Ensures (next value) setting state' post) :
    Ensures (step >>= next) setting state post := by
  have hrun : (step >>= next) setting state =
      match step setting state with
      | .ok value state' => next value setting state'
      | .error fault state' => .error fault state' := by
    change EStateM.bind (step setting) (fun value ↦ next value setting) state = _
    unfold EStateM.bind
    cases step setting state <;> rfl
  unfold Ensures at h ⊢
  rw [hrun]
  cases hstep : step setting state <;> simpa [hstep] using h

theorem Ensures.weaken {step : Generate σ α} {post post' : α → Generator σ → Prop}
    (h : Ensures step setting state post)
    (himp : ∀ value state', post value state' → post' value state') :
    Ensures step setting state post' := by
  unfold Ensures at h ⊢
  split at h
  · exact himp _ _ h
  · exact h

theorem ensures_pure {value : α} {post : α → Generator σ → Prop} (h : post value state) :
    Ensures (pure value) setting state post := h

theorem ensures_get {post : Generator σ → Generator σ → Prop} (h : post state state) :
    Ensures get setting state post := h

theorem ensures_read {post : Setting → Generator σ → Prop} (h : post setting state) :
    Ensures read setting state post := h

theorem ensures_modify {change : Generator σ → Generator σ} {post : Unit → Generator σ → Prop}
    (h : post () (change state)) : Ensures (modify change) setting state post := h

theorem ensures_set {state' : Generator σ} {post : PUnit → Generator σ → Prop}
    (h : post () state') : Ensures (set state') setting state post := h

theorem ensures_throw {fault : Diagnostic} {post : α → Generator σ → Prop}
    (h : fault ≠ stalled) : Ensures (throw fault) setting state post := h

theorem ensures_kind {post : Kind → Generator σ → Prop} (h : post state.current.kind state) :
    Ensures kind setting state post := h

theorem ensures_check {expected : Kind} {post : Bool → Generator σ → Prop}
    (h : post (state.current.kind = expected) state) :
    Ensures (check expected) setting state post := h

theorem ensures_failAt {cause : Cause} {location : Location} {post : α → Generator σ → Prop} :
    Ensures (failAt cause location) setting state post :=
  ensures_bind (ensures_read (ensures_throw (by simp [stalled])))

theorem ensures_unexpected {expected : String} {post : α → Generator σ → Prop} :
    Ensures (unexpected expected) setting state post :=
  ensures_bind (ensures_get ensures_failAt)

end

variable {σ α β : Type} [TokenSupply σ] {setting : Setting} {state : Generator σ} {n : Nat}

/-- A step leaves less than the given number of tokens. -/
abbrev Below (n : Nat) (step : Generate σ α) (setting : Setting) (state : Generator σ) : Prop :=
  Ensures step setting state fun _ state' ↦ state'.remaining < n

/-- Steps in a row leave what the last one leaves. -/
theorem below_bind {step : Generate σ α} {next : α → Generate σ β} (m : Nat)
    (h : Below m step setting state)
    (hnext : ∀ value (state' : Generator σ), state'.remaining < m →
      Below n (next value) setting state') :
    Below n (step >>= next) setting state :=
  ensures_bind (h.weaken hnext)

theorem below_pure {value : α} (h : state.remaining < n) : Below n (pure value) setting state := h

theorem below_write {text : String} (h : state.remaining < n) :
    Below n (write text) setting state := h

theorem below_writeLine {text : String} (h : state.remaining < n) :
    Below n (writeLine text) setting state := h

theorem below_declare {line : String} (h : state.remaining < n) :
    Below n (declare line) setting state := h

theorem below_checkName {token : Token} {reserved : List String} (h : state.remaining < n) :
    Below n (checkName token reserved) setting state := by
  unfold checkName
  split
  · exact ensures_failAt
  · exact below_pure h

theorem below_declareVariable {token : Token} (h : state.remaining < n) :
    Below n (declareVariable token) setting state := by
  refine ensures_bind (ensures_get ?_)
  split
  · exact below_pure h
  · refine below_bind n (below_checkName h) fun _ state' hstate' ↦ ?_
    exact ensures_bind (ensures_modify (below_declare hstate'))

theorem below_checkLabels (h : state.remaining < n) : Below n checkLabels setting state := by
  refine ensures_bind (ensures_get ?_)
  dsimp only
  split
  · exact below_pure h
  · split
    · exact ensures_failAt
    · exact below_pure h

theorem below_enterBlock (h : state.remaining < n) : Below n enterBlock setting state := by
  refine ensures_bind (ensures_modify (ensures_bind (ensures_get (ensures_bind (ensures_read ?_)))))
  dsimp only
  split
  · exact ensures_failAt
  · exact below_pure h

/-- A loop whose rounds lower the measure ends before the rounds granted to it do. -/
theorem below_repeatWhile {test : Kind → Bool} {step : Generate σ Unit} {rounds : Nat}
    (hstep : ∀ (state : Generator σ) (m : Nat), state.remaining < m + 1 → m < n →
      test state.current.kind = true → Below m step setting state)
    (h : state.remaining < n) (hrounds : state.remaining < rounds) :
    Below n (repeatWhile test step rounds) setting state := by
  induction rounds generalizing state with
  | zero => omega
  | succ rounds ih =>
    refine ensures_bind (ensures_kind ?_)
    split
    · rename_i htest
      refine below_bind state.remaining (hstep state _ (by omega) h htest) fun _ state' hstate' ↦ ?_
      exact ih (by omega) (by omega)
    · exact below_pure h

variable [LawfulTokenSupply σ]

/-- Moving on never leaves more than before, and less if the current token is not the end of the
input. -/
theorem ensures_advance : Ensures advance setting state fun _ state' ↦
    state'.remaining ≤ state.remaining ∧
      (state.current.kind ≠ .endOfInput → state'.remaining < state.remaining) := by
  refine ensures_bind (ensures_get ?_)
  split
  · rename_i token supply hpull
    have htwo := LawfulTokenSupply.two_le_bound supply
    have hle := LawfulTokenSupply.bound_le hpull
    have hlt := LawfulTokenSupply.bound_lt hpull
    refine ensures_bind (ensures_set (ensures_pure ?_))
    unfold Generator.remaining
    by_cases htoken : token.kind = .endOfInput
    · simp only [htoken, if_true]
      exact ⟨by omega, fun hcurrent ↦ by simp only [hcurrent, if_false]; omega⟩
    · have hlower := hlt htoken
      simp only [htoken, if_false]
      exact ⟨by omega, fun hcurrent ↦ by simp only [hcurrent, if_false]; omega⟩
  · rename_i fault supply hpull
    exact ensures_bind (ensures_set (ensures_throw (LawfulTokenSupply.ne_stalled hpull)))

theorem below_advance (h : state.remaining < n) : Below n advance setting state :=
  ensures_advance.weaken fun _ _ hpost ↦ Nat.lt_of_le_of_lt hpost.1 h

theorem below_advance_of_ne (hkind : state.current.kind ≠ .endOfInput)
    (h : state.remaining < n + 1) : Below n advance setting state :=
  ensures_advance.weaken fun _ _ hpost ↦ Nat.lt_of_lt_of_le (hpost.2 hkind) (Nat.le_of_lt_succ h)

theorem below_expect {expected : Kind} (h : state.remaining < n) :
    Below n (expect expected) setting state := by
  refine ensures_bind (ensures_check ?_)
  split
  · exact below_advance h
  · exact ensures_unexpected

theorem below_expect_of_ne {expected : Kind} (hkind : expected ≠ .endOfInput)
    (h : state.remaining < n + 1) : Below n (expect expected) setting state := by
  refine ensures_bind (ensures_check ?_)
  split
  · rename_i hcurrent
    exact below_advance_of_ne (by simp_all) h
  · exact ensures_unexpected

theorem below_loopWhile {test : Kind → Bool} {step : Generate σ Unit}
    (hstep : ∀ (state : Generator σ) (m : Nat), state.remaining < m + 1 → m < n →
      test state.current.kind = true → Below m step setting state)
    (h : state.remaining < n) : Below n (loopWhile test step) setting state :=
  ensures_bind (ensures_get (below_repeatWhile hstep h state.remaining_lt_bound))

theorem below_skipNewlines (h : state.remaining < n) : Below n skipNewlines setting state := by
  refine below_loopWhile (fun state m hm _ htest ↦ ?_) h
  have hkind : state.current.kind = .newline := by simpa using htest
  exact below_bind m (below_advance_of_ne (by simp [hkind]) hm) fun _ _ ↦ below_pure

theorem below_newline (h : state.remaining < n + 1) : Below n newline setting state :=
  below_bind n (below_expect_of_ne (by simp) h) fun _ _ ↦ below_skipNewlines

theorem below_primary (h : state.remaining < n + 1) : Below n primary setting state := by
  refine ensures_bind (ensures_get ?_)
  split
  · rename_i hkind
    exact below_bind n (below_advance_of_ne (by simp [hkind]) h) fun _ _ ↦ below_write
  · rename_i hkind
    dsimp only
    split
    · exact below_bind n (below_advance_of_ne (by simp [hkind]) h) fun _ _ ↦ below_write
    · exact ensures_failAt
  · exact ensures_unexpected

theorem below_unary (h : state.remaining < n + 1) : Below n unary setting state := by
  refine ensures_bind (ensures_kind ?_)
  split
  · exact below_bind (n + 1) (below_advance h) fun _ _ hnext ↦
      below_bind (n + 1) (below_write hnext) fun _ _ ↦ below_primary
  · exact below_primary h

theorem ne_endOfInput_of_isMultiplicative {k : Kind} (h : k.isMultiplicative = true) :
    k ≠ .endOfInput := by
  rintro rfl
  simp [Kind.isMultiplicative] at h

theorem ne_endOfInput_of_isAdditive {k : Kind} (h : k.isAdditive = true) : k ≠ .endOfInput := by
  rintro rfl
  simp [Kind.isAdditive] at h

theorem ne_endOfInput_of_isComparison {k : Kind} (h : k.isComparison = true) :
    k ≠ .endOfInput := by
  rintro rfl
  simp [Kind.isComparison] at h

theorem below_term (h : state.remaining < n + 1) : Below n term setting state := by
  refine below_bind n (below_unary h) fun _ state' ↦ below_loopWhile fun state m hm _ htest ↦ ?_
  have hkind := ne_endOfInput_of_isMultiplicative htest
  refine below_bind m (below_advance_of_ne hkind hm) fun _ _ hm ↦ ?_
  refine below_bind m (below_write hm) fun _ _ hm ↦ ?_
  exact below_unary (Nat.lt_succ_of_lt hm)

theorem below_expression (h : state.remaining < n + 1) : Below n expression setting state := by
  refine below_bind n (below_term h) fun _ state' ↦ below_loopWhile fun state m hm _ htest ↦ ?_
  have hkind := ne_endOfInput_of_isAdditive htest
  refine below_bind m (below_advance_of_ne hkind hm) fun _ _ hm ↦ ?_
  refine below_bind m (below_write hm) fun _ _ hm ↦ ?_
  refine ensures_bind (ensures_check ?_)
  split
  · exact below_bind m (below_write hm) fun _ _ hm ↦ below_term (Nat.lt_succ_of_lt hm)
  · exact below_term (Nat.lt_succ_of_lt hm)

theorem below_comparison (h : state.remaining < n + 1) : Below n comparison setting state := by
  refine below_bind n (below_expression h) fun _ state' hstate' ↦ ?_
  refine ensures_bind (ensures_kind ?_)
  split
  · refine below_loopWhile (fun state m hm _ htest ↦ ?_) hstate'
    have hkind := ne_endOfInput_of_isComparison htest
    refine below_bind m (below_advance_of_ne hkind hm) fun _ _ hm ↦ ?_
    refine below_bind m (below_write hm) fun _ _ hm ↦ ?_
    exact below_expression (Nat.lt_succ_of_lt hm)
  · exact ensures_bind ensures_unexpected

theorem below_printStatement (h : state.remaining < n + 1) :
    Below n printStatement setting state := by
  refine below_bind n (below_expect_of_ne (by simp) h) fun _ _ hn ↦ ensures_bind (ensures_check ?_)
  split
  · exact below_bind n (below_advance hn) fun _ _ ↦ below_writeLine
  · refine ensures_bind (ensures_read ?_)
    refine below_bind n (below_write hn) fun _ _ hn ↦ ?_
    exact below_bind n (below_expression (Nat.lt_succ_of_lt hn)) fun _ _ ↦ below_writeLine

theorem below_labelStatement (h : state.remaining < n + 1) :
    Below n labelStatement setting state := by
  refine below_bind n (below_expect_of_ne (by simp) h) fun _ _ hn ↦ ?_
  refine below_bind n (below_expect hn) fun token _ hn ↦ ?_
  refine below_bind n (below_checkName hn) fun _ state' hn ↦ ?_
  refine ensures_bind (ensures_get ?_)
  dsimp only
  split
  · exact ensures_bind ensures_failAt
  · exact ensures_bind (ensures_modify (below_writeLine hn))

theorem below_gotoStatement (h : state.remaining < n + 1) :
    Below n gotoStatement setting state := by
  refine below_bind n (below_expect_of_ne (by simp) h) fun _ _ hn ↦ ?_
  refine below_bind n (below_expect hn) fun token _ hn ↦ ?_
  refine below_bind n (below_checkName hn) fun _ state' hn ↦ ?_
  exact ensures_bind (ensures_modify (below_writeLine hn))

theorem below_letStatement (h : state.remaining < n + 1) :
    Below n letStatement setting state := by
  refine below_bind n (below_expect_of_ne (by simp) h) fun _ _ hn ↦ ?_
  refine below_bind n (below_expect hn) fun token _ hn ↦ ?_
  refine below_bind n (below_declareVariable hn) fun _ state' hn ↦ ?_
  refine below_bind n (below_write hn) fun _ _ hn ↦ ?_
  refine below_bind n (below_expect hn) fun _ _ hn ↦ ?_
  exact below_bind n (below_expression (Nat.lt_succ_of_lt hn)) fun _ _ ↦ below_writeLine

theorem below_inputStatement (h : state.remaining < n + 1) :
    Below n inputStatement setting state := by
  refine below_bind n (below_expect_of_ne (by simp) h) fun _ _ hn ↦ ?_
  refine below_bind n (below_expect hn) fun token _ hn ↦ ?_
  refine below_bind n (below_declareVariable hn) fun _ state' hn ↦ ?_
  refine below_bind n (below_writeLine hn) fun _ _ hn ↦ ?_
  refine below_bind n (below_writeLine hn) fun _ _ hn ↦ ?_
  exact below_bind n (below_writeLine hn) fun _ _ ↦ below_writeLine

theorem below_condition {opening closing : Keyword} {text : String} (h : state.remaining < n + 1) :
    Below n (condition opening closing text) setting state := by
  refine below_bind n (below_expect_of_ne (by simp) h) fun _ _ hn ↦ ?_
  refine below_bind n (below_write hn) fun _ _ hn ↦ ?_
  refine below_bind n (below_comparison (Nat.lt_succ_of_lt hn)) fun _ _ hn ↦ ?_
  refine below_bind n (below_expect hn) fun _ _ hn ↦ ?_
  exact below_bind n (below_newline (Nat.lt_succ_of_lt hn)) fun _ _ ↦ below_writeLine

/-- A way to generate blocks leaves no more than it finds, as long as it finds less than a number of
tokens. -/
def Calm (block : Kind → Generate σ Unit) (setting : Setting) (size : Nat) : Prop :=
  ∀ (terminator : Kind) (state : Generator σ) (n : Nat), state.remaining < size →
    state.remaining < n → Below n (block terminator) setting state

theorem below_ifStatement {block : Kind → Generate σ Unit} {size : Nat}
    (hblock : Calm block setting size) (hsize : state.remaining < size + 1)
    (h : state.remaining < n + 1) : Below n (ifStatement block) setting state := by
  refine below_bind (min n size) (below_condition (by omega)) fun _ state' hn ↦ ?_
  exact below_bind n (hblock _ state' n (by omega) (by omega)) fun _ _ ↦ below_writeLine

theorem below_whileStatement {block : Kind → Generate σ Unit} {size : Nat}
    (hblock : Calm block setting size) (hsize : state.remaining < size + 1)
    (h : state.remaining < n + 1) : Below n (whileStatement block) setting state := by
  refine below_bind (min n size) (below_condition (by omega)) fun _ state' hn ↦ ?_
  exact below_bind n (hblock _ state' n (by omega) (by omega)) fun _ _ ↦ below_writeLine

theorem below_statementWith {block : Kind → Generate σ Unit} {size : Nat}
    (hblock : Calm block setting size) (hsize : state.remaining < size + 1)
    (h : state.remaining < n + 1) : Below n (statementWith block) setting state := by
  have hline : ∀ {step : Generate σ Unit}, Below n step setting state →
      Below n (step >>= fun _ ↦ newline) setting state :=
    fun hstep ↦ below_bind n hstep fun _ _ hn ↦ below_newline (Nat.lt_succ_of_lt hn)
  refine ensures_bind (ensures_kind ?_)
  split
  · exact hline (below_printStatement h)
  · exact hline (below_ifStatement hblock hsize h)
  · exact hline (below_whileStatement hblock hsize h)
  · exact hline (below_labelStatement h)
  · exact hline (below_gotoStatement h)
  · exact hline (below_letStatement h)
  · exact hline (below_inputStatement h)
  · exact hline ensures_unexpected

theorem calm_blockOf {statement : Generate σ Unit} {size : Nat}
    (hstatement : ∀ (state : Generator σ) (n : Nat), state.remaining < size →
      state.remaining < n + 1 → Below n statement setting state) :
    Calm (blockOf statement) setting size := by
  intro terminator state n hsize h
  refine below_bind (min n size) (below_enterBlock (by omega)) fun _ state' hn ↦ ?_
  refine below_bind (min n size) (below_loopWhile (fun state m hm hlt _ ↦ ?_) hn) fun _ _ hn ↦ ?_
  · refine ensures_bind (ensures_check ?_)
    split
    · exact ensures_bind ensures_unexpected
    · exact hstatement state m (by omega) hm
  · refine below_bind n (below_expect (by omega)) fun _ _ hn ↦ ?_
    exact ensures_modify hn

/-- Blocks nested in one another never stall while there are fewer tokens left than levels. -/
theorem calm_nestedBlock (nesting : Nat) :
    Calm (nestedBlock (σ := σ) nesting) setting nesting := by
  induction nesting with
  | zero => exact fun _ _ _ hsize _ ↦ absurd hsize (Nat.not_lt_zero _)
  | succ nesting ih =>
    exact calm_blockOf fun state n hsize h ↦ below_statementWith ih hsize h

theorem below_block {terminator : Kind} (h : state.remaining < n) :
    Below n (block terminator) setting state :=
  ensures_bind (ensures_get
    (calm_nestedBlock _ terminator state n state.remaining_lt_bound h))

theorem calm_block : Calm (block (σ := σ)) setting n :=
  fun _ _ _ _ ↦ below_block

theorem below_statement (h : state.remaining < n + 1) : Below n statement setting state :=
  below_statementWith calm_block h h

theorem below_program (h : state.remaining < n) : Below n program setting state := by
  refine below_bind n (below_bind n (below_declare h) fun _ _ hn ↦
    below_bind n (below_declare hn) fun _ _ ↦ below_pure) fun _ _ hn ↦ ?_
  refine below_bind n (below_loopWhile (fun state m hm _ _ ↦ below_statement hm) hn) fun _ _ hn ↦ ?_
  exact below_bind n (below_writeLine hn) fun _ _ hn ↦
    below_bind n (below_writeLine hn) fun _ _ ↦ below_pure

theorem below_sourceText (h : state.remaining < n) : Below n sourceText setting state := by
  refine below_bind n (below_skipNewlines h) fun _ _ hn ↦ ?_
  exact below_bind n (below_program hn) fun _ _ ↦ below_checkLabels

/-- Whatever ends the run of a generator over a supply that keeps to its bound, it is not the bound
on its loops. -/
theorem ne_stalled_of_sourceText {fault : Diagnostic} {state' : Generator σ}
    (h : sourceText setting state = .error fault state') : fault ≠ stalled := by
  have hbelow : Below _ sourceText setting state := below_sourceText (Nat.lt_succ_self _)
  unfold Below Ensures at hbelow
  rw [h] at hbelow
  exact hbelow

end Generate

end TeenyBasic
