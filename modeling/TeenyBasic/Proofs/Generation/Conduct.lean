import TeenyBasic.Proofs.Generation.Passage

/-!
# The conduct of generators

Whatever rule of the grammar a generator follows, and however the rule ends, it does only a few
things: it pulls a token, changes its state in one of the ways of `Change`, or fails for one of the
reasons of `Reason`. So a relation of two generators that survives these survives every rule, and
the two follow it with the same value or fail together.

The generators may work over different supplies and under different settings. How far apart they may
be is up to the relation: `Conduct` says what it must establish, and the lemmas below walk through
the grammar for all of them. The main statement is `keeps_sourceTextWith`.
-/

namespace TeenyBasic

/-- Two scopes that hold the same names in the same order, perhaps with other places. -/
structure Scope.SameNames (scope scope' : Scope) : Prop where
  declaredVariables : scope'.declaredVariables.names = scope.declaredVariables.names
  declaredLabels : scope'.declaredLabels.names = scope.declaredLabels.names
  referencedLabels : scope'.referencedLabels.names = scope.referencedLabels.names

theorem Scope.SameNames.refl (scope : Scope) : scope.SameNames scope := ⟨rfl, rfl, rfl⟩

theorem Table.contains_of_names_eq {table table' : Table} (h : table'.names = table.names)
    (name : String) : table'.contains name = table.contains name := by
  rw [contains, contains, h]

theorem Table.find?_eq_none_iff {table : Table} {name : String} :
    table.find? name = none ↔ name ∉ table.names := by
  rw [find?, List.lookup_eq_none_iff, names, List.mem_map]
  constructor
  · rintro h ⟨entry, hentry, rfl⟩
    simpa using h entry hentry
  · intro h entry hentry
    simpa using fun heq ↦ h ⟨entry, hentry, heq.symm⟩

theorem Scope.SameNames.unresolved_eq {scope scope' : Scope} (h : scope.SameNames scope') :
    scope'.unresolved = scope.unresolved := by
  unfold unresolved
  rw [h.referencedLabels]
  exact List.filter_congr fun name _ ↦ by rw [Table.contains_of_names_eq h.declaredLabels]

/-- The changes by which a generator stays at its token and in its block. -/
inductive Change where
  | write (text : String)
  | opening (line : String)
  | newVariable (token : Token)
  | newLabel (token : Token)
  | newJump (token : Token)

def Generator.alter {σ : Type} (state : Generator σ) : Change → Generator σ
  | .write text => { state with listing := state.listing.write text }
  | .opening line => { state with listing := state.listing.declare line }
  | .newVariable token =>
    { state with
      scope := { state.scope with
        declaredVariables :=
          state.scope.declaredVariables.insertNew token.spelling token.location }
      events := state.events.push (.declaredVariable token.spelling token.location)
      listing := state.listing.declare s!"float {token.spelling};" }
  | .newLabel token =>
    { state with
      scope := { state.scope with
        declaredLabels := state.scope.declaredLabels.insertNew token.spelling token.location }
      events := state.events.push (.declaredLabel token.spelling token.location) }
  | .newJump token =>
    { state with
      scope := { state.scope with
        referencedLabels :=
          state.scope.referencedLabels.insertNew token.spelling token.location } }

section

variable {σ : Type} (state : Generator σ) (change : Change)

@[simp] theorem Generator.alter_supply : (state.alter change).supply = state.supply := by
  cases change <;> rfl

@[simp] theorem Generator.alter_current : (state.alter change).current = state.current := by
  cases change <;> rfl

@[simp] theorem Generator.alter_depth : (state.alter change).depth = state.depth := by
  cases change <;> rfl

end

/-- The texts by which a generator says what it expects: the description of a kind, or one of three
that stand for several kinds. -/
def IsExpectation (text : String) : Prop :=
  (∃ kind : Kind, text = kind.description) ∨
    text ∈ ["a statement", "a number or variable", "a comparison operator"]

/-- The reasons for which a generator fails by itself. -/
inductive Reason where
  | unexpected (expected : String)
  | tooDeep (limit : Int)
  | undeclared
  | reserved (token : Token)
  | duplicate (token : Token)
  | undefined (name : String) (location : Location)

namespace Reason

variable {σ : Type}

def cause (state : Generator σ) : Reason → Cause
  | unexpected expected => .unexpectedToken expected state.current.description
  | tooDeep limit => .nestedTooDeeply limit
  | undeclared => .undeclared state.current.spelling state.scope.declaredVariables.names
  | reserved token => .reservedName token.spelling
  | duplicate token =>
    .duplicateLabel token.spelling (state.scope.declaredLabels.find? token.spelling)
  | undefined name _ => .undefinedLabel name

def location (state : Generator σ) : Reason → Location
  | unexpected _ | tooDeep _ | undeclared => state.current.location
  | reserved token | duplicate token => token.location
  | undefined _ location => location

/-- The fault of a generator that fails for a reason. -/
def diagnostic (setting : Setting) (state : Generator σ) (reason : Reason) : Diagnostic :=
  ⟨reason.cause state, some (reason.location state), setting.line? (reason.location state).line⟩

end Reason

section

variable {σ τ : Type} (known : Token → Token → Prop) (state : Generator σ) (state' : Generator τ)

/-- Changes that two generators make at the same time, seen from the first. Names come from
identifiers that were looked at, about which something may be known. -/
inductive Change.Fits : Change → Change → Prop
  | write (text : String) : Fits (.write text) (.write text)
  | opening {line : String} (hline : line ∈ Generate.prologue) :
    Fits (.opening line) (.opening line)
  | newVariable {token token' : Token} (hknown : known token token')
    (hkind : token.kind = .identifier)
    (hnew : state.scope.declaredVariables.contains token.spelling = false)
    (hopen : token.spelling ∉ Reserved.variableNames) :
    Fits (.newVariable token) (.newVariable token')
  | newLabel {token token' : Token} (hknown : known token token')
    (hkind : token.kind = .identifier)
    (hnew : state.scope.declaredLabels.contains token.spelling = false)
    (hopen : token.spelling ∉ Reserved.labelNames) : Fits (.newLabel token) (.newLabel token')
  | newJump {token token' : Token} (hknown : known token token')
    (hkind : token.kind = .identifier) (hopen : token.spelling ∉ Reserved.labelNames) :
    Fits (.newJump token) (.newJump token')

/-- Reasons for which two generators fail at the same time. -/
inductive Reason.Fits : Reason → Reason → Prop
  | unexpected {expected : String} (hexpected : IsExpectation expected) :
    Fits (.unexpected expected) (.unexpected expected)
  | tooDeep (limit : Int) : Fits (.tooDeep limit) (.tooDeep limit)
  | undeclared (hkind : state.current.kind = .identifier)
    (hnew : state.scope.declaredVariables.contains state.current.spelling = false) :
    Fits .undeclared .undeclared
  | reserved {token token' : Token} (hknown : known token token')
    (hkind : token.kind = .identifier) : Fits (.reserved token) (.reserved token')
  | duplicate {token token' : Token} (hknown : known token token')
    (hkind : token.kind = .identifier) : Fits (.duplicate token) (.duplicate token')
  | undefined {name : String} {location location' : Location}
    (hfind : state.scope.referencedLabels.find? name = some location)
    (hfind' : state'.scope.referencedLabels.find? name = some location') :
    Fits (.undefined name location) (.undefined name location')

end

/-! ## Conduct -/

/-- What a relation of two generators must establish to survive all rules. It says what is known of
two tokens that are looked at at the same time, what holds of the generators as long as they go on,
and what holds of their faults and the states they fail in. From some kinds of tokens they need not
move on together. If the supplies do not grant loops the same number of rounds, a generator that
stalls may be related to any other. -/
structure Conduct (σ τ : Type) [TokenSupply σ] [TokenSupply τ] (setting setting' : Setting) where
  Known : Token → Token → Prop
  Holds : Generator σ → Generator τ → Prop
  Fails : Diagnostic → Generator σ → Diagnostic → Generator τ → Prop
  Moves : Kind → Prop
  mayStall : Prop
  numberFormat_eq : setting'.numberFormat = setting.numberFormat
  kind_eq_of_known {token token' : Token} (h : Known token token') : token'.kind = token.kind
  spelling_eq_of_known {token token' : Token} (h : Known token token') :
    token'.spelling = token.spelling
  kind_eq {state : Generator σ} {state' : Generator τ} (h : Holds state state') :
    state'.current.kind = state.current.kind
  sameNames {state : Generator σ} {state' : Generator τ} (h : Holds state state') :
    state.scope.SameNames state'.scope
  depth_eq {state : Generator σ} {state' : Generator τ} (h : Holds state state') :
    state'.depth = state.depth
  moves {kind : Kind} (h : kind ≠ .newline ∧ kind ≠ .endOfInput) : Moves kind
  known_current {state : Generator σ} {state' : Generator τ} (h : Holds state state')
    (hmoves : Moves state.current.kind) : Known state.current state'.current
  pull {state : Generator σ} {state' : Generator τ} (h : Holds state state')
    (hmoves : Moves state.current.kind) :
    match TokenSupply.pull state.supply, TokenSupply.pull state'.supply with
    | .ok token rest, .ok token' rest' =>
      Holds (state.moveTo rest token) (state'.moveTo rest' token')
    | .error fault rest, .error fault' rest' =>
      Fails fault { state with supply := rest } fault' { state' with supply := rest' }
    | _, _ => False
  change {state : Generator σ} {state' : Generator τ} {change change' : Change}
    (h : Holds state state') (hfits : change.Fits Known state change') :
    Holds (state.alter change) (state'.alter change')
  fault {state : Generator σ} {state' : Generator τ} {reason reason' : Reason}
    (h : Holds state state') (hfits : reason.Fits Known state state' reason') :
    Fails (reason.diagnostic setting state) state (reason'.diagnostic setting' state') state'
  bound_eq {state : Generator σ} {state' : Generator τ} (h : Holds state state') :
    TokenSupply.bound state'.supply = TokenSupply.bound state.supply ∨ mayStall
  stalled {state : Generator σ} {state' : Generator τ} (h : Holds state state') :
    Fails stalled state stalled state' ∨ mayStall

variable {σ τ : Type} [TokenSupply σ] [TokenSupply τ] {setting setting' : Setting}

namespace Conduct

/-- Results of two generators agree: the same value, as many open blocks as before and states of
which the relation holds, or faults of which it says what it has to say. -/
inductive Agrees {α : Type} (conduct : Conduct σ τ setting setting') (depth : Nat) :
    EStateM.Result Diagnostic (Generator σ) α → EStateM.Result Diagnostic (Generator τ) α → Prop
  | ok {value : α} {state : Generator σ} {state' : Generator τ} (h : conduct.Holds state state')
    (hdepth : state.depth = depth) : Agrees conduct depth (.ok value state) (.ok value state')
  | error {fault fault' : Diagnostic} {state : Generator σ} {state' : Generator τ}
    (h : conduct.Fails fault state fault' state') :
    Agrees conduct depth (.error fault state) (.error fault' state')
  | stalled_left {state : Generator σ} {result : EStateM.Result Diagnostic (Generator τ) α}
    (h : conduct.mayStall) : Agrees conduct depth (.error TeenyBasic.stalled state) result
  | stalled_right {result : EStateM.Result Diagnostic (Generator σ) α} {state : Generator τ}
    (h : conduct.mayStall) : Agrees conduct depth result (.error TeenyBasic.stalled state)

theorem Agrees.exists_fails {α : Type} {conduct : Conduct σ τ setting setting'} {depth : Nat}
    {fault : Diagnostic} {state : Generator σ}
    {result : EStateM.Result Diagnostic (Generator τ) α} (hstall : ¬ conduct.mayStall)
    (h : conduct.Agrees depth (.error fault state) result) :
    ∃ fault' state', conduct.Fails fault state fault' state' := by
  cases h with
  | error hfails => exact ⟨_, _, hfails⟩
  | stalled_left hmay => exact absurd hmay hstall
  | stalled_right hmay => exact absurd hmay hstall

variable {conduct : Conduct σ τ setting setting'} {kind : Kind}

theorem moves_of_isMultiplicative (h : kind.isMultiplicative = true) : conduct.Moves kind :=
  conduct.moves (by constructor <;> rintro rfl <;> cases h)

theorem moves_of_isAdditive (h : kind.isAdditive = true) : conduct.Moves kind :=
  conduct.moves (by constructor <;> rintro rfl <;> cases h)

theorem moves_of_isComparison (h : kind.isComparison = true) : conduct.Moves kind :=
  conduct.moves (by constructor <;> rintro rfl <;> cases h)

end Conduct

namespace Generate

variable {α β : Type} {conduct : Conduct σ τ setting setting'} {state : Generator σ}
  {state' : Generator τ} {depth depth' : Nat}

/-- Two steps agree when they are taken by generators of which the relation holds. -/
def Keeps (conduct : Conduct σ τ setting setting') (step : Generate σ α) (step' : Generate τ α)
    (state : Generator σ) (state' : Generator τ) : Prop :=
  conduct.Holds state state' →
    conduct.Agrees state.depth (step setting state) (step' setting' state')

theorem agrees_bind {step : Generate σ α} {step' : Generate τ α} {next : α → Generate σ β}
    {next' : α → Generate τ β}
    (h : conduct.Agrees depth (step setting state) (step' setting' state'))
    (hnext : ∀ value middle middle', conduct.Holds middle middle' → middle.depth = depth →
      conduct.Agrees depth' (next value setting middle) (next' value setting' middle')) :
    conduct.Agrees depth' ((step >>= next) setting state) ((step' >>= next') setting' state') := by
  rw [bind_apply, bind_apply]
  generalize step setting state = result at h
  generalize step' setting' state' = result' at h
  cases h with
  | ok hholds hdepth => exact hnext _ _ _ hholds hdepth
  | error hfails => exact .error hfails
  | stalled_left hstall => exact .stalled_left hstall
  | stalled_right hstall => exact .stalled_right hstall

theorem keeps_bind {step : Generate σ α} {step' : Generate τ α} {next : α → Generate σ β}
    {next' : α → Generate τ β} (h : Keeps conduct step step' state state')
    (hnext : ∀ value state state', Keeps conduct (next value) (next' value) state state') :
    Keeps conduct (step >>= next) (step' >>= next') state state' := by
  intro hholds
  refine agrees_bind (h hholds) fun value middle middle' hmiddle hdepth ↦ ?_
  rw [← hdepth]
  exact hnext value middle middle' hmiddle

theorem keeps_pure (value : α) : Keeps conduct (pure value) (pure value) state state' :=
  fun h ↦ .ok h rfl

theorem keeps_get {next : Generator σ → Generate σ β} {next' : Generator τ → Generate τ β}
    (h : Keeps conduct (next state) (next' state') state state') :
    Keeps conduct (get >>= next) (get >>= next') state state' := h

theorem keeps_read {next : Setting → Generate σ β} {next' : Setting → Generate τ β}
    (h : Keeps conduct (next setting) (next' setting') state state') :
    Keeps conduct (read >>= next) (read >>= next') state state' := h

theorem keeps_kind {next : Kind → Generate σ β} {next' : Kind → Generate τ β}
    (h : Keeps conduct (next state.current.kind) (next' state.current.kind) state state') :
    Keeps conduct (kind >>= next) (kind >>= next') state state' := by
  intro hholds
  change conduct.Agrees _ (next state.current.kind setting state)
    (next' state'.current.kind setting' state')
  rw [conduct.kind_eq hholds]
  exact h hholds

theorem keeps_check {expected : Kind} {next : Bool → Generate σ β} {next' : Bool → Generate τ β}
    (h : Keeps conduct (next (state.current.kind = expected))
      (next' (state.current.kind = expected)) state state') :
    Keeps conduct (check expected >>= next) (check expected >>= next') state state' := by
  intro hholds
  change conduct.Agrees _ (next (state.current.kind = expected) setting state)
    (next' (state'.current.kind = expected) setting' state')
  rw [conduct.kind_eq hholds]
  exact h hholds

theorem keeps_modify {alter : Generator σ → Generator σ} {alter' : Generator τ → Generator τ}
    {change change' : Change} (hfits : change.Fits conduct.Known state change')
    (halter : alter state = state.alter change) (halter' : alter' state' = state'.alter change') :
    Keeps conduct (modify alter) (modify alter') state state' := by
  intro h
  change conduct.Agrees _ (.ok PUnit.unit (alter state)) (.ok PUnit.unit (alter' state'))
  rw [halter, halter']
  exact .ok (conduct.change h hfits) (Generator.alter_depth _ _)

theorem keeps_failAt {reason reason' : Reason}
    (hfits : reason.Fits conduct.Known state state' reason') :
    Keeps conduct (failAt (reason.cause state) (reason.location state) : Generate σ α)
      (failAt (reason'.cause state') (reason'.location state')) state state' :=
  fun h ↦ .error (conduct.fault h hfits)

theorem keeps_failAt_bind {reason reason' : Reason} {next : α → Generate σ β}
    {next' : α → Generate τ β} (hfits : reason.Fits conduct.Known state state' reason') :
    Keeps conduct (failAt (reason.cause state) (reason.location state) >>= next)
      (failAt (reason'.cause state') (reason'.location state') >>= next') state state' :=
  keeps_failAt hfits

theorem keeps_unexpected {expected : String} (hexpected : IsExpectation expected) :
    Keeps conduct (unexpected expected : Generate σ α) (unexpected expected) state state' :=
  keeps_failAt (.unexpected hexpected)

theorem keeps_unexpected_bind {expected : String} (hexpected : IsExpectation expected)
    {next : α → Generate σ β} {next' : α → Generate τ β} :
    Keeps conduct (unexpected expected >>= next) (unexpected expected >>= next') state state' :=
  keeps_unexpected hexpected

/-- Moving on hands over the tokens that were looked at. -/
theorem keeps_advance_bind {next : Token → Generate σ β} {next' : Token → Generate τ β}
    (hmoves : conduct.Moves state.current.kind)
    (hnext : ∀ token token', conduct.Known token token' → token.kind = state.current.kind →
      ∀ state state', Keeps conduct (next token) (next' token') state state') :
    Keeps conduct (advance >>= next) (advance >>= next') state state' := by
  intro h
  have hpull := conduct.pull h hmoves
  rw [bind_apply, bind_apply, advance_apply, advance_apply]
  cases hleft : TokenSupply.pull state.supply with
  | ok token rest =>
    cases hright : TokenSupply.pull state'.supply with
    | ok token' rest' =>
      simp only [hleft, hright] at hpull
      exact hnext _ _ (conduct.known_current h hmoves) rfl _ _ hpull
    | error fault' rest' => simp only [hleft, hright] at hpull
  | error fault rest =>
    cases hright : TokenSupply.pull state'.supply with
    | ok token' rest' => simp only [hleft, hright] at hpull
    | error fault' rest' =>
      simp only [hleft, hright] at hpull
      exact .error hpull

theorem expect_of_ne {expected : Kind} (h : state.current.kind ≠ expected) :
    expect expected setting state = unexpected expected.description setting state := by
  rw [expect, bind_of_ok (check_apply expected), decide_eq_false h]
  rfl

/-- A token that was expected is of the expected kind. -/
theorem keeps_expect_bind {expected : Kind} {next : Token → Generate σ β}
    {next' : Token → Generate τ β} (hmoves : conduct.Moves expected)
    (hnext : ∀ token token', conduct.Known token token' → token.kind = expected →
      ∀ state state', Keeps conduct (next token) (next' token') state state') :
    Keeps conduct (expect expected >>= next) (expect expected >>= next') state state' := by
  intro h
  rw [bind_apply, bind_apply]
  by_cases hkind : state.current.kind = expected
  · subst hkind
    rw [expect_of_kind rfl, expect_of_kind (conduct.kind_eq h), ← bind_apply, ← bind_apply]
    exact keeps_advance_bind hmoves hnext h
  · have hkind' : state'.current.kind ≠ expected := conduct.kind_eq h ▸ hkind
    rw [expect_of_ne hkind, expect_of_ne hkind', ← bind_apply, ← bind_apply]
    exact keeps_unexpected_bind (.inl ⟨expected, rfl⟩) h

theorem keeps_write (text : String) : Keeps conduct (write text) (write text) state state' :=
  keeps_modify (.write text) rfl rfl

theorem keeps_writeLine (text : String) :
    Keeps conduct (writeLine text) (writeLine text) state state' := by
  refine keeps_modify (.write (text ++ "\n")) ?_ ?_ <;>
    simp only [Listing.writeLine_eq_write, Generator.alter]

theorem keeps_forM {step : String → Generate σ PUnit} {step' : String → Generate τ PUnit}
    (lines : List String)
    (hstep : ∀ line ∈ lines, ∀ state state',
      Keeps conduct (step line) (step' line) state state') :
    Keeps conduct (lines.forM step) (lines.forM step') state state' := by
  induction lines generalizing state state' with
  | nil => exact keeps_pure _
  | cons line lines ih =>
    refine keeps_bind (hstep line List.mem_cons_self _ _) fun _ _ _ ↦ ?_
    exact ih fun other hother ↦ hstep other (List.mem_cons_of_mem _ hother)

/-- What stalls agrees with anything if generators may stall, and with what stalls as well. -/
theorem keeps_stalled {step' : Generate τ α} (h : step' = throw stalled ∨ conduct.mayStall) :
    Keeps conduct (throw stalled : Generate σ α) step' state state' := by
  intro hholds
  rcases h with rfl | hstall
  · rcases conduct.stalled hholds with hfails | hstall
    · exact .error hfails
    · exact .stalled_left hstall
  · exact .stalled_left hstall

theorem keeps_repeatWhile {test : Kind → Bool} {step : Generate σ Unit} {step' : Generate τ Unit}
    (hstep : ∀ state state', test state.current.kind = true →
      Keeps conduct step step' state state')
    {rounds rounds' : Nat} (hrounds : rounds' = rounds ∨ conduct.mayStall) :
    Keeps conduct (repeatWhile test step rounds) (repeatWhile test step' rounds') state
      state' := by
  induction rounds generalizing rounds' state state' with
  | zero => exact keeps_stalled (hrounds.imp_left fun h ↦ by rw [h]; rfl)
  | succ rounds ih =>
    cases rounds' with
    | zero => exact fun _ ↦ .stalled_right (hrounds.resolve_left (Nat.succ_ne_zero _).symm)
    | succ rounds' =>
      refine keeps_kind ?_
      split
      · rename_i htest
        exact keeps_bind (hstep state state' htest) fun _ _ _ ↦
          ih (hrounds.imp_left Nat.succ.inj)
      · exact keeps_pure _

theorem keeps_loopWhile {test : Kind → Bool} {step : Generate σ Unit} {step' : Generate τ Unit}
    (hstep : ∀ state state', test state.current.kind = true →
      Keeps conduct step step' state state') :
    Keeps conduct (loopWhile test step) (loopWhile test step') state state' :=
  keeps_get fun h ↦ keeps_repeatWhile hstep (conduct.bound_eq h) h

end Generate

/-- Generators that come out of line ends together. They need not move past them one by one. -/
class Conduct.SkipsLines (conduct : Conduct σ τ setting setting') : Prop where
  skipNewlines {state : Generator σ} {state' : Generator τ} :
    Generate.Keeps conduct Generate.skipNewlines Generate.skipNewlines state state'
  newline {state : Generator σ} {state' : Generator τ} :
    Generate.Keeps conduct Generate.newline Generate.newline state state'

namespace Generate

variable {conduct : Conduct σ τ setting setting'} {state : Generator σ} {state' : Generator τ}

theorem skipsLines_of_moves (h : conduct.Moves .newline) : conduct.SkipsLines := by
  have hskip : ∀ {state state'}, Keeps conduct skipNewlines skipNewlines state state' := by
    refine keeps_loopWhile fun state state' htest ↦ keeps_advance_bind ?_ fun _ _ _ _ _ _ ↦
      keeps_pure _
    rwa [show state.current.kind = .newline by simpa using htest]
  exact ⟨hskip, keeps_expect_bind h fun _ _ _ _ _ _ ↦ hskip⟩

theorem keeps_skipNewlines [conduct.SkipsLines] :
    Keeps conduct skipNewlines skipNewlines state state' :=
  Conduct.SkipsLines.skipNewlines

theorem keeps_newline [conduct.SkipsLines] : Keeps conduct newline newline state state' :=
  Conduct.SkipsLines.newline

theorem keeps_primary : Keeps conduct primary primary state state' := by
  refine keeps_get fun h ↦ ?_
  rw [conduct.kind_eq h]
  cases hkind : state.current.kind with
  | number =>
    have hmoves : conduct.Moves state.current.kind := conduct.moves (by simp [hkind])
    refine keeps_advance_bind hmoves (fun token token' hknown _ _ _ ↦ ?_) h
    rw [conduct.spelling_eq_of_known hknown]
    exact keeps_write _
  | identifier =>
    have hmoves : conduct.Moves state.current.kind := conduct.moves (by simp [hkind])
    have hspelling := conduct.spelling_eq_of_known (conduct.known_current h hmoves)
    have hcontains : state'.scope.declaredVariables.contains state'.current.spelling =
        state.scope.declaredVariables.contains state.current.spelling := by
      rw [hspelling, Table.contains_of_names_eq (conduct.sameNames h).declaredVariables]
    dsimp only
    rw [hcontains]
    split
    · refine keeps_advance_bind hmoves (fun token token' hknown _ _ _ ↦ ?_) h
      rw [conduct.spelling_eq_of_known hknown]
      exact keeps_write _
    · rename_i hnew
      exact keeps_failAt (.undeclared hkind (by simpa using hnew)) h
  | _ => exact keeps_unexpected (.inr (by decide)) h

/-- Moving on and writing the spelling of the token that was looked at. -/
theorem keeps_advance_write {next : Token → Generate σ β} {next' : Token → Generate τ β}
    (hmoves : conduct.Moves state.current.kind)
    (hnext : ∀ token token', token'.kind = token.kind →
      ∀ state state', Keeps conduct (next token) (next' token') state state') :
    Keeps conduct (do let token ← advance; write token.spelling; next token)
      (do let token ← advance; write token.spelling; next' token) state state' := by
  refine keeps_advance_bind hmoves fun token token' hknown _ _ _ ↦ ?_
  rw [conduct.spelling_eq_of_known hknown]
  exact keeps_bind (keeps_write _) fun _ ↦ hnext _ _ (conduct.kind_eq_of_known hknown)

theorem keeps_unary : Keeps conduct unary unary state state' := by
  refine keeps_kind ?_
  split
  · rename_i hsign
    exact keeps_advance_write (conduct.moves_of_isAdditive hsign) fun _ _ _ _ _ ↦ keeps_primary
  · exact keeps_primary

theorem keeps_term : Keeps conduct term term state state' := by
  refine keeps_bind keeps_unary fun _ _ _ ↦ keeps_loopWhile fun _ _ htest ↦ ?_
  exact keeps_advance_write (conduct.moves_of_isMultiplicative htest) fun _ _ _ _ _ ↦ keeps_unary

theorem keeps_expression : Keeps conduct expression expression state state' := by
  refine keeps_bind keeps_term fun _ _ _ ↦ keeps_loopWhile fun _ _ htest ↦ ?_
  refine keeps_advance_write (conduct.moves_of_isAdditive htest) fun _ _ hkind _ _ ↦ ?_
  rw [hkind]
  refine keeps_check ?_
  split
  · exact keeps_bind (keeps_write _) fun _ _ _ ↦ keeps_term
  · exact keeps_term

theorem keeps_comparison : Keeps conduct comparison comparison state state' := by
  refine keeps_bind keeps_expression fun _ _ _ ↦ keeps_kind ?_
  split
  · refine keeps_loopWhile fun _ _ htest ↦ ?_
    exact keeps_advance_write (conduct.moves_of_isComparison htest) fun _ _ _ _ _ ↦
      keeps_expression
  · exact keeps_unexpected_bind (.inr (by decide))

/-- Behind a check of its name, a token is known to have one that is free. -/
theorem keeps_checkName_bind {token token' : Token} {reserved : List String} {next : Generate σ β}
    {next' : Generate τ β} (hknown : conduct.Known token token')
    (hkind : token.kind = .identifier)
    (hnext : token.spelling ∉ reserved → Keeps conduct next next' state state') :
    Keeps conduct (checkName token reserved >>= fun _ ↦ next)
      (checkName token' reserved >>= fun _ ↦ next') state state' := by
  unfold checkName
  by_cases hmem : token.spelling ∈ reserved
  · have hmem' : token'.spelling ∈ reserved := conduct.spelling_eq_of_known hknown ▸ hmem
    rw [if_pos hmem, if_pos hmem']
    exact keeps_failAt_bind (.reserved hknown hkind)
  · have hmem' : token'.spelling ∉ reserved := conduct.spelling_eq_of_known hknown ▸ hmem
    rw [if_neg hmem, if_neg hmem']
    exact hnext hmem

theorem keeps_declareVariable {token token' : Token} (hknown : conduct.Known token token')
    (hkind : token.kind = .identifier) :
    Keeps conduct (declareVariable token) (declareVariable token') state state' := by
  refine keeps_get fun h ↦ ?_
  have hcontains : state'.scope.declaredVariables.contains token'.spelling =
      state.scope.declaredVariables.contains token.spelling := by
    rw [conduct.spelling_eq_of_known hknown,
      Table.contains_of_names_eq (conduct.sameNames h).declaredVariables]
  dsimp only
  rw [hcontains]
  split
  · exact keeps_pure _ h
  · rename_i hnew
    refine keeps_checkName_bind hknown hkind (fun hopen h ↦ ?_) h
    exact .ok (conduct.change h (.newVariable hknown hkind (by simpa using hnew) hopen)) rfl

theorem keeps_checkLabels : Keeps conduct checkLabels checkLabels state state' := by
  refine keeps_get fun h ↦ ?_
  have hnames := conduct.sameNames h
  rw [hnames.unresolved_eq]
  cases state.scope.unresolved with
  | nil => exact keeps_pure _ h
  | cons name _ =>
    have hfind : state'.scope.referencedLabels.find? name = none ↔
        state.scope.referencedLabels.find? name = none := by
      rw [Table.find?_eq_none_iff, Table.find?_eq_none_iff, hnames.referencedLabels]
    dsimp only
    cases hleft : state.scope.referencedLabels.find? name with
    | none =>
      rw [hfind.mpr hleft]
      exact keeps_pure _ h
    | some location =>
      cases hright : state'.scope.referencedLabels.find? name with
      | none => exact absurd (hfind.mp hright) (by simp [hleft])
      | some location' => exact keeps_failAt (.undefined hleft hright) h

theorem keeps_printStatement : Keeps conduct printStatement printStatement state state' := by
  refine keeps_expect_bind (conduct.moves (by simp)) fun _ _ _ _ state _ ↦ keeps_check ?_
  split
  · rename_i hcheck
    have hkind : state.current.kind = .string := by simpa using hcheck
    refine keeps_advance_bind (conduct.moves (by simp [hkind])) fun _ _ hknown _ _ _ ↦ ?_
    rw [conduct.spelling_eq_of_known hknown]
    exact keeps_writeLine _
  · refine keeps_read ?_
    rw [conduct.numberFormat_eq]
    refine keeps_bind (keeps_write _) fun _ _ _ ↦ ?_
    exact keeps_bind keeps_expression fun _ _ _ ↦ keeps_writeLine _

/-- A statement that names something goes on with an identifier behind its keyword. -/
theorem keeps_expect_identifier {keyword : Keyword} {next : Token → Generate σ β}
    {next' : Token → Generate τ β}
    (hnext : ∀ token token', conduct.Known token token' → token.kind = .identifier →
      token'.spelling = token.spelling →
      ∀ state state', Keeps conduct (next token) (next' token') state state') :
    Keeps conduct (do let _ ← expect (.keyword keyword); next (← expect .identifier))
      (do let _ ← expect (.keyword keyword); next' (← expect .identifier)) state state' := by
  refine keeps_expect_bind (conduct.moves (by simp)) fun _ _ _ _ _ _ ↦ ?_
  refine keeps_expect_bind (conduct.moves (by simp)) fun token token' hknown hkind ↦ ?_
  exact hnext token token' hknown hkind (conduct.spelling_eq_of_known hknown)

theorem keeps_labelStatement : Keeps conduct labelStatement labelStatement state state' := by
  refine keeps_expect_identifier fun token token' hknown hkind hspelling state state' ↦ ?_
  refine keeps_checkName_bind hknown hkind fun hopen ↦ keeps_get fun h ↦ ?_
  have hcontains : state'.scope.declaredLabels.contains token'.spelling =
      state.scope.declaredLabels.contains token.spelling := by
    rw [hspelling, Table.contains_of_names_eq (conduct.sameNames h).declaredLabels]
  dsimp only
  rw [hcontains]
  split
  · exact keeps_failAt_bind (.duplicate hknown hkind) h
  · rename_i hnew
    have hfits : (Change.newLabel token).Fits conduct.Known state (.newLabel token') :=
      .newLabel hknown hkind (by simpa using hnew) hopen
    refine keeps_bind (keeps_modify hfits rfl rfl) (fun _ _ _ ↦ ?_) h
    rw [hspelling]
    exact keeps_writeLine _

theorem keeps_gotoStatement : Keeps conduct gotoStatement gotoStatement state state' := by
  refine keeps_expect_identifier fun token token' hknown hkind hspelling state state' ↦ ?_
  refine keeps_checkName_bind hknown hkind fun hopen ↦ ?_
  refine keeps_bind (keeps_modify (.newJump hknown hkind hopen) rfl rfl) fun _ _ _ ↦ ?_
  rw [hspelling]
  exact keeps_writeLine _

theorem keeps_letStatement : Keeps conduct letStatement letStatement state state' := by
  refine keeps_expect_identifier fun token token' hknown hkind hspelling state state' ↦ ?_
  refine keeps_bind (keeps_declareVariable hknown hkind) fun _ _ _ ↦ ?_
  rw [hspelling]
  refine keeps_bind (keeps_write _) fun _ _ _ ↦ ?_
  refine keeps_expect_bind (conduct.moves (by simp)) fun _ _ _ _ _ _ ↦ ?_
  exact keeps_bind keeps_expression fun _ _ _ ↦ keeps_writeLine _

theorem keeps_inputStatement : Keeps conduct inputStatement inputStatement state state' := by
  refine keeps_expect_identifier fun token token' hknown hkind hspelling state state' ↦ ?_
  refine keeps_bind (keeps_declareVariable hknown hkind) fun _ _ _ ↦ ?_
  rw [hspelling]
  refine keeps_bind (keeps_writeLine _) fun _ _ _ ↦ keeps_bind (keeps_writeLine _) fun _ _ _ ↦ ?_
  exact keeps_bind (keeps_writeLine _) fun _ _ _ ↦ keeps_writeLine _

/-! ## Blocks -/

theorem keeps_condition [conduct.SkipsLines] (opening closing : Keyword) (text : String) :
    Keeps conduct (condition opening closing text) (condition opening closing text) state
      state' := by
  refine keeps_expect_bind (conduct.moves (by simp)) fun _ _ _ _ _ _ ↦ ?_
  refine keeps_bind (keeps_write _) fun _ _ _ ↦ keeps_bind keeps_comparison fun _ _ _ ↦ ?_
  refine keeps_expect_bind (conduct.moves (by simp)) fun _ _ _ _ _ _ ↦ ?_
  exact keeps_bind keeps_newline fun _ _ _ ↦ keeps_writeLine _

/-- Two ways to generate blocks agree, whatever token ends them that generators move on from. -/
def KeepsBlocks (conduct : Conduct σ τ setting setting') (block : Kind → Generate σ Unit)
    (block' : Kind → Generate τ Unit) : Prop :=
  ∀ terminator, conduct.Moves terminator →
    ∀ state state', Keeps conduct (block terminator) (block' terminator) state state'

section

variable [conduct.SkipsLines] {block : Kind → Generate σ Unit} {block' : Kind → Generate τ Unit}

theorem keeps_ifStatement (hblock : KeepsBlocks conduct block block') :
    Keeps conduct (ifStatement block) (ifStatement block') state state' := by
  refine keeps_bind (keeps_condition _ _ _) fun _ _ _ ↦ ?_
  exact keeps_bind (hblock _ (conduct.moves (by simp)) _ _) fun _ _ _ ↦ keeps_writeLine _

theorem keeps_whileStatement (hblock : KeepsBlocks conduct block block') :
    Keeps conduct (whileStatement block) (whileStatement block') state state' := by
  refine keeps_bind (keeps_condition _ _ _) fun _ _ _ ↦ ?_
  exact keeps_bind (hblock _ (conduct.moves (by simp)) _ _) fun _ _ _ ↦ keeps_writeLine _

theorem keeps_statementWith (hblock : KeepsBlocks conduct block block') :
    Keeps conduct (statementWith block) (statementWith block') state state' := by
  have hline : ∀ {step : Generate σ Unit} {step' : Generate τ Unit},
      Keeps conduct step step' state state' →
      Keeps conduct (step >>= fun _ ↦ newline) (step' >>= fun _ ↦ newline) state state' :=
    fun hstep ↦ keeps_bind hstep fun _ _ _ ↦ keeps_newline
  refine keeps_kind ?_
  split
  · exact hline keeps_printStatement
  · exact hline (keeps_ifStatement hblock)
  · exact hline (keeps_whileStatement hblock)
  · exact hline keeps_labelStatement
  · exact hline keeps_gotoStatement
  · exact hline keeps_letStatement
  · exact hline keeps_inputStatement
  · exact hline (keeps_unexpected (.inr (by decide)))

end

/-- What stands between the entry of a block and its end. -/
def enclosed (statement : Generate σ Unit) (terminator : Kind) : Generate σ Unit := do
  loopWhile (· ≠ terminator) do
    if ← check .endOfInput then unexpected terminator.description
    statement
  let _ ← expect terminator

theorem keeps_enclosed {statement : Generate σ Unit} {statement' : Generate τ Unit}
    {terminator : Kind} (hmoves : conduct.Moves terminator)
    (hstatement : ∀ state state', Keeps conduct statement statement' state state') :
    Keeps conduct (enclosed statement terminator) (enclosed statement' terminator) state
      state' := by
  refine keeps_bind (keeps_loopWhile fun _ _ _ ↦ keeps_check ?_) fun _ _ _ ↦
    keeps_expect_bind hmoves fun _ _ _ _ _ _ ↦ keeps_pure _
  split
  · exact keeps_unexpected_bind (.inl ⟨terminator, rfl⟩)
  · exact hstatement _ _

theorem blockOf_eq (statement : Generate σ Unit) (terminator : Kind) :
    blockOf statement terminator = (do
      enterBlock
      enclosed statement terminator
      modify fun state ↦ { state with depth := state.depth - 1 }) := by
  simp only [blockOf, enclosed, bind_assoc, pure_bind]

omit [TokenSupply σ] in
/-- A block is counted before it is checked that there are not too many. -/
theorem enterBlock_apply : enterBlock setting state =
    if setting.maxDepth < ((state.depth + 1 : Nat) : Int) then
      .error ((Reason.tooDeep setting.maxDepth).diagnostic setting state)
        { state with depth := state.depth + 1 }
    else .ok () { state with depth := state.depth + 1 } := by
  have henter : enterBlock setting state =
      (if setting.maxDepth < ((state.depth + 1 : Nat) : Int) then
        failAt (.nestedTooDeeply setting.maxDepth) state.current.location
      else pure () : Generate σ Unit) setting { state with depth := state.depth + 1 } := rfl
  rw [henter]
  split <;> rfl

/-- Entering a block, seen from a relation that holds once the block is counted. -/
theorem agrees_enterBlock (hlimit : setting'.maxDepth = setting.maxDepth)
    (h : conduct.Holds { state with depth := state.depth + 1 }
      { state' with depth := state'.depth + 1 }) :
    conduct.Agrees (state.depth + 1) (enterBlock setting state) (enterBlock setting' state') := by
  have hdepth : state'.depth + 1 = state.depth + 1 := conduct.depth_eq h
  rw [enterBlock_apply, enterBlock_apply, hlimit, hdepth]
  rw [hdepth] at h
  split
  · exact .error (conduct.fault h (.tooDeep _))
  · exact .ok h rfl

section

variable (hlimit : setting'.maxDepth = setting.maxDepth)
  (hdepth : ∀ {state state'} (depth : Nat), conduct.Holds state state' →
    conduct.Holds { state with depth } { state' with depth })

include hlimit hdepth

/-- A relation that does not care how many blocks are open is kept by blocks of statements that
keep it. -/
theorem keepsBlocks_blockOf {statement : Generate σ Unit} {statement' : Generate τ Unit}
    (hstatement : ∀ state state', Keeps conduct statement statement' state state') :
    KeepsBlocks conduct (blockOf statement) (blockOf statement') := by
  intro terminator hmoves state state' h
  have hcounted : conduct.Holds { state with depth := state.depth + 1 }
      { state' with depth := state'.depth + 1 } := by
    rw [conduct.depth_eq h]
    exact hdepth _ h
  rw [blockOf_eq, blockOf_eq]
  refine agrees_bind (agrees_enterBlock hlimit hcounted) fun _ inside inside' hinside hcount ↦ ?_
  refine agrees_bind (keeps_enclosed hmoves hstatement hinside) fun _ last last' hlast hsame ↦ ?_
  have hback : conduct.Holds { last with depth := last.depth - 1 }
      { last' with depth := last'.depth - 1 } := by
    rw [conduct.depth_eq hlast]
    exact hdepth _ hlast
  exact .ok hback (by change last.depth - 1 = _; omega)

variable [conduct.SkipsLines]

theorem keepsBlocks_nestedBlock {nesting nesting' : Nat}
    (hnesting : nesting' = nesting ∨ conduct.mayStall) :
    KeepsBlocks conduct (nestedBlock nesting) (nestedBlock nesting') := by
  induction nesting generalizing nesting' with
  | zero => exact fun _ _ _ _ ↦ keeps_stalled (hnesting.imp_left fun h ↦ by rw [h]; rfl)
  | succ nesting ih =>
    cases nesting' with
    | zero =>
      exact fun _ _ _ _ _ ↦ .stalled_right (hnesting.resolve_left (Nat.succ_ne_zero _).symm)
    | succ nesting' =>
      exact keepsBlocks_blockOf hlimit hdepth fun _ _ ↦
        keeps_statementWith (ih (hnesting.imp_left Nat.succ.inj))

theorem keepsBlocks_block : KeepsBlocks conduct block block := by
  intro terminator hmoves state state'
  exact keeps_get fun h ↦
    keepsBlocks_nestedBlock hlimit hdepth (conduct.bound_eq h) terminator hmoves _ _ h

end

/-- A program whose blocks are generated in a given way. -/
def programWith (block : Kind → Generate σ Unit) : Generate σ Unit := do
  prologue.forM declare
  loopWhile (· ≠ .endOfInput) (statementWith block)
  epilogue.forM writeLine

/-- A whole source text whose blocks are generated in a given way. -/
def sourceTextWith (block : Kind → Generate σ Unit) : Generate σ Unit := do
  skipNewlines
  programWith block
  checkLabels

theorem sourceText_eq : sourceText = sourceTextWith (block (σ := σ)) := rfl

section

variable [conduct.SkipsLines] {block : Kind → Generate σ Unit} {block' : Kind → Generate τ Unit}

theorem keeps_programWith (hblock : KeepsBlocks conduct block block') :
    Keeps conduct (programWith block) (programWith block') state state' := by
  refine keeps_bind (keeps_forM _ fun line hline state state' ↦ ?_) fun _ _ _ ↦ ?_
  · exact keeps_modify (.opening hline) rfl rfl
  refine keeps_bind (keeps_loopWhile fun _ _ _ ↦ keeps_statementWith hblock) fun _ _ _ ↦ ?_
  exact keeps_forM _ fun _ _ _ _ ↦ keeps_writeLine _

/-- Whole source texts agree if their blocks do. -/
theorem keeps_sourceTextWith (hblock : KeepsBlocks conduct block block') :
    Keeps conduct (sourceTextWith block) (sourceTextWith block') state state' := by
  refine keeps_bind keeps_skipNewlines fun _ _ _ ↦ ?_
  exact keeps_bind (keeps_programWith hblock) fun _ _ _ ↦ keeps_checkLabels

end

end Generate

end TeenyBasic
