import TeenyBasic.Proofs.Generation.Simulation
import TeenyBasic.Proofs.Lexing.Layout
import TeenyBasic.Proofs.Source.Tree

/-!
# Generators under any use

The rules of the grammar can be called one by one, in any order, and a generator can be used on
after a call has failed: it stays in the state in which the call failed. However it is used, its
tables and the two parts of its listing only grow, names are entered once and only if they are free,
each new variable has its declaration, and the number of open blocks is the number of blocks that
were entered less the number of those that came to their end.

Nothing in a state says how many blocks were entered. So they are counted by a second generator,
which does the same over a supply that carries the counts along.

The main statement is `grows_afterAll`.
-/

namespace TeenyBasic

open Source

/-- What a generator leaves behind: the names in scope and what has been written. -/
structure Record where
  scope : Scope
  listing : Listing

def Generator.record {σ : Type} (state : Generator σ) : Record :=
  ⟨state.scope, state.listing⟩

/-- What is added to a record: entries of the three tables, lines of the header and text of the
body. -/
structure Additions where
  declaredVariables : List (String × Location)
  declaredLabels : List (String × Location)
  referencedLabels : List (String × Location)
  lines : List String
  text : String

namespace Additions

def none : Additions := ⟨[], [], [], [], ""⟩

/-- Additions and later ones. -/
def append (additions later : Additions) : Additions where
  declaredVariables := additions.declaredVariables ++ later.declaredVariables
  declaredLabels := additions.declaredLabels ++ later.declaredLabels
  referencedLabels := additions.referencedLabels ++ later.referencedLabels
  lines := additions.lines ++ later.lines
  text := additions.text ++ later.text

/-- Additions that a generator may make: free names, and lines of the header that open the program
or declare the new variables in their order. -/
structure Proper (additions : Additions) : Prop where
  variables_free : ∀ entry ∈ additions.declaredVariables, entry.1 ∉ Reserved.variableNames
  labels_free : ∀ entry ∈ additions.declaredLabels, entry.1 ∉ Reserved.labelNames
  jumps_free : ∀ entry ∈ additions.referencedLabels, entry.1 ∉ Reserved.labelNames
  lineFeed_not_mem : ∀ line ∈ additions.lines, '\n' ∉ line.toList
  declarations_eq : additions.lines.filter (· ∉ Generate.prologue) =
    additions.declaredVariables.map fun entry ↦ declarationLine entry.1

theorem proper_none : none.Proper := by
  constructor <;> simp [none]

theorem Proper.append {additions later : Additions} (h : additions.Proper) (hlater : later.Proper) :
    (additions.append later).Proper where
  variables_free := List.forall_mem_append.mpr ⟨h.variables_free, hlater.variables_free⟩
  labels_free := List.forall_mem_append.mpr ⟨h.labels_free, hlater.labels_free⟩
  jumps_free := List.forall_mem_append.mpr ⟨h.jumps_free, hlater.jumps_free⟩
  lineFeed_not_mem := List.forall_mem_append.mpr ⟨h.lineFeed_not_mem, hlater.lineFeed_not_mem⟩
  declarations_eq := by
    simp only [Additions.append, List.filter_append, List.map_append]
    rw [h.declarations_eq, hlater.declarations_eq]

end Additions

/-- A record that comes from another by additions at the ends of its parts. -/
structure Record.Gains (before : Record) (additions : Additions) (after : Record) : Prop where
  declaredVariables_eq : after.scope.declaredVariables.entries =
    before.scope.declaredVariables.entries ++ additions.declaredVariables
  declaredLabels_eq : after.scope.declaredLabels.entries =
    before.scope.declaredLabels.entries ++ additions.declaredLabels
  referencedLabels_eq : after.scope.referencedLabels.entries =
    before.scope.referencedLabels.entries ++ additions.referencedLabels
  header_eq : after.listing.header = before.listing.header ++ closedLines additions.lines
  body_eq : after.listing.body = before.listing.body ++ additions.text

theorem Record.gains_none (record : Record) : record.Gains .none record := by
  constructor <;> simp [Additions.none]

theorem Record.Gains.append {before middle after : Record} {additions later : Additions}
    (h : before.Gains additions middle) (hlater : middle.Gains later after) :
    before.Gains (additions.append later) after where
  declaredVariables_eq := by
    rw [hlater.declaredVariables_eq, h.declaredVariables_eq, List.append_assoc]
    rfl
  declaredLabels_eq := by
    rw [hlater.declaredLabels_eq, h.declaredLabels_eq, List.append_assoc]
    rfl
  referencedLabels_eq := by
    rw [hlater.referencedLabels_eq, h.referencedLabels_eq, List.append_assoc]
    rfl
  header_eq := by
    rw [hlater.header_eq, h.header_eq, String.append_assoc, ← closedLines_append]
    rfl
  body_eq := by
    rw [hlater.body_eq, h.body_eq, String.append_assoc]
    rfl

/-- A record that comes from another by proper additions. -/
def Record.Grows (before after : Record) : Prop :=
  ∃ additions : Additions, additions.Proper ∧ before.Gains additions after

theorem Record.grows_refl (record : Record) : record.Grows record :=
  ⟨.none, Additions.proper_none, record.gains_none⟩

theorem Record.Grows.trans {before middle after : Record} (h : before.Grows middle)
    (hlater : middle.Grows after) : before.Grows after := by
  obtain ⟨additions, hproper, hgains⟩ := h
  obtain ⟨later, hproper', hgains'⟩ := hlater
  exact ⟨additions.append later, hproper.append hproper', hgains.append hgains'⟩

/-- A scope that holds no name twice in the same table. -/
structure Scope.IsDistinct (scope : Scope) : Prop where
  declaredVariables : scope.declaredVariables.names.Nodup
  declaredLabels : scope.declaredLabels.names.Nodup
  referencedLabels : scope.referencedLabels.names.Nodup

section

variable {σ : Type} {state : Generator σ} {change change' : Change}

theorem Change.Fits.isDistinct {known : Token → Token → Prop}
    (h : change.Fits known state change') (hdistinct : state.scope.IsDistinct) :
    (state.alter change).scope.IsDistinct := by
  obtain ⟨hvariables, hlabels, hjumps⟩ := hdistinct
  cases h with
  | write text => exact ⟨hvariables, hlabels, hjumps⟩
  | opening hline => exact ⟨hvariables, hlabels, hjumps⟩
  | newVariable hknown hkind hnew hopen =>
    exact ⟨Table.nodup_names_insertNew _ _ _ hvariables, hlabels, hjumps⟩
  | newLabel hknown hkind hnew hopen =>
    exact ⟨hvariables, Table.nodup_names_insertNew _ _ _ hlabels, hjumps⟩
  | newJump hknown hkind hopen =>
    exact ⟨hvariables, hlabels, Table.nodup_names_insertNew _ _ _ hjumps⟩

theorem Table.entries_insertNew {table : Table} {name : String} (location : Location)
    (h : table.contains name = false) :
    (table.insertNew name location).entries = table.entries ++ [(name, location)] := by
  simp [insertNew, h]

theorem lineFeed_not_mem_prologue : ∀ line ∈ Generate.prologue, '\n' ∉ line.toList := by
  decide +kernel

theorem declarationLine_not_mem_prologue (name : String) :
    declarationLine name ∉ Generate.prologue := by
  have hfirst : ∀ line ∈ Generate.prologue, line.toList.head? ≠ some 'f' := by decide +kernel
  intro hmem
  refine hfirst _ hmem ?_
  simp [declarationLine, toString]

theorem Change.Fits.grows (h : change.Fits (fun token _ ↦ token.WellSpelled) state change') :
    state.record.Grows (state.alter change).record := by
  cases h with
  | write text =>
    refine ⟨{ Additions.none with text }, ?_, ?_⟩
    · constructor <;> simp [Additions.none]
    · constructor <;> simp [Additions.none, Generator.record, Generator.alter, Listing.write]
  | @opening line hline =>
    refine ⟨{ Additions.none with lines := [line] }, ?_, ?_⟩
    · have hfeed := lineFeed_not_mem_prologue line hline
      constructor <;> simp [Additions.none, hline, hfeed]
    · constructor <;> simp [Additions.none, Generator.record, Generator.alter, Listing.declare,
        String.append_assoc]
  | @newVariable token _ hknown hkind hnew hopen =>
    refine ⟨{ Additions.none with
      declaredVariables := [(token.spelling, token.location)]
      lines := [declarationLine token.spelling] }, ?_, ?_⟩
    · have hword := lineFeed_not_mem_of_isWord (hknown.identifier hkind)
      have hfeed : '\n' ∉ (declarationLine token.spelling).toList := by
        simpa [declarationLine, toString] using hword
      have hother := declarationLine_not_mem_prologue token.spelling
      constructor <;> simp [Additions.none, hopen, hfeed, hother]
    · have hentries := Table.entries_insertNew token.location hnew
      constructor <;> simp [Additions.none, Generator.record, Generator.alter, hentries,
        Listing.declare, declarationLine, String.append_assoc]
  | @newLabel token _ hknown hkind hnew hopen =>
    refine ⟨{ Additions.none with
      declaredLabels := [(token.spelling, token.location)] }, ?_, ?_⟩
    · constructor <;> simp [Additions.none, hopen]
    · have hentries := Table.entries_insertNew token.location hnew
      constructor <;> simp [Additions.none, Generator.record, Generator.alter, hentries]
  | @newJump token _ hknown hkind hopen =>
    cases hnew : state.scope.referencedLabels.contains token.spelling with
    | true =>
      have hsame : (state.alter (.newJump token)).record = state.record := by
        simp [Generator.record, Generator.alter, Table.insertNew, hnew]
      rw [hsame]
      exact state.record.grows_refl
    | false =>
      refine ⟨{ Additions.none with
        referencedLabels := [(token.spelling, token.location)] }, ?_, ?_⟩
      · constructor <;> simp [Additions.none, hopen]
      · have hentries := Table.entries_insertNew token.location hnew
        constructor <;> simp [Additions.none, Generator.record, Generator.alter, hentries]

end

/-! ## Counting blocks -/

/-- A supply with the number of blocks that were entered and of those that came to their end. -/
structure Counted (σ : Type) where
  supply : σ
  entered : Nat
  ended : Nat

section

variable {σ : Type} [TokenSupply σ]

instance : TokenSupply (Counted σ) where
  pull counted :=
    match TokenSupply.pull counted.supply with
    | .ok token rest => .ok token { counted with supply := rest }
    | .error fault rest => .error fault { counted with supply := rest }
  bound counted := TokenSupply.bound counted.supply

theorem pull_counted (counted : Counted σ) : TokenSupply.pull counted =
    match TokenSupply.pull counted.supply with
    | .ok token rest => .ok token { counted with supply := rest }
    | .error fault rest => .error fault { counted with supply := rest } := rfl

def Counted.enter (counted : Counted σ) : Counted σ :=
  { counted with entered := counted.entered + 1 }

def Counted.leave (counted : Counted σ) : Counted σ :=
  { counted with ended := counted.ended + 1 }

def Generator.counting (state : Generator σ) : Generator (Counted σ) :=
  state.withSupply ⟨state.supply, 0, 0⟩

namespace Generate

/-- Counts a block when it is entered and when it comes to its end, which it does not if it
fails. -/
def counted (block : Generate (Counted σ) Unit) : Generate (Counted σ) Unit := do
  modify fun state ↦ { state with supply := state.supply.enter }
  block
  modify fun state ↦ { state with supply := state.supply.leave }

/-- A block that is counted, as all blocks inside it are, which may be nested to the given depth
less one. -/
def countedNestedBlock : Nat → Kind → Generate (Counted σ) Unit
  | 0, _ => throw stalled
  | nesting + 1, terminator =>
    counted (blockOf (statementWith (countedNestedBlock nesting)) terminator)

/-- A block that is counted, as all blocks inside it are. -/
def countedBlock (terminator : Kind) : Generate (Counted σ) Unit := do
  countedNestedBlock (TokenSupply.bound (← get).supply) terminator

end Generate

end

/-- What holds of a generator that counts blocks, whatever it has done since it had a record. -/
structure Generator.IsTallied (before : Record) (state : Generator (Counted Cursor))
    (supply : Cursor) : Prop where
  supply_eq : supply = state.supply.supply
  wellSpelled : state.current.WellSpelled
  depth_eq : state.depth + state.supply.ended = state.supply.entered
  isDistinct : state.scope.IsDistinct
  grows : before.Grows state.record

/-- Counting blocks is no hindrance to a generator over a cursor, and how a rule ends does not
matter. -/
def Lockstep.tallied (setting : Setting) (before : Record) :
    Lockstep (Counted Cursor) Cursor setting setting where
  Known := Token.WellSpelled
  Holds := Generator.IsTallied before
  Fails _ state _ supply := state.IsTallied before supply
  Moves _ := True
  mayStall := False
  sameText := .refl setting
  moves _ := trivial
  known_current h := h.wellSpelled
  pull {state supply} h _ := by
    obtain ⟨rfl, hspelled, hdepth, hdistinct, hgrows⟩ := h
    rw [pull_counted]
    cases hpull : TokenSupply.pull state.supply.supply with
    | ok token rest => exact ⟨rfl, rfl, Cursor.wellSpelled_of_next hpull, hdepth, hdistinct, hgrows⟩
    | error fault rest => exact ⟨rfl, hspelled, hdepth, hdistinct, hgrows⟩
  change h hfits :=
    { supply_eq := by simpa using h.supply_eq
      wellSpelled := by simpa using h.wellSpelled
      depth_eq := by simpa using h.depth_eq
      isDistinct := hfits.isDistinct h.isDistinct
      grows := h.grows.trans hfits.grows }
  fault h _ := h
  bound_eq h := .inl (congrArg TokenSupply.bound h.supply_eq)
  stalled h := .inl h

namespace Generate

section

variable {setting : Setting} {before : Record}

/-- The counts are right inside a block that has been entered and behind its end. -/
theorem keepsBlocks_counted {statement : Generate (Counted Cursor) Unit}
    {statement' : Generate Cursor Unit}
    (hstatement : ∀ state state',
      Keeps (Lockstep.tallied setting before).conduct statement statement' state state') :
    KeepsBlocks (Lockstep.tallied setting before).conduct
      (fun terminator ↦ counted (blockOf statement terminator)) (blockOf statement') := by
  rintro terminator hmoves state _ ⟨supply, rfl, hsupply, hspelled, hdepth, hdistinct, hgrows⟩
  let entered : Generator (Counted Cursor) := { state with supply := state.supply.enter }
  have hentered : (Lockstep.tallied setting before).conduct.Holds
      { entered with depth := entered.depth + 1 }
      { state.withSupply supply with depth := state.depth + 1 } := by
    refine ⟨supply, rfl, hsupply, hspelled, ?_, hdistinct, hgrows⟩
    change state.depth + 1 + state.supply.ended = state.supply.entered + 1
    omega
  have hrun : counted (blockOf statement terminator) setting state =
      (blockOf statement terminator >>= fun _ ↦
        modify fun state ↦ { state with supply := state.supply.leave }) setting entered := rfl
  change (Lockstep.tallied setting before).conduct.Agrees _
    (counted (blockOf statement terminator) setting state) _
  rw [hrun, blockOf_eq, blockOf_eq]
  simp only [bind_assoc]
  refine agrees_bind (agrees_enterBlock rfl hentered) fun _ inside _ hinside hcount ↦ ?_
  refine agrees_bind (keeps_enclosed hmoves hstatement hinside) fun _ last _ hlast hsame ↦ ?_
  have hback : last.depth = state.depth + 1 := hsame.trans hcount
  obtain ⟨supply, rfl, hsupply, hspelled, hdepth, hdistinct, hgrows⟩ := hlast
  refine .ok ⟨supply, rfl, hsupply, hspelled, ?_, hdistinct, hgrows⟩ ?_
  · change last.depth - 1 + (last.supply.ended + 1) = last.supply.entered
    omega
  · change last.depth - 1 = state.depth
    omega

theorem keepsBlocks_countedNestedBlock (nesting : Nat) :
    KeepsBlocks (Lockstep.tallied setting before).conduct (countedNestedBlock nesting)
      (nestedBlock nesting) := by
  induction nesting with
  | zero => exact fun _ _ _ _ h ↦ .error h
  | succ nesting ih => exact keepsBlocks_counted fun _ _ ↦ keeps_statementWith ih

theorem keepsBlocks_countedBlock :
    KeepsBlocks (Lockstep.tallied setting before).conduct countedBlock block := by
  intro terminator hmoves state state'
  refine keeps_get fun h ↦ ?_
  rw [((Lockstep.tallied setting before).conduct.bound_eq h).resolve_right id]
  exact keepsBlocks_countedNestedBlock _ terminator hmoves state state' h

end

end Generate

/-! ## Calls -/

/-- What may be asked of a generator: to move past a token, perhaps of a kind, to follow one of the
rules, or to check the targets of jumps. -/
inductive Call where
  | advance
  | expect (kind : Kind)
  | sourceText
  | program
  | statement
  | newline
  | printStatement
  | ifStatement
  | whileStatement
  | block (terminator : Kind)
  | labelStatement
  | gotoStatement
  | letStatement
  | inputStatement
  | comparison
  | expression
  | term
  | unary
  | primary
  | checkLabels
  deriving DecidableEq, Repr

section

variable {σ τ : Type} [TokenSupply σ] [TokenSupply τ]

/-- Answers a call, given a way to generate blocks. Given the generator's own, which is
`Generate.block`, the answers are the rules themselves. -/
def Call.run (block : Kind → Generate σ Unit) : Call → Generate σ Unit
  | .advance => do let _ ← Generate.advance
  | .expect kind => do let _ ← Generate.expect kind
  | .sourceText => Generate.sourceTextWith block
  | .program => Generate.programWith block
  | .statement => Generate.statementWith block
  | .newline => Generate.newline
  | .printStatement => Generate.printStatement
  | .ifStatement => Generate.ifStatement block
  | .whileStatement => Generate.whileStatement block
  | .block terminator => block terminator
  | .labelStatement => Generate.labelStatement
  | .gotoStatement => Generate.gotoStatement
  | .letStatement => Generate.letStatement
  | .inputStatement => Generate.inputStatement
  | .comparison => Generate.comparison
  | .expression => Generate.expression
  | .term => Generate.term
  | .unary => Generate.unary
  | .primary => Generate.primary
  | .checkLabels => Generate.checkLabels

theorem Call.below_run [LawfulTokenSupply σ] {setting : Setting} {state : Generator σ} {n : Nat}
    (h : state.remaining < n) (call : Call) :
    Generate.Below n (call.run Generate.block) setting state := by
  have hnext : state.remaining < n + 1 := Nat.lt_succ_of_lt h
  cases call with
  | advance => exact Generate.below_bind n (Generate.below_advance h) fun _ _ ↦ Generate.below_pure
  | expect kind =>
    exact Generate.below_bind n (Generate.below_expect h) fun _ _ ↦ Generate.below_pure
  | sourceText => exact Generate.below_sourceText h
  | program => exact Generate.below_program h
  | statement => exact Generate.below_statement hnext
  | newline => exact Generate.below_newline hnext
  | printStatement => exact Generate.below_printStatement hnext
  | ifStatement => exact Generate.below_ifStatement Generate.calm_block hnext hnext
  | whileStatement => exact Generate.below_whileStatement Generate.calm_block hnext hnext
  | block terminator => exact Generate.below_block h
  | labelStatement => exact Generate.below_labelStatement hnext
  | gotoStatement => exact Generate.below_gotoStatement hnext
  | letStatement => exact Generate.below_letStatement hnext
  | inputStatement => exact Generate.below_inputStatement hnext
  | comparison => exact Generate.below_comparison hnext
  | expression => exact Generate.below_expression hnext
  | term => exact Generate.below_term hnext
  | unary => exact Generate.below_unary hnext
  | primary => exact Generate.below_primary hnext
  | checkLabels => exact Generate.below_checkLabels h

/-- No call, in whatever state it is made, is cut short by the bound on loops. -/
theorem Call.ne_stalled_of_run [LawfulTokenSupply σ] {setting : Setting}
    {state state' : Generator σ} {call : Call} {fault : Diagnostic}
    (h : call.run Generate.block setting state = .error fault state') : fault ≠ stalled := by
  have hbelow : Generate.Below _ (call.run Generate.block) setting state :=
    call.below_run (Nat.lt_succ_self _)
  unfold Generate.Below Generate.Ensures at hbelow
  rw [h] at hbelow
  exact hbelow

/-- The state that a call leaves, whether it fails or not. -/
def Generator.after (setting : Setting) (block : Kind → Generate σ Unit) (state : Generator σ)
    (call : Call) : Generator σ :=
  match call.run block setting state with
  | .ok _ state' => state'
  | .error _ state' => state'

/-- The state that calls in a row leave. -/
def Generator.afterAll (setting : Setting) (block : Kind → Generate σ Unit) (state : Generator σ)
    (calls : List Call) : Generator σ :=
  calls.foldl (Generator.after setting block) state

theorem Call.keeps_run {setting setting' : Setting} {conduct : Conduct σ τ setting setting'}
    [conduct.SkipsLines] (hmoves : ∀ kind, conduct.Moves kind)
    {block : Kind → Generate σ Unit} {block' : Kind → Generate τ Unit}
    (hblock : Generate.KeepsBlocks conduct block block') {state : Generator σ}
    {state' : Generator τ} (call : Call) :
    Generate.Keeps conduct (call.run block) (call.run block') state state' := by
  cases call with
  | advance =>
    exact Generate.keeps_advance_bind (hmoves _) fun _ _ _ _ _ _ ↦ Generate.keeps_pure _
  | expect kind =>
    exact Generate.keeps_expect_bind (hmoves _) fun _ _ _ _ _ _ ↦ Generate.keeps_pure _
  | sourceText => exact Generate.keeps_sourceTextWith hblock
  | program => exact Generate.keeps_programWith hblock
  | statement => exact Generate.keeps_statementWith hblock
  | newline => exact Generate.keeps_newline
  | printStatement => exact Generate.keeps_printStatement
  | ifStatement => exact Generate.keeps_ifStatement hblock
  | whileStatement => exact Generate.keeps_whileStatement hblock
  | block terminator => exact hblock terminator (hmoves _) _ _
  | labelStatement => exact Generate.keeps_labelStatement
  | gotoStatement => exact Generate.keeps_gotoStatement
  | letStatement => exact Generate.keeps_letStatement
  | inputStatement => exact Generate.keeps_inputStatement
  | comparison => exact Generate.keeps_comparison
  | expression => exact Generate.keeps_expression
  | term => exact Generate.keeps_term
  | unary => exact Generate.keeps_unary
  | primary => exact Generate.keeps_primary
  | checkLabels => exact Generate.keeps_checkLabels

end

section

variable {before : Record} {state : Generator (Counted Cursor)} {supply : Cursor}

/-- A call leaves a generator over a cursor in the state of the one that counts. -/
theorem exists_tallied_after (setting : Setting) (h : state.IsTallied before supply)
    (call : Call) :
    ∃ supply', (state.after setting Generate.countedBlock call).IsTallied before supply' ∧
      (state.withSupply supply).after setting Generate.block call =
        (state.after setting Generate.countedBlock call).withSupply supply' := by
  have hstart : (Lockstep.tallied setting before).conduct.Holds state (state.withSupply supply) :=
    ⟨supply, rfl, h⟩
  have hagrees := call.keeps_run (fun _ ↦ trivial) Generate.keepsBlocks_countedBlock hstart
  unfold Generator.after
  generalize call.run Generate.countedBlock setting state = result at hagrees
  generalize call.run Generate.block setting (state.withSupply supply) = result' at hagrees
  cases hagrees with
  | ok hholds _ =>
    obtain ⟨last, rfl, htallied⟩ := hholds
    exact ⟨last, htallied, rfl⟩
  | error hfails =>
    obtain ⟨last, rfl, htallied⟩ := hfails
    exact ⟨last, htallied, rfl⟩
  | stalled_left hstall => exact hstall.elim
  | stalled_right hstall => exact hstall.elim

theorem exists_tallied_afterAll (setting : Setting) (h : state.IsTallied before supply)
    (calls : List Call) :
    ∃ supply', (state.afterAll setting Generate.countedBlock calls).IsTallied before supply' ∧
      (state.withSupply supply).afterAll setting Generate.block calls =
        (state.afterAll setting Generate.countedBlock calls).withSupply supply' := by
  induction calls generalizing state supply with
  | nil => exact ⟨supply, h, rfl⟩
  | cons call calls ih =>
    obtain ⟨middle, hmiddle, hsame⟩ := exists_tallied_after setting h call
    obtain ⟨last, hlast, hsame'⟩ := ih hmiddle
    refine ⟨last, hlast, ?_⟩
    rw [← hsame] at hsame'
    exact hsame'

end

theorem Generator.afterAll_append (setting : Setting) (block : Kind → Generate Cursor Unit)
    (state : Generator Cursor) (calls later : List Call) :
    state.afterAll setting block (calls ++ later) =
      (state.afterAll setting block calls).afterAll setting block later :=
  List.foldl_append

theorem isTallied_counting_of_begin {file source : String} {scope : Scope}
    {start : Generator Cursor} (h : Generator.begin (Cursor.start file source) scope = .ok start)
    (hdistinct : scope.IsDistinct) :
    start.counting.IsTallied ⟨scope, .empty⟩ start.supply := by
  unfold Generator.begin at h
  split at h
  · rename_i token rest hpull
    cases h
    exact ⟨rfl, Cursor.wellSpelled_of_next hpull, rfl, hdistinct, Record.grows_refl _⟩
  · cases h

/-- However a generator over a source text is used, and whichever calls fail, its record grows all
the time, no table holds a name twice, and the number of open blocks is the number of blocks that
were entered less the number of those that came to their end, as a generator counts them that does
the same. No call is cut short by the bound on loops. -/
theorem grows_afterAll (setting : Setting) {file source : String} {scope : Scope}
    {start : Generator Cursor} (hdistinct : scope.IsDistinct)
    (hbegin : Generator.begin (Cursor.start file source) scope = .ok start)
    (calls later : List Call) :
    let state := start.afterAll setting Generate.block calls
    let last := start.afterAll setting Generate.block (calls ++ later)
    let counted := start.counting.afterAll setting Generate.countedBlock calls
    Record.Grows ⟨scope, .empty⟩ state.record ∧ state.record.Grows last.record ∧
      state.scope.IsDistinct ∧ counted.withSupply counted.supply.supply = state ∧
      state.depth + counted.supply.ended = counted.supply.entered ∧
      ∀ (call : Call) fault failed,
        call.run Generate.block setting state = .error fault failed → fault ≠ stalled := by
  intro state last counted
  have hstart := isTallied_counting_of_begin hbegin hdistinct
  obtain ⟨supply, htallied, hsame⟩ := exists_tallied_afterAll setting hstart calls
  have hstate : state = counted.withSupply supply := hsame
  have hlast : last = state.afterAll setting Generate.block later :=
    start.afterAll_append setting Generate.block calls later
  have hfresh : counted.IsTallied counted.record supply :=
    { htallied with grows := counted.record.grows_refl }
  obtain ⟨supply', htallied', hsame'⟩ := exists_tallied_afterAll setting hfresh later
  rw [← hstate] at hsame'
  rw [hlast, hsame', hstate, ← htallied.supply_eq]
  exact ⟨htallied.grows, htallied'.grows, htallied.isDistinct, rfl, htallied.depth_eq,
    fun _ _ _ ↦ Call.ne_stalled_of_run⟩

/-- With no block allowed, a block that fails and another one that is asked for then stay open both.
A variable that was in scope from the start is not declared. -/
theorem grows_afterAll_blocks :
    ∃ start, Generator.begin (Cursor.start "t" "LET y = x\nIF y > 0 THEN")
        ⟨⟨[("x", ⟨"s", 1, 1⟩)]⟩, .empty, .empty⟩ = .ok start ∧
      let calls := [.sourceText, .block (.keyword .ENDIF)]
      let state := start.afterAll ⟨"LET y = x\nIF y > 0 THEN", 0, "%f"⟩ Generate.block calls
      state.depth = 2 ∧
        state.listing.header = closedLines (Generate.prologue ++ [declarationLine "y"]) ∧
        state.scope.IsDistinct ∧
        Record.Grows ⟨⟨⟨[("x", ⟨"s", 1, 1⟩)]⟩, .empty, .empty⟩, .empty⟩ state.record := by
  refine ⟨_, rfl, ?_⟩
  intro calls state
  have hdistinct : Scope.IsDistinct ⟨⟨[("x", ⟨"s", 1, 1⟩)]⟩, .empty, .empty⟩ := by
    constructor <;> decide
  obtain ⟨hgrows, _, hnames, _⟩ := grows_afterAll ⟨"LET y = x\nIF y > 0 THEN", 0, "%f"⟩ hdistinct
    (rfl : Generator.begin (Cursor.start "t" "LET y = x\nIF y > 0 THEN") _ = .ok _) calls []
  exact ⟨by decide +kernel, by decide +kernel, hnames, hgrows⟩

end TeenyBasic
