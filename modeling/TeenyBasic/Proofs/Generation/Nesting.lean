import TeenyBasic.Proofs.Generation.Batch
import TeenyBasic.Proofs.Generation.Conformance
import TeenyBasic.Proofs.Generation.Recognition
import TeenyBasic.Proofs.Generation.Rejection
import TeenyBasic.Proofs.Lexing.Layout
import TeenyBasic.Proofs.Lexing.Rendering

/-!
# The limit on nesting

The limit on nesting is looked at in one place only, where a block is entered. So two generators
with different limits keep step until a block is entered that is one too deep for the stricter of
them. There the stricter one fails, and what the other one goes on to do no longer matters.

Nothing in the result of a run says which blocks were entered. So the more generous generator is
watched: it works over a supply that notes the state at the entry of each block, and the notes
decide where the stricter one fails.

The main statement is `compile_limited`.
-/

namespace TeenyBasic

open Source

/-- A setting with another limit on nesting. -/
def Setting.limited (setting : Setting) (limit : Int) : Setting :=
  { setting with maxDepth := limit }

theorem Setting.sameText_limited (setting : Setting) (limit : Int) :
    setting.SameText (setting.limited limit) := ⟨rfl, rfl⟩

/-- A supply with the states in which blocks were entered, in their order. -/
structure Watched (σ : Type) where
  supply : σ
  entries : List (Generator σ)

/-- The first entry of a block at a depth. -/
def Watched.entryAt? {σ : Type} (watched : Watched σ) (depth : Int) : Option (Generator σ) :=
  watched.entries.find? fun entry ↦ (entry.depth : Int) = depth

theorem Watched.entryAt?_append {σ : Type} (supply : σ) (entries : List (Generator σ))
    (entry : Generator σ) (depth : Int) : (mk supply (entries ++ [entry])).entryAt? depth =
      ((mk supply entries).entryAt? depth).or
        (if (entry.depth : Int) = depth then some entry else none) := by
  simp only [entryAt?, List.find?_append, List.find?_singleton, decide_eq_true_eq]

section

variable {σ : Type} [TokenSupply σ]

instance : TokenSupply (Watched σ) where
  pull watched :=
    match TokenSupply.pull watched.supply with
    | .ok token rest => .ok token { watched with supply := rest }
    | .error fault rest => .error fault { watched with supply := rest }
  bound watched := TokenSupply.bound watched.supply

theorem pull_watched (watched : Watched σ) : TokenSupply.pull watched =
    match TokenSupply.pull watched.supply with
    | .ok token rest => .ok token { watched with supply := rest }
    | .error fault rest => .error fault { watched with supply := rest } := rfl

end

namespace Generator

variable {σ : Type}

/-- A watched generator as it would be if nobody watched. -/
def unwatched (state : Generator (Watched σ)) : Generator σ :=
  state.withSupply state.supply.supply

/-- The state in which a generator is once it has counted a block that it enters. -/
def entered (state : Generator (Watched σ)) : Generator σ :=
  { state.unwatched with depth := state.depth + 1 }

/-- A watched generator with a note on the block that it enters. -/
def noting (state : Generator (Watched σ)) : Generator (Watched σ) :=
  { state with supply := { state.supply with entries := state.supply.entries ++ [state.entered] } }

theorem entryAt?_noting {state : Generator (Watched σ)} {depth : Int}
    (hnone : state.supply.entryAt? depth = none) : state.noting.supply.entryAt? depth =
      if ((state.depth + 1 : Nat) : Int) = depth then some state.entered else none := by
  have hsplit := Watched.entryAt?_append state.supply.supply state.supply.entries state.entered
    depth
  rwa [hnone, Option.none_or] at hsplit

end Generator

namespace Generate

/-- The state that a result leaves, whether it is a failure or not. -/
def reached {σ α : Type} : EStateM.Result Diagnostic (Generator σ) α → Generator σ
  | .ok _ state | .error _ state => state

variable {σ : Type} [TokenSupply σ]

/-- A block whose entry is noted, as that of all blocks inside it, which may be nested to the given
depth less one. -/
def watchedNestedBlock : Nat → Kind → Generate (Watched σ) Unit
  | 0, _ => throw stalled
  | nesting + 1, terminator => do
    modify Generator.noting
    blockOf (statementWith (watchedNestedBlock nesting)) terminator

/-- A block whose entry is noted, as that of all blocks inside it. -/
def watchedBlock (terminator : Kind) : Generate (Watched σ) Unit := do
  watchedNestedBlock (TokenSupply.bound (← get).supply) terminator

end Generate

/-! ## Watching changes nothing -/

section

variable {σ : Type} [TokenSupply σ]

/-- A watched generator has moved on from where it started, and something holds of its notes. A
generator that nobody watches does the same, perhaps under another limit. -/
def Lockstep.watching {setting setting' : Setting} (hsame : setting.SameText setting')
    (origin : Outlook σ) (Noted : List (Generator σ) → Prop) :
    Lockstep (Watched σ) σ setting setting' where
  Known _ := True
  Holds state supply := supply = state.supply.supply ∧ Noted state.supply.entries ∧
    ∃ tokens, Passes origin tokens (supply, state.current)
  Fails fault state fault' supply :=
    fault' = fault ∧ supply = state.supply.supply ∧ Noted state.supply.entries
  Moves _ := True
  mayStall := False
  sameText := hsame
  moves _ := trivial
  known_current _ := trivial
  pull {state supply} h _ := by
    obtain ⟨rfl, hnoted, tokens, hpasses⟩ := h
    rw [pull_watched]
    cases hpull : TokenSupply.pull state.supply.supply with
    | ok token rest =>
      exact ⟨rfl, rfl, hnoted, tokens ++ [state.current], hpasses.append (.step hpull (.refl _))⟩
    | error fault rest => exact ⟨rfl, rfl, hnoted⟩
  change h _ := by simpa using h
  fault h _ := ⟨rfl, h.1, h.2.1⟩
  bound_eq h := .inl (congrArg TokenSupply.bound h.1)
  stalled h := .inl ⟨rfl, h.1, h.2.1⟩

namespace Generate

variable {α β : Type} {setting : Setting}

/-- A step does what another one does when nobody watches, and it keeps what is known of the notes,
if that is something that further notes do not change. -/
def Mirrors (setting : Setting) (step : Generate (Watched σ) α) (step' : Generate σ α) : Prop :=
  ∀ {origin : Outlook σ} {Noted : List (Generator σ) → Prop},
    (∀ entries entry, Noted entries → Noted (entries ++ [entry])) → ∀ state state',
      Keeps (Lockstep.watching (.refl setting) origin Noted).conduct step step' state state'

theorem mirrors_blockOf {statement : Generate (Watched σ) Unit} {statement' : Generate σ Unit}
    (hstatement : Mirrors setting statement statement') (terminator : Kind) :
    Mirrors setting (blockOf statement terminator) (blockOf statement' terminator) := by
  intro origin Noted hgrows
  refine keepsBlocks_blockOf rfl ?_ (hstatement hgrows) terminator trivial
  rintro state _ depth ⟨supply, rfl, hholds⟩
  exact ⟨supply, rfl, hholds⟩

/-- A note at the entry of a block is all that the watching adds. -/
theorem mirrors_noting_blockOf {statement : Generate (Watched σ) Unit}
    {statement' : Generate σ Unit} (hstatement : Mirrors setting statement statement')
    (terminator : Kind) :
    Mirrors setting (do modify Generator.noting; blockOf statement terminator)
      (blockOf statement' terminator) := by
  rintro origin Noted hgrows state _ ⟨supply, rfl, hsupply, hnoted, hpasses⟩
  have hnoting : (Lockstep.watching (.refl setting) origin Noted).conduct.Holds state.noting
      (state.withSupply supply) := ⟨supply, rfl, hsupply, hgrows _ _ hnoted, hpasses⟩
  exact mirrors_blockOf hstatement terminator hgrows state.noting _ hnoting

theorem mirrors_watchedNestedBlock (nesting : Nat) (terminator : Kind) :
    Mirrors setting (watchedNestedBlock (σ := σ) nesting terminator)
      (nestedBlock nesting terminator) := by
  induction nesting generalizing terminator with
  | zero =>
    rintro _ _ _ state _ ⟨supply, rfl, hsupply, hnoted, _⟩
    exact .error ⟨supply, rfl, rfl, hsupply, hnoted⟩
  | succ nesting ih =>
    refine mirrors_noting_blockOf (fun hgrows _ _ ↦ ?_) terminator
    exact keeps_statementWith fun terminator _ ↦ ih terminator hgrows

theorem mirrors_watchedBlock (terminator : Kind) :
    Mirrors setting (watchedBlock (σ := σ) terminator) (block terminator) := by
  intro origin Noted hgrows state state'
  refine keeps_get fun h ↦ ?_
  rw [((Lockstep.watching (.refl setting) origin Noted).conduct.bound_eq h).resolve_right id]
  exact mirrors_watchedNestedBlock _ terminator hgrows state state' h

/-- A step leaves the first entry at a depth the first one. -/
def Stays (setting : Setting) (depth : Int) (step : Generate (Watched σ) α) : Prop :=
  ∀ (state : Generator (Watched σ)) (entry : Generator σ),
    state.supply.entryAt? depth = some entry →
    (reached (step setting state)).supply.entryAt? depth = some entry

theorem stays_of_mirrors {step : Generate (Watched σ) α} {step' : Generate σ α} {depth : Int}
    (h : Mirrors setting step step') : Stays setting depth step := by
  intro state entry hentry
  let Noted (entries : List (Generator σ)) : Prop :=
    (Watched.mk state.supply.supply entries).entryAt? depth = some entry
  have hgrows : ∀ entries later, Noted entries → Noted (entries ++ [later]) := by
    intro entries later hnoted
    have hsplit := Watched.entryAt?_append state.supply.supply entries later depth
    rwa [hnoted, Option.some_or] at hsplit
  have hholds : (Lockstep.watching (.refl setting) state.unwatched.outlook Noted).conduct.Holds
      state state.unwatched := ⟨_, rfl, rfl, hentry, [], .refl _⟩
  have hagrees := h hgrows state _ hholds
  generalize step setting state = result at hagrees
  generalize step' setting state.unwatched = result' at hagrees
  cases hagrees with
  | ok hend _ =>
    obtain ⟨_, _, _, hnoted, _⟩ := hend
    exact hnoted
  | error hend =>
    obtain ⟨_, _, _, _, hnoted⟩ := hend
    exact hnoted
  | stalled_left hstall => exact hstall.elim
  | stalled_right hstall => exact hstall.elim

end Generate

end

/-- The head of a block: the opening keyword, a condition and the keyword behind it. -/
def Source.BlockForm.Heads (form : BlockForm) (header : List Token) : Prop :=
  ∃ condition opening test middle, header = opening :: (test ++ [middle]) ∧
    opening.kind = .keyword form.opening ∧ Condition.Derives condition test ∧
    middle.kind = .keyword form.middle

section

variable {σ : Type} [TokenSupply σ]

/-- Seen from where a generator started, it looks at the first token behind the head of a block and
the line ends that follow it. -/
def Headed (origin outlook : Outlook σ) : Prop :=
  ∃ form front header ends, BlockForm.Heads form header ∧ IsLineEnd ends ∧
    outlook.2.kind ≠ .newline ∧ Passes origin (front ++ header ++ ends) outlook

namespace Generate

variable {setting : Setting} {state state' : Generator σ}

theorem ne_newline_of_newline {value : Unit} (h : newline setting state = .ok value state') :
    state'.current.kind ≠ .newline := by
  obtain ⟨_, middle, _, hskip⟩ := bind_eq_ok_iff.mp h
  have hstop := (stops_of_loopWhile (fun _ ↦ True) (fun _ ↦ trivial) trivial hskip).2
  simpa using hstop

theorem ne_newline_of_condition {opening closing : Keyword} {text : String} {value : Unit}
    (h : condition opening closing text setting state = .ok value state') :
    state'.current.kind ≠ .newline := by
  obtain ⟨_, _, _, hrest⟩ := bind_eq_ok_iff.mp h
  obtain ⟨_, _, _, hrest⟩ := bind_eq_ok_iff.mp hrest
  obtain ⟨_, _, _, hrest⟩ := bind_eq_ok_iff.mp hrest
  obtain ⟨_, _, _, hrest⟩ := bind_eq_ok_iff.mp hrest
  obtain ⟨_, _, hnewline, hbrace⟩ := bind_eq_ok_iff.mp hrest
  have hkind := ne_newline_of_newline hnewline
  cases hbrace
  exact hkind

theorem headed_of_condition {origin : Outlook σ} {front : List Token} {form : BlockForm}
    {text : String} {value : Unit} (hfront : Passes origin front state.outlook)
    (h : condition form.opening form.middle text setting state = .ok value state') :
    Headed origin state'.outlook := by
  obtain ⟨tree, opening, test, middle, ends, htest, hopening, hmiddle, hends, hcovers⟩ :=
    exists_condition_of_condition h
  refine ⟨form, front, opening :: (test ++ [middle]), ends,
    ⟨tree, opening, test, middle, rfl, hopening, htest, hmiddle⟩, hends,
    ne_newline_of_condition h, ?_⟩
  simpa using hfront.append hcovers.passes

end Generate

end

/-! ## Runs that are cut short -/

section

variable {σ : Type} [TokenSupply σ]

/-- A watched generator that a limit has not cut short: it has entered no block that is one too
deep, as many blocks are open as the limit allows at most, and it has moved on from where it
started. -/
structure Generator.IsUncut (limit : Int) (origin : Outlook σ) (state : Generator (Watched σ)) :
    Prop where
  entryAt?_eq_none : state.supply.entryAt? (limit + 1) = none
  depth_le : (state.depth : Int) ≤ limit
  passes : ∃ tokens, Passes origin tokens state.unwatched.outlook

/-- The result of a watched generator and that of one with a stricter limit. They are the same, or
the first entry of a block that is too deep has been noted, and the stricter generator has failed
there. -/
inductive Cut {α : Type} (setting : Setting) (limit : Int) (origin : Outlook σ) (depth : Nat) :
    EStateM.Result Diagnostic (Generator (Watched σ)) α →
    EStateM.Result Diagnostic (Generator σ) α → Prop
  | ok {value : α} {state : Generator (Watched σ)} (h : state.IsUncut limit origin)
    (hdepth : state.depth = depth) :
    Cut setting limit origin depth (.ok value state) (.ok value state.unwatched)
  | error {fault : Diagnostic} {state : Generator (Watched σ)}
    (hnone : state.supply.entryAt? (limit + 1) = none) :
    Cut setting limit origin depth (.error fault state) (.error fault state.unwatched)
  | tooDeep {result : EStateM.Result Diagnostic (Generator (Watched σ)) α}
    {entry last : Generator σ}
    (hentry : (Generate.reached result).supply.entryAt? (limit + 1) = some entry)
    (hheaded : Headed origin entry.outlook) :
    Cut setting limit origin depth result
      (.error (.inSource setting.source (.nestedTooDeeply limit) entry.current.location) last)

section

variable {setting : Setting} {limit : Int} {origin : Outlook σ} {depth : Nat}
  {result : EStateM.Result Diagnostic (Generator (Watched σ)) Unit}
  {result' : EStateM.Result Diagnostic (Generator σ) Unit}

theorem Cut.exists_error {entry : Generator σ} (h : Cut setting limit origin depth result result')
    (hentry : (Generate.reached result).supply.entryAt? (limit + 1) = some entry) :
    Headed origin entry.outlook ∧ ∃ last, result' = .error
      (.inSource setting.source (.nestedTooDeeply limit) entry.current.location) last := by
  cases h with
  | ok huncut _ => cases huncut.entryAt?_eq_none.symm.trans hentry
  | error hnone => cases hnone.symm.trans hentry
  | tooDeep hfirst hheaded =>
    obtain rfl := Option.some.inj (hfirst.symm.trans hentry)
    exact ⟨hheaded, _, rfl⟩

theorem Cut.ofResult_eq {source file : String} (h : Cut setting limit origin depth result result')
    (hnone : (Generate.reached result).supply.entryAt? (limit + 1) = none) :
    Attempt.ofResult source file result' = Attempt.ofResult source file result := by
  cases h with
  | ok _ _ => rfl
  | error _ => rfl
  | tooDeep hentry _ => cases hnone.symm.trans hentry

end

namespace Generate

variable {α β : Type} {setting : Setting} {limit : Int} {origin : Outlook σ}

/-- A step of a watched generator and one under a stricter limit: they do the same, or the second
one is cut short where the first one enters a block that is too deep for it. -/
structure Cuts (setting : Setting) (limit : Int) (origin : Outlook σ)
    (step : Generate (Watched σ) α) (step' : Generate σ α) : Prop where
  mirrors : Mirrors setting step step'
  cut (state : Generator (Watched σ)) (h : state.IsUncut limit origin) :
    Cut setting limit origin state.depth (step setting state)
      (step' (setting.limited limit) state.unwatched)

/-- Once a block that is too deep has been noted, nothing that the watched generator goes on to do
changes which one was the first, and the stricter one does nothing any more. -/
theorem cut_bind {step : Generate (Watched σ) α} {step' : Generate σ α}
    {next : α → Generate (Watched σ) β} {next' : α → Generate σ β}
    {state : Generator (Watched σ)} {state' : Generator σ} {depth depth' : Nat}
    (h : Cut setting limit origin depth (step setting state) (step' (setting.limited limit) state'))
    (hstays : ∀ value, Stays setting (limit + 1) (next value))
    (hnext : ∀ value (middle : Generator (Watched σ)),
      step' (setting.limited limit) state' = .ok value middle.unwatched →
      middle.IsUncut limit origin → middle.depth = depth →
      Cut setting limit origin depth' (next value setting middle)
        (next' value (setting.limited limit) middle.unwatched)) :
    Cut setting limit origin depth' ((step >>= next) setting state)
      ((step' >>= next') (setting.limited limit) state') := by
  rw [bind_apply, bind_apply]
  generalize step setting state = result at h
  generalize hstep : step' (setting.limited limit) state' = result' at h
  cases h with
  | ok huncut hdepth => exact hnext _ _ hstep huncut hdepth
  | error hnone => exact .error hnone
  | tooDeep hentry hheaded =>
    cases result with
    | ok value middle => exact .tooDeep (hstays value middle _ hentry) hheaded
    | error fault middle => exact .tooDeep hentry hheaded

theorem cuts_bind {step : Generate (Watched σ) α} {step' : Generate σ α}
    {next : α → Generate (Watched σ) β} {next' : α → Generate σ β}
    (h : Cuts setting limit origin step step')
    (hnext : ∀ value, Cuts setting limit origin (next value) (next' value)) :
    Cuts setting limit origin (step >>= next) (step' >>= next') where
  mirrors hgrows state state' := keeps_bind (h.mirrors hgrows state state')
    fun value state state' ↦ (hnext value).mirrors hgrows state state'
  cut state huncut := by
    refine cut_bind (h.cut state huncut) (fun value ↦ stays_of_mirrors (hnext value).mirrors)
      fun value middle _ hmiddle hdepth ↦ ?_
    rw [← hdepth]
    exact (hnext value).cut middle hmiddle

/-- A step that enters no block is the same in both. -/
theorem cuts_of_keeps {step : Generate (Watched σ) α} {step' : Generate σ α}
    (hkeeps : ∀ {setting' : Setting} (hsame : setting.SameText setting') (origin : Outlook σ)
      (Noted : List (Generator σ) → Prop) state state',
      Keeps (Lockstep.watching hsame origin Noted).conduct step step' state state') :
    Cuts setting limit origin step step' where
  mirrors _ := hkeeps _ _ _
  cut state huncut := by
    have hholds : (Lockstep.watching (setting.sameText_limited limit) origin
        (· = state.supply.entries)).conduct.Holds state state.unwatched :=
      ⟨_, rfl, rfl, rfl, huncut.passes⟩
    have hagrees := hkeeps _ _ _ _ _ hholds
    generalize step setting state = result at hagrees
    generalize step' (setting.limited limit) state.unwatched = result' at hagrees
    have hnone : ∀ {last : Generator (Watched σ)}, last.supply.entries = state.supply.entries →
        last.supply.entryAt? (limit + 1) = none := by
      intro last hentries
      rw [Watched.entryAt?, hentries]
      exact huncut.entryAt?_eq_none
    cases hagrees with
    | ok hend hdepth =>
      obtain ⟨_, rfl, rfl, hentries, hpasses⟩ := hend
      exact .ok ⟨hnone hentries, hdepth ▸ huncut.depth_le, hpasses⟩ hdepth
    | error hend =>
      obtain ⟨_, rfl, rfl, rfl, hentries⟩ := hend
      exact .error (hnone hentries)
    | stalled_left hstall => exact hstall.elim
    | stalled_right hstall => exact hstall.elim

theorem cuts_pure (value : α) :
    Cuts setting limit origin (pure value) (pure value : Generate σ α) :=
  cuts_of_keeps fun _ _ _ _ _ ↦ keeps_pure _

theorem cuts_unexpected {expected : String} (hexpected : IsExpectation expected) :
    Cuts setting limit origin (unexpected expected) (unexpected expected : Generate σ α) :=
  cuts_of_keeps fun _ _ _ _ _ ↦ keeps_unexpected hexpected

theorem cuts_kind : Cuts setting limit origin kind (kind : Generate σ Kind) := by
  refine cuts_of_keeps fun _ _ _ state _ h ↦ ?_
  obtain ⟨supply, rfl, hholds⟩ := h
  exact .ok ⟨supply, rfl, hholds⟩ rfl

theorem cuts_writeLine (text : String) :
    Cuts setting limit origin (writeLine text) (writeLine text : Generate σ Unit) :=
  cuts_of_keeps fun _ _ _ _ _ ↦ keeps_writeLine _

theorem cuts_repeatWhile {test : Kind → Bool} {step : Generate (Watched σ) Unit}
    {step' : Generate σ Unit} (h : Cuts setting limit origin step step') (rounds : Nat) :
    Cuts setting limit origin (repeatWhile test step rounds) (repeatWhile test step' rounds) := by
  induction rounds with
  | zero =>
    refine cuts_of_keeps fun _ _ _ _ _ hholds ↦ ?_
    obtain ⟨supply, rfl, hsupply, hnoted, _⟩ := hholds
    exact .error ⟨supply, rfl, rfl, hsupply, hnoted⟩
  | succ rounds ih =>
    refine cuts_bind cuts_kind fun current ↦ ?_
    split
    · exact cuts_bind h fun _ ↦ ih
    · exact cuts_pure ()

theorem cuts_loopWhile {test : Kind → Bool} {step : Generate (Watched σ) Unit}
    {step' : Generate σ Unit} (h : Cuts setting limit origin step step') :
    Cuts setting limit origin (loopWhile test step) (loopWhile test step') where
  mirrors hgrows _ _ := keeps_loopWhile fun state state' _ ↦ h.mirrors hgrows state state'
  cut state huncut := (cuts_repeatWhile h _).cut state huncut

theorem cuts_newline : Cuts setting limit origin newline (newline : Generate σ Unit) :=
  cuts_of_keeps fun _ _ _ _ _ ↦ keeps_newline

/-- The same for ways to generate blocks, which start behind the head of a block. -/
structure CutsBlocks (setting : Setting) (limit : Int) (origin : Outlook σ)
    (block : Kind → Generate (Watched σ) Unit) (block' : Kind → Generate σ Unit) : Prop where
  mirrors (terminator : Kind) : Mirrors setting (block terminator) (block' terminator)
  cut (terminator : Kind) (state : Generator (Watched σ)) (h : state.IsUncut limit origin)
    (hheaded : Headed origin state.unwatched.outlook) :
    Cut setting limit origin state.depth (block terminator setting state)
      (block' terminator (setting.limited limit) state.unwatched)

section

variable {block : Kind → Generate (Watched σ) Unit} {block' : Kind → Generate σ Unit}

/-- Both forms of a block are generated in the same way from their keywords. -/
theorem cuts_blockStatement (hblock : CutsBlocks setting limit origin block block')
    (form : BlockForm) (text : String) :
    Cuts setting limit origin
      (do
        condition form.opening form.middle text
        block (.keyword form.closing)
        writeLine "\x7d")
      (do
        condition form.opening form.middle text
        block' (.keyword form.closing)
        writeLine "\x7d") where
  mirrors hgrows _ _ := by
    refine keeps_bind (keeps_condition _ _ _) fun _ _ _ ↦ ?_
    exact keeps_bind (hblock.mirrors _ hgrows _ _) fun _ _ _ ↦ keeps_writeLine _
  cut state huncut := by
    have hcondition : Cuts setting limit origin (condition form.opening form.middle text)
        (condition form.opening form.middle text) :=
      cuts_of_keeps fun _ _ _ _ _ ↦ keeps_condition _ _ _
    have hrest : Mirrors setting
        (do block (.keyword form.closing); writeLine "\x7d")
        (do block' (.keyword form.closing); writeLine "\x7d") :=
      fun hgrows _ _ ↦ keeps_bind (hblock.mirrors _ hgrows _ _) fun _ _ _ ↦ keeps_writeLine _
    have hbrace : Cuts setting limit origin (writeLine "\x7d") (writeLine "\x7d") :=
      cuts_writeLine _
    obtain ⟨front, hfront⟩ := huncut.passes
    refine cut_bind (hcondition.cut state huncut) (fun _ ↦ stays_of_mirrors hrest)
      fun _ middle hstep hmiddle hdepth ↦ ?_
    have hbody := hblock.cut (.keyword form.closing) middle hmiddle
      (headed_of_condition hfront hstep)
    rw [hdepth] at hbody
    refine cut_bind hbody (fun _ ↦ stays_of_mirrors hbrace.mirrors) fun _ last _ hlast hsame ↦ ?_
    rw [← hsame]
    exact hbrace.cut last hlast

theorem cuts_statementWith (hblock : CutsBlocks setting limit origin block block') :
    Cuts setting limit origin (statementWith block) (statementWith block') := by
  have hline : ∀ {step : Generate (Watched σ) Unit} {step' : Generate σ Unit},
      Cuts setting limit origin step step' →
      Cuts setting limit origin (step >>= fun _ ↦ newline) (step' >>= fun _ ↦ newline) :=
    fun hstep ↦ cuts_bind hstep fun _ ↦ cuts_newline
  refine cuts_bind cuts_kind fun current ↦ ?_
  split
  · exact hline (cuts_of_keeps fun _ _ _ _ _ ↦ keeps_printStatement)
  · exact hline (cuts_blockStatement hblock .conditional _)
  · exact hline (cuts_blockStatement hblock .loop _)
  · exact hline (cuts_of_keeps fun _ _ _ _ _ ↦ keeps_labelStatement)
  · exact hline (cuts_of_keeps fun _ _ _ _ _ ↦ keeps_gotoStatement)
  · exact hline (cuts_of_keeps fun _ _ _ _ _ ↦ keeps_letStatement)
  · exact hline (cuts_of_keeps fun _ _ _ _ _ ↦ keeps_inputStatement)
  · exact hline (cuts_unexpected (.inr (by decide)))

end

theorem cuts_enclosed {statement : Generate (Watched σ) Unit} {statement' : Generate σ Unit}
    (hstatement : Cuts setting limit origin statement statement') (terminator : Kind) :
    Cuts setting limit origin (enclosed statement terminator) (enclosed statement' terminator) := by
  refine cuts_bind (cuts_loopWhile (cuts_bind ?_ fun ended ↦ ?_)) fun _ ↦ ?_
  · refine cuts_of_keeps fun _ _ _ state _ h ↦ ?_
    obtain ⟨supply, rfl, hholds⟩ := h
    exact .ok ⟨supply, rfl, hholds⟩ rfl
  · split
    · exact cuts_bind (cuts_unexpected (.inl ⟨terminator, rfl⟩)) fun _ ↦ hstatement
    · exact hstatement
  · exact cuts_of_keeps fun _ _ _ _ _ ↦
      keeps_expect_bind trivial fun _ _ _ _ _ _ ↦ keeps_pure _

/-- A block that is one too deep for the stricter generator. -/
theorem cut_of_depth_eq {statement : Generate (Watched σ) Unit} {statement' : Generate σ Unit}
    (hstatement : Mirrors setting statement statement') (terminator : Kind)
    {state : Generator (Watched σ)} (hdepth : (state.depth : Int) = limit)
    (huncut : state.IsUncut limit origin) (hheaded : Headed origin state.unwatched.outlook) :
    Cut setting limit origin state.depth
      ((do modify Generator.noting; blockOf statement terminator) setting state)
      (blockOf statement' terminator (setting.limited limit) state.unwatched) := by
  have hentry : state.noting.supply.entryAt? (limit + 1) = some state.entered := by
    rw [Generator.entryAt?_noting huncut.entryAt?_eq_none, if_pos (by omega)]
  -- The note stands before the block, so it is there whatever happens inside.
  have hlast := stays_of_mirrors (mirrors_blockOf hstatement terminator) state.noting _ hentry
  have hover : (setting.limited limit).maxDepth < ((state.unwatched.depth + 1 : Nat) : Int) := by
    change limit < ((state.depth + 1 : Nat) : Int)
    omega
  have henter : enterBlock (setting.limited limit) state.unwatched =
      .error (.inSource setting.source (.nestedTooDeeply limit) state.entered.current.location)
        state.entered := by
    rw [enterBlock_apply, if_pos hover]
    rfl
  rw [blockOf_eq statement', bind_of_error henter]
  exact .tooDeep hlast hheaded

/-- A block that neither generator finds too deep. -/
theorem cut_of_depth_lt {statement : Generate (Watched σ) Unit} {statement' : Generate σ Unit}
    (hlimit : limit ≤ setting.maxDepth)
    (hstatement : Cuts setting limit origin statement statement') (terminator : Kind)
    {state : Generator (Watched σ)} (huncut : state.IsUncut limit origin)
    (hdepth : (state.depth : Int) < limit) :
    Cut setting limit origin state.depth
      ((do modify Generator.noting; blockOf statement terminator) setting state)
      (blockOf statement' terminator (setting.limited limit) state.unwatched) := by
  let inside : Generator (Watched σ) := { state.noting with depth := state.depth + 1 }
  have hinside : inside.IsUncut limit origin := by
    refine ⟨?_, ?_, huncut.passes⟩
    · change state.noting.supply.entryAt? (limit + 1) = none
      rw [Generator.entryAt?_noting huncut.entryAt?_eq_none, if_neg (by omega)]
    · change ((state.depth + 1 : Nat) : Int) ≤ limit
      omega
  have henter : enterBlock setting state.noting = .ok () inside :=
    enterBlock_of_le (le_trans hinside.depth_le hlimit)
  have henter' : enterBlock (setting.limited limit) state.unwatched = .ok () inside.unwatched :=
    enterBlock_of_le hinside.depth_le
  have hrun : (do modify Generator.noting; blockOf statement terminator) setting state =
      blockOf statement terminator setting state.noting := rfl
  rw [hrun, blockOf_eq, blockOf_eq, bind_of_ok henter, bind_of_ok henter']
  refine cut_bind ((cuts_enclosed hstatement terminator).cut inside hinside) (fun _ _ _ h ↦ h)
    fun _ last _ hlast hsame ↦ ?_
  have hback : last.depth - 1 = state.depth := by
    rw [hsame]
    rfl
  refine .ok ⟨hlast.entryAt?_eq_none, ?_, hlast.passes⟩ hback
  change ((last.depth - 1 : Nat) : Int) ≤ limit
  rw [hback]
  exact huncut.depth_le

/-- Where a block is entered, the stricter generator fails if the block is one too deep for it. -/
theorem cutsBlocks_noting {statement : Generate (Watched σ) Unit} {statement' : Generate σ Unit}
    (hlimit : limit ≤ setting.maxDepth)
    (hstatement : Cuts setting limit origin statement statement') :
    CutsBlocks setting limit origin
      (fun terminator ↦ do modify Generator.noting; blockOf statement terminator)
      (blockOf statement') where
  mirrors terminator := mirrors_noting_blockOf hstatement.mirrors terminator
  cut terminator state huncut hheaded := by
    by_cases hdeep : (state.depth : Int) = limit
    · exact cut_of_depth_eq hstatement.mirrors terminator hdeep huncut hheaded
    · exact cut_of_depth_lt hlimit hstatement terminator huncut
        (lt_of_le_of_ne huncut.depth_le hdeep)

theorem cutsBlocks_watchedNestedBlock (hlimit : limit ≤ setting.maxDepth) (nesting : Nat) :
    CutsBlocks setting limit origin (watchedNestedBlock (σ := σ) nesting)
      (nestedBlock nesting) := by
  induction nesting with
  | zero =>
    exact ⟨fun terminator ↦ mirrors_watchedNestedBlock 0 terminator,
      fun _ _ huncut _ ↦ .error huncut.entryAt?_eq_none⟩
  | succ nesting ih => exact cutsBlocks_noting hlimit (cuts_statementWith ih)

theorem cutsBlocks_watchedBlock (hlimit : limit ≤ setting.maxDepth) :
    CutsBlocks setting limit origin (watchedBlock (σ := σ)) block where
  mirrors := mirrors_watchedBlock
  cut terminator state := (cutsBlocks_watchedNestedBlock hlimit _).cut terminator state

theorem cuts_sourceTextWith {block : Kind → Generate (Watched σ) Unit}
    {block' : Kind → Generate σ Unit} (hblock : CutsBlocks setting limit origin block block') :
    Cuts setting limit origin (sourceTextWith block) (sourceTextWith block') := by
  have hopening : Cuts setting limit origin (prologue.forM declare)
      (prologue.forM declare : Generate σ PUnit) :=
    cuts_of_keeps fun _ _ _ _ _ ↦ keeps_forM _ fun _ hline _ _ ↦
      keeps_modify (.opening hline) rfl rfl
  have hclosing : Cuts setting limit origin (epilogue.forM writeLine)
      (epilogue.forM writeLine : Generate σ PUnit) :=
    cuts_of_keeps fun _ _ _ _ _ ↦ keeps_forM _ fun _ _ _ _ ↦ keeps_writeLine _
  have hprogram : Cuts setting limit origin (programWith block) (programWith block') :=
    cuts_bind hopening fun _ ↦
      cuts_bind (cuts_loopWhile (cuts_statementWith hblock)) fun _ ↦ hclosing
  refine cuts_bind (cuts_of_keeps fun _ _ _ _ _ ↦ keeps_skipNewlines) fun _ ↦
    cuts_bind hprogram fun _ ↦ ?_
  exact cuts_of_keeps fun _ _ _ _ _ ↦ keeps_checkLabels

/-- However many blocks a program has, all of them are left in the end. -/
theorem depth_of_sourceText {state state' : Generator σ} {value : Unit}
    (h : sourceText setting state = .ok value state') : state'.depth = state.depth := by
  obtain ⟨_, start, hskip, hrest⟩ := bind_eq_ok_iff.mp h
  obtain ⟨_, last, hprogram, hlabels⟩ := bind_eq_ok_iff.mp hrest
  obtain ⟨_, _, hstart⟩ := covers_of_skipNewlines hskip
  obtain ⟨_, _, _, _, hcovers, _⟩ := exists_program_of_program hprogram
  obtain ⟨_, rfl⟩ := checkLabels_eq_ok_iff.mp hlabels
  exact hcovers.depth_eq.trans hstart.depth_eq

end Generate

end

namespace Cursor

theorem endOfInput_of_passes {outlook last : Outlook Cursor} {tokens : List Token}
    (h : Passes outlook tokens last) (hkind : outlook.2.kind = .endOfInput)
    (hrest : outlook.1.rest = []) : ∀ token ∈ tokens, token.kind = .endOfInput := by
  induction h with
  | refl _ => simp
  | @step supply _ token _ tokens _ hpull _ ih =>
    have hnext : next supply = .ok _ _ := hpull
    rw [next_of_nil hrest] at hnext
    cases hnext
    exact List.forall_mem_cons.mpr ⟨hkind, ih rfl hrest⟩

/-- A token that is not the end of the input has no end of the input in front of it. -/
theorem ne_endOfInput_of_passes {outlook last : Outlook Cursor} {tokens : List Token}
    {token : Token} (h : Passes outlook (tokens ++ [token]) last)
    (hfirst : ∃ before, next before = .ok outlook.2 outlook.1)
    (hkind : token.kind ≠ .endOfInput) :
    ∀ other ∈ tokens ++ [token], other.kind ≠ .endOfInput := by
  induction tokens generalizing outlook with
  | nil => simpa using hkind
  | cons other tokens ih =>
    obtain ⟨before, hbefore⟩ := hfirst
    have hother : outlook.2.kind ≠ .endOfInput := by
      intro hend
      have hempty := rest_eq_nil_of_next hbefore hend
      exact hkind (endOfInput_of_passes h hend hempty token (by simp))
    obtain ⟨rfl, _, _, hpull, hrest⟩ := passes_cons_iff.mp h
    exact List.forall_mem_cons.mpr ⟨hother, ih hrest ⟨_, hpull⟩⟩

/-- Tokens that were moved past stand at the front of the stream, and the token looked at stands
behind them. -/
theorem isPrefix_stream_of_passes {c c' : Cursor} {first : Token} {tokens : List Token}
    {last : Outlook Cursor} (hfirst : next c = .ok first c')
    (h : Passes (c', first) tokens last)
    (htokens : ∀ token ∈ tokens, token.kind ≠ .endOfInput) :
    tokens ++ [last.2] <+: (stream c).tokens := by
  induction tokens generalizing c c' first with
  | nil =>
    obtain rfl := passes_nil_iff.mp h
    by_cases hkind : first.kind = .endOfInput
    · rw [stream_of_endOfInput hfirst hkind]
      exact List.prefix_refl _
    · rw [stream_of_ne_endOfInput hfirst hkind]
      exact ⟨_, rfl⟩
  | cons token tokens ih =>
    obtain ⟨rfl, following, supply, hpull, hrest⟩ := passes_cons_iff.mp h
    obtain ⟨hkind, hlater⟩ := List.forall_mem_cons.mp htokens
    rw [stream_of_ne_endOfInput hfirst hkind]
    exact List.cons_prefix_cons.mpr ⟨rfl, ih hpull hrest hlater⟩

end Cursor

/-- The head of a block, the line ends behind it and the first token of the block stand in the
stream one after the other. -/
theorem Headed.exists_tokens {c : Cursor} {outlook : Outlook Cursor}
    (h : Headed (Generator.idle c).outlook outlook) :
    ∃ form front header ends rest,
      (Cursor.stream c).tokens = front ++ header ++ ends ++ outlook.2 :: rest ∧
      BlockForm.Heads form header ∧ IsLineEnd ends ∧ outlook.2.kind ≠ .newline := by
  obtain ⟨form, front, header, ends, hheader, hends, hkind, hpasses⟩ := h
  cases front with
  | nil =>
    obtain ⟨_, opening, _, _, rfl, hopening, _⟩ := hheader
    obtain ⟨rfl, _⟩ := passes_cons_iff.mp hpasses
    cases hopening
  | cons idle front =>
    obtain ⟨_, first, c', hpull, hrest⟩ := passes_cons_iff.mp hpasses
    have hfirst : Cursor.next c = .ok first c' := hpull
    have hinside : ∀ token ∈ front ++ header ++ ends, token.kind ≠ .endOfInput := by
      obtain ⟨initial, last, rfl⟩ := (List.eq_nil_or_concat' ends).resolve_left hends.1
      have hlast : last.kind ≠ .endOfInput := by simp [hends.2 last (by simp)]
      have hmoved : Passes (c', first) (front ++ header ++ initial ++ [last]) outlook := by
        simpa using hrest
      rw [← List.append_assoc]
      exact Cursor.ne_endOfInput_of_passes hmoved ⟨c, hfirst⟩ hlast
    obtain ⟨rest, hstream⟩ := Cursor.isPrefix_stream_of_passes hfirst hrest hinside
    refine ⟨form, front, header, ends, rest, ?_, hheader, hends, hkind⟩
    rw [← hstream]
    simp

/-! ## Compilations -/

theorem Generator.depth_of_begin {supply : Cursor} {scope : Scope} {start : Generator Cursor}
    (h : begin supply scope = .ok start) : start.depth = 0 := by
  unfold begin at h
  split at h
  · cases h
    rfl
  · cases h

theorem Generator.sourceText_of_run {setting : Setting} {start state : Generator Cursor}
    (h : start.run setting = (state, none)) :
    Generate.sourceText setting start = .ok () state := by
  unfold run at h
  split at h
  · rename_i value last hresult
    cases h
    exact hresult
  · cases h

namespace Options

def limited (options : Options) (limit : Int) : Options :=
  { options with maxDepth := limit }

/-- The result of a compilation that is watched. -/
def watchedResult (options : Options) (source file : String) :
    EStateM.Result Diagnostic (Generator (Watched Cursor)) Unit :=
  (Generate.advance >>= fun _ ↦ Generate.sourceTextWith Generate.watchedBlock)
    (options.setting source) (.idle ⟨Cursor.start file source, []⟩)

/-- The states in which a compilation enters its blocks, in their order. Their depths count the
blocks that are open then, with the one that is entered. -/
def blockEntries (options : Options) (source file : String) : List (Generator Cursor) :=
  (Generate.reached (options.watchedResult source file)).supply.entries

/-- Watching a compilation does not change it. -/
theorem ofResult_watchedResult (options : Options) (source file : String) :
    Attempt.ofResult source file (options.watchedResult source file) =
      options.attempt source file := by
  rw [attempt_eq_attemptFrom, attemptFrom_eq_ofResult]
  have hrun : Generate.Mirrors (options.setting source)
      (Generate.advance >>= fun _ ↦ Generate.sourceTextWith Generate.watchedBlock)
      (Generate.advance >>= fun _ ↦ Generate.sourceText (σ := Cursor)) := by
    intro origin Noted hgrows state state'
    refine Generate.keeps_bind (Generate.keeps_advance trivial) fun _ _ _ ↦ ?_
    rw [Generate.sourceText_eq]
    exact Generate.keeps_sourceTextWith fun terminator _ ↦
      Generate.mirrors_watchedBlock terminator hgrows
  have hstart : (Lockstep.watching (.refl (options.setting source))
      (Generator.idle (Cursor.start file source)).outlook fun _ ↦ True).conduct.Holds
      (.idle ⟨Cursor.start file source, []⟩) (.idle (Cursor.start file source)) :=
    ⟨_, rfl, rfl, trivial, [], .refl _⟩
  have hagrees := hrun (fun _ _ _ ↦ trivial) _ _ hstart
  unfold watchedResult resultFrom
  generalize (Generate.advance >>= fun _ ↦ Generate.sourceTextWith Generate.watchedBlock)
    (options.setting source) (.idle ⟨Cursor.start file source, []⟩) = result at hagrees ⊢
  generalize (Generate.advance >>= fun _ ↦ Generate.sourceText) (options.setting source)
    (Generator.idle (Cursor.start file source)) = result' at hagrees ⊢
  cases hagrees with
  | ok hend _ =>
    obtain ⟨_, rfl, _⟩ := hend
    rfl
  | error hend =>
    obtain ⟨_, rfl, rfl, _⟩ := hend
    rfl
  | stalled_left hstall => exact hstall.elim
  | stalled_right hstall => exact hstall.elim

/-- A compilation with a stricter limit is cut short where the first block is entered that is too
deep for it. -/
theorem cut_watchedResult (options : Options) {limit : Int} (hzero : 0 ≤ limit)
    (hlimit : limit ≤ options.maxDepth) (source file : String) :
    Cut (options.setting source) limit (Generator.idle (Cursor.start file source)).outlook 0
      (options.watchedResult source file)
      ((options.limited limit).resultFrom (Cursor.start file source) source) := by
  have hcuts : Generate.Cuts (options.setting source) limit
      (Generator.idle (Cursor.start file source)).outlook
      (Generate.advance >>= fun _ ↦ Generate.sourceTextWith Generate.watchedBlock)
      (Generate.advance >>= fun _ ↦ Generate.sourceText) :=
    Generate.cuts_bind (Generate.cuts_of_keeps fun _ _ _ _ _ ↦ Generate.keeps_advance trivial)
      fun _ ↦ Generate.cuts_sourceTextWith (Generate.cutsBlocks_watchedBlock hlimit)
  exact hcuts.cut (.idle ⟨Cursor.start file source, []⟩) ⟨rfl, hzero, [], .refl _⟩

/-- Two limits on nesting. A compilation with the stricter one does the same as one with the other,
down to its notes, unless the other one enters a block that is one too deep for the stricter limit.
Then it fails at the first such block, and the place is that of the first token behind the head of
the block and the line ends that follow it. A run that succeeds, with whatever names in scope it has
begun, leaves no block open. -/
theorem compile_limited (options : Options) {limit : Int} (hzero : 0 ≤ limit)
    (hlimit : limit ≤ options.maxDepth) (source file : String) :
    let entries := options.blockEntries source file
    let tokens := (Cursor.stream (Cursor.start file source)).tokens
    Attempt.ofResult source file (options.watchedResult source file) =
      options.attempt source file ∧
    ((∀ entry ∈ entries, (entry.depth : Int) ≠ limit + 1) →
      (options.limited limit).attempt source file = options.attempt source file) ∧
    (∀ entry, (entries.find? fun entry ↦ (entry.depth : Int) = limit + 1) = some entry →
      (options.limited limit).compile source file =
        .error (.inSource source (.nestedTooDeeply limit) entry.current.location) ∧
      (Cause.nestedTooDeeply limit).family = .syntactic ∧
      (Cause.nestedTooDeeply limit).text = s!"blocks nested too deeply (limit is {limit})" ∧
      ∃ form front header ends rest,
        tokens = front ++ header ++ ends ++ entry.current :: rest ∧
        BlockForm.Heads form header ∧ IsLineEnd ends ∧ entry.current.kind ≠ .newline) ∧
    ∀ (setting : Setting) (scope : Scope) (start state : Generator Cursor),
      Generator.begin (Cursor.start file source) scope = .ok start →
      start.run setting = (state, none) → state.depth = 0 := by
  intro entries tokens
  have hcut := options.cut_watchedResult hzero hlimit source file
  refine ⟨options.ofResult_watchedResult source file, fun hnone ↦ ?_, fun entry hentry ↦ ?_, ?_⟩
  · have hfind : (Generate.reached (options.watchedResult source file)).supply.entryAt?
        (limit + 1) = none :=
      List.find?_eq_none.mpr fun entry hmem ↦ by simpa using hnone entry hmem
    rw [attempt_eq_attemptFrom, attemptFrom_eq_ofResult, hcut.ofResult_eq hfind,
      ofResult_watchedResult]
  · obtain ⟨hheaded, last, hresult⟩ := hcut.exists_error hentry
    refine ⟨?_, rfl, rfl, hheaded.exists_tokens⟩
    rw [compile, attempt_eq_attemptFrom, attemptFrom_eq_ofResult, hresult]
    rfl
  · intro setting scope start state hbegin hrun
    rw [Generate.depth_of_sourceText (Generator.sourceText_of_run hrun),
      Generator.depth_of_begin hbegin]

/-- Behind a block that is left again, a block inside another one is too deep for the limit 1, and
the line without anything in it does not count; for the limit 2 it is not. -/
theorem compile_limited_inner :
    let source :=
      "IF 2 > 1 THEN\nENDIF\nWHILE 2 > 1 REPEAT\nIF 1 < 2 THEN # x\n\n PRINT 1\nENDIF\nENDWHILE"
    (1 : Int) ≤ standard.maxDepth ∧ (2 : Int) ≤ standard.maxDepth ∧
    (standard.limited 1).compile source "t" =
      .error ⟨.nestedTooDeeply 1, some ⟨"t", 6, 2⟩, some " PRINT 1"⟩ ∧
    (standard.limited 2).attempt source "t" = standard.attempt source "t" := by
  intro source
  have hone : (1 : Int) ≤ standard.maxDepth := by decide
  have htwo : (2 : Int) ≤ standard.maxDepth := by decide
  have hfind : ((standard.blockEntries source "t").find? fun entry ↦
      (entry.depth : Int) = 1 + 1).map (·.current.location) = some ⟨"t", 6, 2⟩ := by
    decide +kernel
  obtain ⟨entry, hentry, hplace⟩ := Option.map_eq_some_iff.mp hfind
  obtain ⟨_, _, hcut, _⟩ := compile_limited standard (by decide) hone source "t"
  obtain ⟨_, hsame, _, _⟩ := compile_limited standard (by decide) htwo source "t"
  refine ⟨hone, htwo, ?_, hsame (by decide +kernel)⟩
  rw [(hcut entry hentry).1, hplace]
  decide +kernel

end Options

end TeenyBasic
