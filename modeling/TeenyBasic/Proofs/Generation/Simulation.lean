import TeenyBasic.Proofs.Generation.Conduct

/-!
# Generators over different supplies

A generator knows its supply only by the tokens it pulls. If two supplies give the same tokens as
long as it matters, then two generators that differ in nothing but their supplies stay so. This is
conduct of the simplest form: a condition on a generator and a second supply.

With one supply such a condition is an invariant. With two that only correspond, pulls may fail
together with different faults, and nothing is asked of pulls behind the end of the input. The main
statement is `agrees_sourceText`.
-/

namespace TeenyBasic

/-- A generator in the same state over another supply. -/
def Generator.withSupply {σ τ : Type} (state : Generator σ) (supply : τ) : Generator τ :=
  ⟨supply, state.current, state.listing, state.scope, state.depth, state.pulled, state.events⟩

section

variable {σ τ : Type} (state : Generator σ) (supply : τ)

@[simp] theorem Generator.withSupply_supply : (state.withSupply supply).supply = supply := rfl

@[simp] theorem Generator.withSupply_scope : (state.withSupply supply).scope = state.scope :=
  rfl

theorem Generator.alter_withSupply (change : Change) :
    (state.withSupply supply).alter change = (state.alter change).withSupply supply := by
  cases change <;> rfl

theorem Reason.diagnostic_withSupply (setting : Setting) (reason : Reason) :
    reason.diagnostic setting (state.withSupply supply) = reason.diagnostic setting state := by
  cases reason <;> rfl

end

/-- Settings for one text; they may set different limits on nesting. -/
structure Setting.SameText (setting setting' : Setting) : Prop where
  source_eq : setting'.source = setting.source
  numberFormat_eq : setting'.numberFormat = setting.numberFormat

theorem Setting.SameText.refl (setting : Setting) : setting.SameText setting := ⟨rfl, rfl⟩

section

variable {σ τ : Type} {known : Token → Prop} {state : Generator σ}

theorem Change.Fits.eq {change change' : Change}
    (h : change.Fits (fun token token' ↦ token' = token ∧ known token) state change') :
    change' = change ∧ change.Fits (fun token _ ↦ known token) state change := by
  cases h with
  | write text => exact ⟨rfl, .write text⟩
  | opening hline => exact ⟨rfl, .opening hline⟩
  | newVariable hknown hkind hnew hopen =>
    exact ⟨by rw [hknown.1], .newVariable hknown.2 hkind hnew hopen⟩
  | newLabel hknown hkind hnew hopen =>
    exact ⟨by rw [hknown.1], .newLabel hknown.2 hkind hnew hopen⟩
  | newJump hknown hkind hopen => exact ⟨by rw [hknown.1], .newJump hknown.2 hkind hopen⟩

theorem Reason.Fits.eq {supply : τ} {reason reason' : Reason}
    (h : reason.Fits (fun token token' ↦ token' = token ∧ known token) state
      (state.withSupply supply) reason') :
    reason' = reason ∧ reason.Fits (fun token _ ↦ known token) state state reason := by
  cases h with
  | unexpected hexpected => exact ⟨rfl, .unexpected hexpected⟩
  | tooDeep limit => exact ⟨rfl, .tooDeep limit⟩
  | undeclared hkind hnew => exact ⟨rfl, .undeclared hkind hnew⟩
  | reserved hknown hkind => exact ⟨by rw [hknown.1], .reserved hknown.2 hkind⟩
  | duplicate hknown hkind => exact ⟨by rw [hknown.1], .duplicate hknown.2 hkind⟩
  | undefined hfind hfind' =>
    rw [Generator.withSupply_scope, hfind] at hfind'
    exact ⟨by rw [Option.some.inj hfind'], .undefined hfind hfind⟩

end

/-- What a condition on a generator and a second supply must establish to survive all rules. -/
structure Lockstep (σ τ : Type) [TokenSupply σ] [TokenSupply τ] (setting setting' : Setting) where
  Known : Token → Prop
  Holds : Generator σ → τ → Prop
  Fails : Diagnostic → Generator σ → Diagnostic → τ → Prop
  Moves : Kind → Prop
  mayStall : Prop
  sameText : setting.SameText setting'
  moves {kind : Kind} (h : kind ≠ .endOfInput) : Moves kind
  known_current {state : Generator σ} {supply : τ} (h : Holds state supply) : Known state.current
  pull {state : Generator σ} {supply : τ} (h : Holds state supply)
    (hmoves : Moves state.current.kind) :
    match TokenSupply.pull state.supply, TokenSupply.pull supply with
    | .ok token rest, .ok token' rest' => token' = token ∧ Holds (state.moveTo rest token) rest'
    | .error fault rest, .error fault' rest' =>
      Fails fault { state with supply := rest } fault' rest'
    | _, _ => False
  change {state : Generator σ} {supply : τ} {change : Change} (h : Holds state supply)
    (hfits : change.Fits (fun token _ ↦ Known token) state change) :
    Holds (state.alter change) supply
  fault {state : Generator σ} {supply : τ} {reason : Reason} (h : Holds state supply)
    (hfits : reason.Fits (fun token _ ↦ Known token) state state reason) :
    Fails (reason.diagnostic setting state) state (reason.diagnostic setting state) supply
  bound_eq {state : Generator σ} {supply : τ} (h : Holds state supply) :
    TokenSupply.bound supply = TokenSupply.bound state.supply ∨ mayStall
  stalled {state : Generator σ} {supply : τ} (h : Holds state supply) :
    Fails stalled state stalled supply ∨ mayStall

variable {σ τ : Type} [TokenSupply σ] [TokenSupply τ] {setting setting' : Setting}

/-- The conduct of a generator and of one in the same state over the second supply. -/
def Lockstep.conduct (link : Lockstep σ τ setting setting') : Conduct σ τ setting setting' where
  Known token token' := token' = token ∧ link.Known token
  Holds state state' := ∃ supply, state' = state.withSupply supply ∧ link.Holds state supply
  Fails fault state fault' state' :=
    ∃ supply, state' = state.withSupply supply ∧ link.Fails fault state fault' supply
  Moves := link.Moves
  mayStall := link.mayStall
  numberFormat_eq := link.sameText.numberFormat_eq
  kind_eq_of_known h := by rw [h.1]
  spelling_eq_of_known h := by rw [h.1]
  kind_eq := by
    rintro state _ ⟨supply, rfl, _⟩
    rfl
  sameNames := by
    rintro state _ ⟨supply, rfl, _⟩
    exact .refl _
  depth_eq := by
    rintro state _ ⟨supply, rfl, _⟩
    rfl
  moves h := link.moves h.2
  known_current := by
    rintro state _ ⟨supply, rfl, h⟩ _
    exact ⟨rfl, link.known_current h⟩
  pull := by
    rintro state _ ⟨supply, rfl, h⟩ hmoves
    have hpull := link.pull h hmoves
    rw [Generator.withSupply_supply]
    cases hleft : TokenSupply.pull state.supply <;> cases hright : TokenSupply.pull supply <;>
      simp only [hleft, hright] at hpull
    · obtain ⟨rfl, hnext⟩ := hpull
      exact ⟨_, rfl, hnext⟩
    · exact ⟨_, rfl, hpull⟩
  change := by
    rintro state _ change change' ⟨supply, rfl, h⟩ hfits
    obtain ⟨rfl, hfits⟩ := hfits.eq
    exact ⟨supply, state.alter_withSupply supply _, link.change h hfits⟩
  fault := by
    rintro state _ reason reason' ⟨supply, rfl, h⟩ hfits
    obtain ⟨rfl, hfits⟩ := hfits.eq
    have hsame : reason'.diagnostic setting' (state.withSupply supply) =
        reason'.diagnostic setting state := by
      rw [Reason.diagnostic_withSupply, Reason.diagnostic, Reason.diagnostic, Setting.line?,
        Setting.line?, link.sameText.source_eq]
    rw [hsame]
    exact ⟨supply, rfl, link.fault h hfits⟩
  bound_eq := by
    rintro state _ ⟨supply, rfl, h⟩
    exact link.bound_eq h
  stalled := by
    rintro state _ ⟨supply, rfl, h⟩
    exact (link.stalled h).imp_left fun hfails ↦ ⟨supply, rfl, hfails⟩

instance (link : Lockstep σ τ setting setting') : link.conduct.SkipsLines :=
  Generate.skipsLines_of_moves (link.moves (by simp))

theorem Generate.keeps_advance {link : Lockstep σ τ setting setting'} {state : Generator σ}
    {state' : Generator τ} (hmoves : link.Moves state.current.kind) :
    Keeps link.conduct advance advance state state' := by
  have hbind : Keeps link.conduct (advance >>= pure) (advance >>= pure) state state' := by
    refine keeps_advance_bind hmoves fun token token' hknown _ _ _ ↦ ?_
    rw [hknown.1]
    exact keeps_pure _
  rwa [bind_pure, bind_pure] at hbind

/-- A correspondence of two kinds of supplies. Which supplies are related may depend on the kind of
the token pulled last. Pulls from related supplies give the same token and leave related supplies,
or they fail together, with what may be said about that. -/
structure Correspondence (σ τ : Type) [TokenSupply σ] [TokenSupply τ] where
  Related : Kind → σ → τ → Prop
  Fails : Diagnostic → σ → Diagnostic → τ → Prop
  pull {kind : Kind} {supply : σ} {supply' : τ} (h : Related kind supply supply')
    (hkind : kind ≠ .endOfInput) :
    match TokenSupply.pull supply, TokenSupply.pull supply' with
    | .ok token rest, .ok token' rest' => token' = token ∧ Related token.kind rest rest'
    | .error fault rest, .error fault' rest' => Fails fault rest fault' rest'
    | _, _ => False

/-- Generators over corresponding supplies fail with the same fault over related supplies, or where
pulls fail together. -/
def Correspondence.lockstep (link : Correspondence σ τ) (setting : Setting) :
    Lockstep σ τ setting setting where
  Known _ := True
  Holds state supply := link.Related state.current.kind state.supply supply
  Fails fault state fault' supply :=
    (fault' = fault ∧ fault.location ≠ none ∧
      link.Related state.current.kind state.supply supply) ∨
    link.Fails fault state.supply fault' supply
  Moves kind := kind ≠ .endOfInput
  mayStall := True
  sameText := .refl setting
  moves h := h
  known_current _ := trivial
  pull {state supply} h hmoves := by
    have hpull := link.pull h hmoves
    cases hleft : TokenSupply.pull state.supply <;> cases hright : TokenSupply.pull supply <;>
      simp only [hleft, hright] at hpull
    · exact hpull
    · exact .inr hpull
  change h _ := by simpa using h
  fault h _ := .inl ⟨rfl, by simp [Reason.diagnostic], h⟩
  bound_eq _ := .inr trivial
  stalled _ := .inr trivial

/-- Over corresponding supplies, a whole source text is generated alike from its first token on. -/
theorem Generate.agrees_sourceText (link : Correspondence σ τ) (setting : Setting)
    {state : Generator σ} {supply : τ}
    (h : link.Related state.current.kind state.supply supply)
    (hkind : state.current.kind ≠ .endOfInput) :
    (link.lockstep setting).conduct.Agrees state.depth
      ((advance >>= fun _ ↦ sourceText) setting state)
      ((advance >>= fun _ ↦ sourceText) setting (state.withSupply supply)) := by
  have hblocks : KeepsBlocks (link.lockstep setting).conduct block block := by
    refine keepsBlocks_block rfl ?_
    rintro state _ depth ⟨supply, rfl, hrelated⟩
    exact ⟨supply, rfl, hrelated⟩
  have hstart : (link.lockstep setting).conduct.Holds state (state.withSupply supply) :=
    ⟨supply, rfl, h⟩
  exact keeps_bind (keeps_advance hkind) (fun _ _ _ ↦ keeps_sourceTextWith hblocks) hstart

end TeenyBasic
