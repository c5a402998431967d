import TeenyBasic.Generate.Progress

/-!
# Moving past tokens

A generator reads from its supply one token ahead. Its outlook is the supply together with the
token it looks at, and moving past a list of tokens leads from one outlook to another. The lemmas
below say which tokens the basic steps of a generator move past when they succeed, and that a supply
that keeps to its bound grants a loop more rounds than there are tokens to move past.
-/

namespace TeenyBasic

/-- What a generator sees: its supply and the token it looks at. -/
abbrev Outlook (σ : Type) := σ × Token

def Generator.outlook {σ : Type} (state : Generator σ) : Outlook σ :=
  (state.supply, state.current)

/-- A generator that looks at the next token. -/
def Generator.moveTo {σ : Type} (state : Generator σ) (supply : σ) (token : Token) : Generator σ :=
  { state with supply, current := token, pulled := state.pulled + 1 }

variable {σ : Type} [TokenSupply σ]

/-- Moving past tokens, the first of which is the one looked at. -/
inductive Passes : Outlook σ → List Token → Outlook σ → Prop
  | refl (outlook : Outlook σ) : Passes outlook [] outlook
  | step {supply supply' : σ} {token next : Token} {tokens : List Token} {last : Outlook σ}
    (hpull : TokenSupply.pull supply = .ok next supply') (h : Passes (supply', next) tokens last) :
    Passes (supply, token) (token :: tokens) last

section

variable {outlook last : Outlook σ} {tokens : List Token}

theorem passes_nil_iff : Passes outlook [] last ↔ last = outlook := by
  constructor
  · intro h
    cases h
    rfl
  · rintro rfl
    exact .refl _

theorem passes_cons_iff {token : Token} :
    Passes outlook (token :: tokens) last ↔ token = outlook.2 ∧
      ∃ next supply, TokenSupply.pull outlook.1 = .ok next supply ∧
        Passes (supply, next) tokens last := by
  constructor
  · intro h
    cases h with
    | step hpull h => exact ⟨rfl, _, _, hpull, h⟩
  · rintro ⟨rfl, next, supply, hpull, h⟩
    exact .step hpull h

theorem passes_append_iff {tokens' : List Token} :
    Passes outlook (tokens ++ tokens') last ↔
      ∃ middle, Passes outlook tokens middle ∧ Passes middle tokens' last := by
  induction tokens generalizing outlook with
  | nil => simp [passes_nil_iff]
  | cons token rest ih =>
    simp only [List.cons_append, passes_cons_iff, ih]
    constructor
    · rintro ⟨htoken, next, supply, hpull, middle, hfront, hback⟩
      exact ⟨middle, ⟨htoken, next, supply, hpull, hfront⟩, hback⟩
    · rintro ⟨middle, ⟨htoken, next, supply, hpull, hfront⟩, hback⟩
      exact ⟨htoken, next, supply, hpull, middle, hfront, hback⟩

theorem Passes.append {middle : Outlook σ} {tokens' : List Token}
    (hfront : Passes outlook tokens middle) (hback : Passes middle tokens' last) :
    Passes outlook (tokens ++ tokens') last :=
  passes_append_iff.mpr ⟨middle, hfront, hback⟩

theorem Passes.exists_of_cons {token : Token} (h : Passes outlook (token :: tokens) last) :
    ∃ middle, Passes outlook [token] middle ∧ Passes middle tokens last :=
  passes_append_iff.mp h

theorem Passes.head?_eq (h : Passes outlook tokens last) :
    (tokens ++ [last.2]).head? = some outlook.2 := by
  cases h <;> rfl

/-- A supply that keeps to its bound grants more rounds than it gives tokens. -/
theorem Passes.length_lt_bound [LawfulTokenSupply σ] (h : Passes outlook tokens last)
    (htokens : ∀ token ∈ tokens, token.kind ≠ .endOfInput) :
    tokens.length < TokenSupply.bound outlook.1 := by
  induction h with
  | refl outlook =>
    have htwo := LawfulTokenSupply.two_le_bound outlook.1
    simp only [List.length_nil]
    omega
  | @step supply supply' token next tokens last hpull hrest ih =>
    have hlength : tokens.length < TokenSupply.bound supply' :=
      ih fun t ht ↦ htokens t (List.mem_cons_of_mem _ ht)
    have htwo := LawfulTokenSupply.two_le_bound supply
    simp only [List.length_cons]
    cases hrest with
    | refl =>
      simp only [List.length_nil]
      omega
    | step _ _ =>
      have hkind := htokens next (by simp)
      have hbound := LawfulTokenSupply.bound_lt hpull hkind
      omega

end

namespace Generate

section

variable {α β : Type} {setting : Setting} {state state' : Generator σ}

omit [TokenSupply σ] in
theorem bind_apply (step : Generate σ α) (next : α → Generate σ β) :
    (step >>= next) setting state =
      match step setting state with
      | .ok value state' => next value setting state'
      | .error fault state' => .error fault state' := by
  change EStateM.bind (step setting) (fun value ↦ next value setting) state = _
  unfold EStateM.bind
  cases step setting state <;> rfl

omit [TokenSupply σ] in
theorem bind_of_ok {step : Generate σ α} {next : α → Generate σ β} {value : α}
    (h : step setting state = .ok value state') :
    (step >>= next) setting state = next value setting state' := by
  rw [bind_apply, h]

omit [TokenSupply σ] in
theorem bind_of_error {step : Generate σ α} {next : α → Generate σ β} {fault : Diagnostic}
    (h : step setting state = .error fault state') :
    (step >>= next) setting state = .error fault state' := by
  rw [bind_apply, h]

omit [TokenSupply σ] in
theorem bind_eq_ok_iff {step : Generate σ α} {next : α → Generate σ β} {value : β} :
    (step >>= next) setting state = .ok value state' ↔
      ∃ first middle, step setting state = .ok first middle ∧
        next first setting middle = .ok value state' := by
  rw [bind_apply]
  cases step setting state with
  | ok first middle =>
    constructor
    · intro h
      exact ⟨first, middle, rfl, h⟩
    · rintro ⟨_, _, heq, h⟩
      cases heq
      exact h
  | error fault middle => simp

omit [TokenSupply σ] in
theorem failAt_ne_ok {cause : Cause} {location : Location} {value : α} :
    failAt cause location setting state ≠ .ok value state' := by
  intro h
  cases h

omit [TokenSupply σ] in
theorem unexpected_ne_ok {expected : String} {value : α} :
    unexpected expected setting state ≠ .ok value state' := by
  intro h
  cases h

omit [TokenSupply σ] in
theorem check_apply (expected : Kind) :
    check expected setting state = .ok (decide (state.current.kind = expected)) state := rfl

theorem advance_apply :
    advance setting state =
      match TokenSupply.pull state.supply with
      | .ok token supply => .ok state.current (state.moveTo supply token)
      | .error fault supply => .error fault { state with supply } := by
  have hget : advance setting state =
      (match TokenSupply.pull.run state.supply with
        | .ok token supply => do
          set (state.moveTo supply token)
          return state.current
        | .error fault supply => do
          set { state with supply }
          throw fault : Generate σ Token) setting state := rfl
  rw [hget]
  change (match TokenSupply.pull state.supply with
    | .ok token supply => _
    | .error fault supply => _ : Generate σ Token) setting state = _
  cases TokenSupply.pull state.supply <;> rfl

theorem advance_eq_ok_iff {token : Token} :
    advance setting state = .ok token state' ↔ token = state.current ∧
      ∃ next supply, TokenSupply.pull state.supply = .ok next supply ∧
        state' = state.moveTo supply next := by
  rw [advance_apply]
  cases TokenSupply.pull state.supply with
  | ok next supply =>
    simp only [EStateM.Result.ok.injEq]
    constructor
    · rintro ⟨rfl, rfl⟩
      exact ⟨rfl, next, supply, ⟨rfl, rfl⟩, rfl⟩
    · rintro ⟨rfl, _, _, ⟨rfl, rfl⟩, rfl⟩
      exact ⟨rfl, rfl⟩
  | error fault supply => simp

theorem expect_of_kind {expected : Kind} (h : state.current.kind = expected) :
    expect expected setting state = advance setting state := by
  rw [expect, bind_of_ok (check_apply expected), decide_eq_true h]
  rfl

theorem expect_eq_ok_iff {expected : Kind} {token : Token} :
    expect expected setting state = .ok token state' ↔ state.current.kind = expected ∧
      advance setting state = .ok token state' := by
  by_cases h : state.current.kind = expected
  · simp [expect_of_kind h, h]
  · simp only [h, false_and, iff_false]
    rw [expect, bind_of_ok (check_apply expected), decide_eq_false h]
    exact unexpected_ne_ok

end

end Generate

end TeenyBasic
