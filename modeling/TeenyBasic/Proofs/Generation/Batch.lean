import TeenyBasic.Proofs.Generation.Compilation
import TeenyBasic.Proofs.Generation.Simulation
import TeenyBasic.Proofs.Lexing.Layout

/-!
# Reading all tokens first

A compilation pulls its tokens from the source text one at a time, so a lexical fault comes to light
only when a pull reaches it. It might as well read all tokens first and then run over the list of
them: up to the point where the list gives out, the outcome is the same, and beyond it lies the
lexical fault.

Runs are compared over three supplies: the cursor of the source text, the list of its tokens, and
the cursor with a record of its replies, which shows how often it was asked for a token.

The main statement is `attempt_eq_batch`.
-/

namespace TeenyBasic

/-- The diagnostic of a list that has no token left. -/
def exhausted : Diagnostic :=
  ⟨.stated .other "no token is left" none, none, none⟩

/-- Tokens that are given in their order. Unlike a cursor, a list does not give the end of the input
a second time. -/
instance : TokenSupply (List Token) where
  pull
    | [] => .error exhausted []
    | token :: rest => .ok token rest
  bound tokens := tokens.length + 2

theorem pull_nil : TokenSupply.pull ([] : List Token) = .error exhausted [] := rfl

theorem pull_cons (token : Token) (rest : List Token) :
    TokenSupply.pull (token :: rest) = .ok token rest := rfl

theorem length_of_pull {tokens rest : List Token} {token : Token}
    (h : TokenSupply.pull tokens = .ok token rest) : tokens.length = rest.length + 1 := by
  cases tokens with
  | nil => cases h
  | cons first tail =>
    cases h
    rfl

instance : LawfulTokenSupply (List Token) where
  two_le_bound _ := Nat.le_add_left 2 _
  bound_le h := Nat.add_le_add_right (by rw [length_of_pull h]; exact Nat.le_succ _) 2
  bound_lt h _ := Nat.add_lt_add_right (by rw [length_of_pull h]; exact Nat.lt_succ_self _) 2
  ne_stalled {tokens _ _} h := by
    cases tokens with
    | nil =>
      cases h
      decide
    | cons _ _ => cases h

/-- A supply with all its replies so far. -/
structure Recorded (σ : Type) where
  supply : σ
  replies : List (Except Diagnostic Token)

section

variable {σ : Type} [TokenSupply σ]

instance : TokenSupply (Recorded σ) where
  pull recorded :=
    match TokenSupply.pull recorded.supply with
    | .ok token rest => .ok token ⟨rest, recorded.replies ++ [.ok token]⟩
    | .error fault rest => .error fault ⟨rest, recorded.replies ++ [.error fault]⟩
  bound recorded := TokenSupply.bound recorded.supply

theorem pull_recorded (recorded : Recorded σ) : TokenSupply.pull recorded =
    match TokenSupply.pull recorded.supply with
    | .ok token rest => .ok token ⟨rest, recorded.replies ++ [.ok token]⟩
    | .error fault rest => .error fault ⟨rest, recorded.replies ++ [.error fault]⟩ := rfl

theorem pull_of_recorded {recorded rest : Recorded σ} {token : Token}
    (h : TokenSupply.pull recorded = .ok token rest) :
    TokenSupply.pull recorded.supply = .ok token rest.supply := by
  rw [pull_recorded] at h
  cases hpull : TokenSupply.pull recorded.supply with
  | ok token' rest' =>
    rw [hpull] at h
    cases h
    rfl
  | error fault rest' =>
    rw [hpull] at h
    cases h

instance [LawfulTokenSupply σ] : LawfulTokenSupply (Recorded σ) where
  two_le_bound recorded := LawfulTokenSupply.two_le_bound recorded.supply
  bound_le h := by
    have hpull := pull_of_recorded h
    have hle := LawfulTokenSupply.bound_le hpull
    exact hle
  bound_lt h hkind := by
    have hpull := pull_of_recorded h
    have hlt := LawfulTokenSupply.bound_lt hpull hkind
    exact hlt
  ne_stalled {recorded _ _} h := by
    rw [pull_recorded] at h
    cases hpull : TokenSupply.pull recorded.supply with
    | ok token rest =>
      rw [hpull] at h
      cases h
    | error fault rest =>
      rw [hpull] at h
      cases h
      exact LawfulTokenSupply.ne_stalled hpull

/-- The record changes nothing in the supply. -/
def Correspondence.recording : Correspondence σ (Recorded σ) where
  Related _ supply recorded := recorded.supply = supply
  Fails fault _ fault' _ := fault' = fault
  pull {_ supply recorded} h _ := by
    subst h
    rw [pull_recorded]
    cases TokenSupply.pull recorded.supply <;> simp

end

/-- What a stream has to give to one who asks for all of it. -/
def Cursor.Stream.replies (stream : Cursor.Stream) : List (Except Diagnostic Token) :=
  stream.tokens.map .ok ++ stream.fault.toList.map .error

theorem Cursor.eq_nil_of_replies_stream {c : Cursor} {token : Token}
    {after : List (Except Diagnostic Token)} (hkind : token.kind = .endOfInput) :
    ∀ before, (stream c).replies = before ++ .ok token :: after → after = [] := by
  fun_induction stream c with
  | case1 c fault stop hnext =>
    intro before h
    have hmem : Except.ok token ∈ (Stream.mk [] (some fault) stop).replies := by
      rw [h]
      exact List.mem_append_right _ List.mem_cons_self
    simp [Stream.replies] at hmem
  | case2 c last c' hnext hlast =>
    intro before h
    have hlength := congrArg List.length h
    simp only [Stream.replies, List.map_cons, List.map_nil, Option.toList_none, List.append_nil,
      List.length_cons, List.length_nil, List.length_append] at hlength
    exact List.eq_nil_of_length_eq_zero (by omega)
  | case3 c first c' hnext hfirst later ih =>
    intro before h
    cases before with
    | nil =>
      cases h
      exact absurd hkind hfirst
    | cons reply before => exact ih before (List.cons.inj h).2

/-- A cursor is ahead of a list that holds the tokens of its stream, and its replies so far leave
the rest of them. When the end of the input has come, the list is empty; the cursor could go on. -/
def Correspondence.batch (stream : Cursor.Stream) :
    Correspondence (Recorded Cursor) (List Token) where
  Related kind recorded tokens :=
    (kind ≠ .endOfInput → (Cursor.stream recorded.supply).tokens = tokens ∧
      (Cursor.stream recorded.supply).fault = stream.fault) ∧
    recorded.replies ++ (tokens.map .ok ++ stream.fault.toList.map .error) = stream.replies
  Fails fault recorded fault' _ :=
    stream.fault = some fault ∧ fault' = exhausted ∧ recorded.replies = stream.replies
  pull {_ recorded tokens} h hkind := by
    obtain ⟨hstream, hreplies⟩ := h
    obtain ⟨htokens, hfault⟩ := hstream hkind
    rw [pull_recorded]
    cases hnext : Cursor.next recorded.supply with
    | error fault rest =>
      have hpull : TokenSupply.pull recorded.supply = .error fault rest := hnext
      rw [Cursor.stream_of_error hnext] at htokens hfault
      subst htokens
      rw [← hfault] at hreplies
      simpa [hpull, pull_nil, ← hfault] using hreplies
    | ok token rest =>
      have hpull : TokenSupply.pull recorded.supply = .ok token rest := hnext
      by_cases hend : token.kind = .endOfInput
      · rw [Cursor.stream_of_endOfInput hnext hend] at htokens hfault
        subst htokens
        simpa [hpull, pull_cons, hend] using hreplies
      · rw [Cursor.stream_of_ne_endOfInput hnext hend] at htokens hfault
        subst htokens
        have hlater : (Cursor.stream rest).fault = stream.fault := hfault
        simpa [hpull, pull_cons, hend, hlater] using hreplies

/-- A generator that has not pulled its first token. -/
def Generator.idle {σ : Type} (supply : σ) : Generator σ :=
  ⟨supply, ⟨.newline, "", ⟨"", 0, 0⟩⟩, .empty, .empty, 0, 0, #[]⟩

namespace Options

variable {σ : Type} [TokenSupply σ]

/-- Compiles what a supply gives under a name, as `Options.attempt` does from a cursor. -/
def attemptFrom (options : Options) (supply : σ) (source file : String) : Attempt :=
  let opening := s!"Compiling {file} ({source.length} characters)"
  match Generator.begin supply .empty with
  | .error fault => ⟨[opening], .error fault⟩
  | .ok start =>
    let (state, fault?) := start.run (options.setting source)
    let notes := opening :: state.events.toList.map Event.text
    match fault? with
    | some fault => ⟨notes, .error fault⟩
    | none =>
      let compilation := Compilation.ofGenerator file state
      ⟨notes ++ [compilation.summary], .ok compilation⟩

theorem attempt_eq_attemptFrom (options : Options) (source file : String) :
    options.attempt source file = options.attemptFrom (Cursor.start file source) source file := by
  unfold attempt attemptFrom
  cases Generator.begin (Cursor.start file source) .empty with
  | error fault => rfl
  | ok start =>
    obtain ⟨state, fault⟩ := start.run (options.setting source)
    cases fault <;> rfl

/-- The result of a generator that starts by pulling its first token. -/
def resultFrom (options : Options) (supply : σ) (source : String) :
    EStateM.Result Diagnostic (Generator σ) Unit :=
  (Generate.advance >>= fun _ ↦ Generate.sourceText) (options.setting source) (.idle supply)

end Options

/-- The attempt that a result of a generator stands for. -/
def Attempt.ofResult {σ : Type} (source file : String) :
    EStateM.Result Diagnostic (Generator σ) Unit → Attempt
  | .ok _ state =>
    let compilation := Compilation.ofGenerator file state
    ⟨s!"Compiling {file} ({source.length} characters)" :: state.events.toList.map Event.text ++
      [compilation.summary], .ok compilation⟩
  | .error fault state =>
    ⟨s!"Compiling {file} ({source.length} characters)" :: state.events.toList.map Event.text,
      .error fault⟩

namespace Options

variable {σ : Type} [TokenSupply σ]

theorem attemptFrom_eq_ofResult (options : Options) (supply : σ) (source file : String) :
    options.attemptFrom supply source file =
      .ofResult source file (options.resultFrom supply source) := by
  unfold attemptFrom resultFrom Generator.begin
  rw [Generate.bind_apply, Generate.advance_apply]
  cases hpull : TokenSupply.pull supply with
  | error fault rest =>
    have hfirst : TokenSupply.pull.run supply = .error fault rest := hpull
    have hidle : TokenSupply.pull (Generator.idle supply).supply = .error fault rest := hpull
    simp only [hfirst, hidle]
    rfl
  | ok token rest =>
    have hfirst : TokenSupply.pull.run supply = .ok token rest := hpull
    have hidle : TokenSupply.pull (Generator.idle supply).supply = .ok token rest := hpull
    simp only [hfirst, hidle, Generator.run]
    have hstart : (Generator.idle supply).moveTo rest token =
        ⟨rest, token, .empty, .empty, 0, 1, #[]⟩ := rfl
    rw [hstart]
    cases hresult : Generate.sourceText (options.setting source)
        ⟨rest, token, .empty, .empty, 0, 1, #[]⟩ with
    | ok value state =>
      have hrun : (Generate.sourceText.run (options.setting source)).run
          ⟨rest, token, .empty, .empty, 0, 1, #[]⟩ = .ok value state := hresult
      simp only [hrun]
      rfl
    | error fault state =>
      have hrun : (Generate.sourceText.run (options.setting source)).run
          ⟨rest, token, .empty, .empty, 0, 1, #[]⟩ = .error fault state := hresult
      simp only [hrun]
      rfl

/-- No run over a supply that keeps to its bound ends with that bound. -/
theorem ne_stalled_of_resultFrom [LawfulTokenSupply σ] {options : Options} {supply : σ}
    {source : String} {fault : Diagnostic} {state : Generator σ}
    (h : options.resultFrom supply source = .error fault state) : fault ≠ stalled := by
  rw [resultFrom, Generate.bind_apply, Generate.advance_apply] at h
  cases hpull : TokenSupply.pull (Generator.idle supply).supply with
  | error fault' rest =>
    rw [hpull] at h
    cases h
    exact LawfulTokenSupply.ne_stalled hpull
  | ok token rest =>
    rw [hpull] at h
    exact Generate.ne_stalled_of_sourceText h

/-- The results over supplies that are related before the first pull agree. -/
theorem agrees_resultFrom {τ : Type} [TokenSupply τ] (link : Correspondence σ τ) {supply : σ}
    {supply' : τ} (h : link.Related .newline supply supply') (options : Options)
    (source : String) :
    (link.lockstep (options.setting source)).conduct.Agrees 0
      (options.resultFrom supply source) (options.resultFrom supply' source) := by
  have hrelated : link.Related (Generator.idle supply).current.kind supply supply' := h
  exact Generate.agrees_sourceText link (options.setting source) hrelated (by simp [Generator.idle])

/-- The replies that a compilation gets to its pulls, in their order. -/
def replies (options : Options) (source file : String) : List (Except Diagnostic Token) :=
  match options.resultFrom (Recorded.mk (Cursor.start file source) []) source with
  | .ok _ state | .error _ state => state.supply.replies

/-- Recording the replies does not change the attempt. -/
theorem attemptFrom_recorded (options : Options) (source file : String) :
    options.attemptFrom (Recorded.mk (Cursor.start file source) []) source file =
      options.attempt source file := by
  rw [attempt_eq_attemptFrom, attemptFrom_eq_ofResult, attemptFrom_eq_ofResult]
  have hrelated : Correspondence.recording.Related .newline (Cursor.start file source)
      (Recorded.mk (Cursor.start file source) []) := rfl
  have hagrees := agrees_resultFrom .recording hrelated options source
  generalize hleft : options.resultFrom (Cursor.start file source) source = result at hagrees
  generalize hright : options.resultFrom (Recorded.mk (Cursor.start file source) []) source =
    result' at hagrees
  cases hagrees with
  | ok hholds _ =>
    obtain ⟨_, rfl, _⟩ := hholds
    rfl
  | error hfails =>
    obtain ⟨_, rfl, ⟨rfl, _⟩ | rfl⟩ := hfails <;> rfl
  | stalled_left _ => exact absurd rfl (ne_stalled_of_resultFrom hleft)
  | stalled_right _ => exact absurd rfl (ne_stalled_of_resultFrom hright)

/-- A compilation compared with a run over the tokens of its text: the two are the same and the
replies are some of the stream, or the list of tokens gives out where the lexical fault lies. -/
theorem attempt_or_fault (options : Options) (source file : String) :
    let stream := Cursor.stream (Cursor.start file source)
    let batch := options.attemptFrom stream.tokens source file
    (batch.outcome ≠ .error exhausted ∧ options.attempt source file = batch ∧
      options.replies source file <+: stream.replies) ∨
    (batch.outcome = .error exhausted ∧ options.replies source file = stream.replies ∧
      ∃ fault, stream.fault = some fault ∧ options.compile source file = .error fault) := by
  dsimp only
  rw [compile, ← attemptFrom_recorded, attemptFrom_eq_ofResult, attemptFrom_eq_ofResult, replies]
  have hrelated : (Correspondence.batch (Cursor.stream (Cursor.start file source))).Related
      .newline (Recorded.mk (Cursor.start file source) [])
      (Cursor.stream (Cursor.start file source)).tokens := ⟨fun _ ↦ ⟨rfl, rfl⟩, rfl⟩
  have hagrees := agrees_resultFrom _ hrelated options source
  generalize hleft : options.resultFrom (Recorded.mk (Cursor.start file source) []) source =
    result at hagrees
  generalize hright : options.resultFrom (Cursor.stream (Cursor.start file source)).tokens source =
    result' at hagrees
  cases hagrees with
  | ok hholds _ =>
    obtain ⟨_, rfl, hrelated⟩ := hholds
    exact .inl ⟨by simp [Attempt.ofResult], rfl, _, hrelated.2⟩
  | @error _ fault _ _ hfails =>
    obtain ⟨_, rfl, ⟨rfl, hplace, hrelated⟩ | ⟨hfault, rfl, hreplies⟩⟩ := hfails
    · have hfault : fault ≠ exhausted := fun heq ↦ hplace (by rw [heq]; rfl)
      exact .inl ⟨by simpa [Attempt.ofResult] using hfault, rfl, _, hrelated.2⟩
    · exact .inr ⟨rfl, hreplies, _, hfault, rfl⟩
  | stalled_left _ => exact absurd rfl (ne_stalled_of_resultFrom hleft)
  | stalled_right _ => exact absurd rfl (ne_stalled_of_resultFrom hright)

/-- Reading tokens on demand or all at once. A compilation does what it would do with the list of the
tokens of its text, unless it needs a token beyond that list, and then it fails with the lexical
fault that ends the list. It gets the tokens in the order of the stream and never asks for another
behind the end of the input, so there are no more pulls than tokens if there is no lexical fault; the
number it reports is that of all tokens. -/
theorem attempt_eq_batch (options : Options) (source file : String) :
    let stream := Cursor.stream (Cursor.start file source)
    let batch := options.attemptFrom stream.tokens source file
    let replies := options.replies source file
    (batch.outcome ≠ .error exhausted → options.attempt source file = batch) ∧
    (batch.outcome = .error exhausted →
      ∃ fault, stream.fault = some fault ∧ options.compile source file = .error fault) ∧
    options.attemptFrom (Recorded.mk (Cursor.start file source) []) source file =
      options.attempt source file ∧
    replies <+: stream.tokens.map .ok ++ stream.fault.toList.map .error ∧
    (∀ before token after, replies = before ++ .ok token :: after → token.kind = .endOfInput →
      after = []) ∧
    (stream.fault = none → replies.length ≤ stream.tokens.length) ∧
    ∀ compilation, options.compile source file = .ok compilation →
      compilation.tokenCount = stream.tokens.length := by
  dsimp only
  have hcases := options.attempt_or_fault source file
  have hgiven : options.replies source file <+:
      (Cursor.stream (Cursor.start file source)).replies := by
    rcases hcases with ⟨_, _, hreplies⟩ | ⟨_, hreplies, _⟩
    · exact hreplies
    · exact hreplies ▸ List.prefix_refl _
  refine ⟨?_, ?_, options.attemptFrom_recorded source file, hgiven, ?_, ?_, ?_⟩
  · intro hbatch
    rcases hcases with ⟨_, hsame, _⟩ | ⟨hexhausted, _⟩
    · exact hsame
    · exact absurd hexhausted hbatch
  · intro hexhausted
    rcases hcases with ⟨hbatch, _⟩ | ⟨_, _, hfault⟩
    · exact absurd hexhausted hbatch
    · exact hfault
  · intro before token after hreplies hkind
    obtain ⟨rest, hrest⟩ := hgiven
    rw [hreplies, List.append_assoc, List.cons_append] at hrest
    have hnil := Cursor.eq_nil_of_replies_stream hkind before hrest.symm
    exact (List.append_eq_nil_iff.mp hnil).1
  · intro hfault
    have hlength := hgiven.length_le
    simpa [Cursor.Stream.replies, hfault] using hlength
  · intro compilation hcompile
    obtain ⟨_, _, _, _, _, _, _, rfl⟩ :=
      (compile_eq_ok_iff options source file compilation).mp hcompile
    rfl

/-- A malformed lexeme is reached behind a reserved name, but not behind an undeclared variable. -/
example : (Options.standard.attemptFrom
    (Cursor.stream (.start "" "GOTO int ?")).tokens "GOTO int ?" "").outcome =
      .error exhausted := by
  decide +kernel

example : (Options.standard.attemptFrom
    (Cursor.stream (.start "" "PRINT b ?")).tokens "PRINT b ?" "").outcome =
      .error ⟨.undeclaredVariable "b" [], some ⟨"", 1, 7⟩, some "PRINT b ?"⟩ := by
  decide +kernel

end Options

end TeenyBasic
