import TeenyBasic.Proofs.Source.Grammar

/-!
# Completing the beginning of a program

The kinds read so far are viable if they can be completed to a program. A reader that knows the
kinds read and the kind it looks at need not know all completions: it is enough to know a language
whose words are completions and that misses none of those that start with the kind looked at. Such a
language is said to be ahead. It may be narrowed wherever the kind looked at decides between
alternatives, and it loses its first part when the reader moves on.

The languages of statements are brought into the form in which a reader goes through them: a keyword
chooses what follows it, and statements are repeated.
-/

open scoped Computability

namespace TeenyBasic.Grammar

/-- The kinds that the words of a language start with. -/
def first (l : Language Kind) : Set Kind := {kind | ∃ rest, kind :: rest ∈ l}

/-- Some word belongs to a language. -/
def HasWord (l : Language Kind) : Prop := ∃ word, word ∈ l

/-- The language of the single kinds that pass a test. -/
def oneOf (test : Kind → Bool) : Language Kind := {word | ∃ kind, test kind = true ∧ word = [kind]}

section

variable {l m : Language Kind} {kind : Kind} {rest : List Kind}

theorem mem_oneOf {test : Kind → Bool} {word : List Kind} :
    word ∈ oneOf test ↔ ∃ kind, test kind = true ∧ word = [kind] :=
  Iff.rfl

theorem only_eq_oneOf (expected : Kind) : only expected = oneOf (· = expected) := by
  ext word
  rw [mem_oneOf]
  constructor
  · intro h
    exact ⟨expected, by simp, h⟩
  · rintro ⟨kind, hkind, rfl⟩
    obtain rfl : kind = expected := by simpa using hkind
    rfl

theorem primary_eq_oneOf : primary = oneOf fun kind ↦ kind = .number || kind = .identifier := by
  ext word
  rw [primary, Language.mem_add, mem_oneOf]
  constructor
  · rintro (h | h) <;> exact ⟨_, rfl, h⟩
  · rintro ⟨kind, hkind, rfl⟩
    simp only [Bool.or_eq_true, decide_eq_true_iff] at hkind
    rcases hkind with rfl | rfl
    · exact Or.inl rfl
    · exact Or.inr rfl

theorem sign_eq_oneOf : sign = oneOf Kind.isAdditive := by
  ext word
  rw [sign, Language.mem_add, mem_oneOf]
  constructor
  · rintro (h | h) <;> exact ⟨_, rfl, h⟩
  · rintro ⟨kind, hkind, rfl⟩
    unfold Kind.isAdditive at hkind
    split at hkind
    · exact Or.inl rfl
    · exact Or.inr rfl
    · cases hkind

theorem scaling_eq_oneOf :
    only (.operator .times) + only (.operator .divide) = oneOf Kind.isMultiplicative := by
  ext word
  rw [Language.mem_add, mem_oneOf]
  constructor
  · rintro (h | h) <;> exact ⟨_, rfl, h⟩
  · rintro ⟨kind, hkind, rfl⟩
    unfold Kind.isMultiplicative at hkind
    split at hkind
    · exact Or.inl rfl
    · exact Or.inr rfl
    · cases hkind

theorem relation_eq_oneOf : relation = oneOf Kind.isComparison := by
  ext word
  simp only [relation, Language.mem_add, mem_oneOf]
  constructor
  · rintro (((((h | h) | h) | h) | h) | h) <;> exact ⟨_, rfl, h⟩
  · rintro ⟨kind, hkind, rfl⟩
    unfold Kind.isComparison at hkind
    split at hkind
    · rename_i comparison
      have hsame : [Kind.comparison comparison] ∈ only (.comparison comparison) := rfl
      cases comparison <;> simp [hsame]
    · cases hkind

theorem cons_mem_oneOf_mul {test : Kind → Bool} :
    kind :: rest ∈ oneOf test * l ↔ test kind = true ∧ rest ∈ l := by
  constructor
  · intro h
    obtain ⟨_, ⟨kind', hkind, rfl⟩, back, hback, heq⟩ := Language.mem_mul.mp h
    obtain ⟨rfl, rfl⟩ := List.cons.inj heq
    exact ⟨hkind, hback⟩
  · rintro ⟨hkind, hrest⟩
    have hkinds : [kind] ∈ oneOf test := ⟨kind, hkind, rfl⟩
    exact Language.append_mem_mul hkinds hrest

theorem cons_mem_only_mul {expected : Kind} :
    kind :: rest ∈ only expected * l ↔ kind = expected ∧ rest ∈ l := by
  rw [only_eq_oneOf, cons_mem_oneOf_mul, decide_eq_true_iff]

/-- A word of a repetition in front of another language starts with the first round, or there is no
round. -/
theorem cons_mem_kstar_mul (h : kind :: rest ∈ l∗ * m) :
    kind :: rest ∈ m ∨ kind ∈ first l ∧ kind :: rest ∈ l * (l∗ * m) := by
  obtain ⟨front, hfront, back, hback, heq⟩ := Language.mem_mul.mp h
  obtain ⟨pieces, rfl, hpieces⟩ := Language.mem_kstar_iff_exists_nonempty.mp hfront
  cases pieces with
  | nil => exact Or.inl (heq ▸ hback)
  | cons piece pieces =>
    obtain ⟨hpiece, hne⟩ := hpieces piece List.mem_cons_self
    have hothers : pieces.flatten ∈ l∗ :=
      Language.join_mem_kstar fun p hp ↦ (hpieces p (List.mem_cons_of_mem _ hp)).1
    cases piece with
    | nil => exact absurd rfl hne
    | cons kind' piece =>
      rw [List.flatten_cons, List.append_assoc] at heq
      obtain ⟨rfl, _⟩ := List.cons.inj heq
      refine Or.inr ⟨⟨piece, hpiece⟩, ?_⟩
      rw [← heq]
      exact Language.append_mem_mul hpiece (Language.append_mem_mul hothers hback)

theorem mul_kstar_mul_subset {word : List Kind} (h : word ∈ l * (l∗ * m)) : word ∈ l∗ * m := by
  obtain ⟨front, hfront, back, hback, rfl⟩ := Language.mem_mul.mp h
  obtain ⟨rounds, hrounds, last, hlast, rfl⟩ := Language.mem_mul.mp hback
  rw [← List.append_assoc]
  exact Language.append_mem_mul (append_mem_kstar hfront hrounds) hlast

theorem mem_kstar_mul {word : List Kind} (h : word ∈ m) : word ∈ l∗ * m :=
  Language.append_mem_mul (Language.nil_mem_kstar l) h

theorem first_oneOf_mul {test : Kind → Bool} (h : kind ∈ first (oneOf test * l)) :
    test kind = true := by
  obtain ⟨rest, hrest⟩ := h
  exact (cons_mem_oneOf_mul.mp hrest).1

theorem mem_first_oneOf_mul {test : Kind → Bool} (hkind : test kind = true)
    (hl : HasWord l) : kind ∈ first (oneOf test * l) := by
  obtain ⟨rest, hrest⟩ := hl
  exact ⟨rest, cons_mem_oneOf_mul.mpr ⟨hkind, hrest⟩⟩

theorem first_only_mul {expected : Kind} (h : kind ∈ first (only expected * l)) :
    kind = expected := by
  obtain ⟨rest, hrest⟩ := h
  exact (cons_mem_only_mul.mp hrest).1

theorem mem_first_only_mul (kind : Kind) (hl : HasWord l) : kind ∈ first (only kind * l) := by
  obtain ⟨rest, hrest⟩ := hl
  exact ⟨rest, cons_mem_only_mul.mpr ⟨rfl, hrest⟩⟩

theorem mem_first_add : kind ∈ first (l + m) ↔ kind ∈ first l ∨ kind ∈ first m := by
  constructor
  · rintro ⟨rest, hrest | hrest⟩
    · exact Or.inl ⟨rest, hrest⟩
    · exact Or.inr ⟨rest, hrest⟩
  · rintro (⟨rest, hrest⟩ | ⟨rest, hrest⟩)
    · exact ⟨rest, Or.inl hrest⟩
    · exact ⟨rest, Or.inr hrest⟩

theorem first_kstar_mul (h : kind ∈ first (l∗ * m)) : kind ∈ first l ∨ kind ∈ first m := by
  obtain ⟨rest, hrest⟩ := h
  rcases cons_mem_kstar_mul hrest with hlast | ⟨hround, _⟩
  · exact Or.inr ⟨rest, hlast⟩
  · exact Or.inl hround

theorem hasWord_only (kind : Kind) : HasWord (only kind) := ⟨[kind], rfl⟩

theorem hasWord_kstar (l : Language Kind) : HasWord l∗ := ⟨[], Language.nil_mem_kstar l⟩

theorem HasWord.mul (hl : HasWord l) (hm : HasWord m) : HasWord (l * m) := by
  obtain ⟨front, hfront⟩ := hl
  obtain ⟨back, hback⟩ := hm
  exact ⟨front ++ back, Language.append_mem_mul hfront hback⟩

theorem HasWord.add (hl : HasWord l) (m : Language Kind) : HasWord (l + m) := by
  obtain ⟨word, hword⟩ := hl
  exact ⟨word, Or.inl hword⟩

theorem HasWord.of_mul (h : HasWord (l * m)) : HasWord m := by
  obtain ⟨_, h⟩ := h
  obtain ⟨_, _, back, hback, _⟩ := Language.mem_mul.mp h
  exact ⟨back, hback⟩

theorem unary_mul (l : Language Kind) :
    unary * l = primary * l + oneOf Kind.isAdditive * (primary * l) := by
  rw [unary, mul_assoc, add_mul, one_mul, sign_eq_oneOf]

theorem first_primary_mul (h : kind ∈ first (primary * l)) :
    kind = .number ∨ kind = .identifier := by
  rw [primary_eq_oneOf] at h
  simpa using first_oneOf_mul h

theorem first_expression_mul (h : kind ∈ first (expression * l)) :
    kind = .number ∨ kind = .identifier ∨ kind.isAdditive = true := by
  rw [expression, term, mul_assoc, mul_assoc, unary_mul, mem_first_add] at h
  rcases h with hprimary | hsign
  · exact (first_primary_mul hprimary).imp_right Or.inl
  · exact Or.inr (Or.inr (first_oneOf_mul hsign))

end

def statement : Language Kind := {word | IsStatement word}

theorem mem_kstar_of_areStatements : {word : List Kind} → AreStatements word → word ∈ statement∗
  | _, .nil => Language.nil_mem_kstar _
  | _, .cons hfront hback => append_mem_kstar hfront (mem_kstar_of_areStatements hback)

theorem statements_eq_kstar : statements = statement∗ := by
  ext word
  constructor
  · exact mem_kstar_of_areStatements
  · intro h
    obtain ⟨pieces, rfl, hpieces⟩ := Language.mem_kstar.mp h
    clear h
    induction pieces with
    | nil => exact .nil
    | cons piece pieces ih =>
      have hrest := ih fun p hp ↦ hpieces p (List.mem_cons_of_mem _ hp)
      exact .cons (hpieces piece List.mem_cons_self) hrest

/-- What follows the keyword of a statement up to the end of its line; keywords that start no
statement are followed by nothing. -/
def following : Keyword → Language Kind
  | .PRINT => expression + only .string
  | .IF => comparison * (word .THEN * (lines * (statements * word .ENDIF)))
  | .WHILE => comparison * (word .REPEAT * (lines * (statements * word .ENDWHILE)))
  | .LABEL | .GOTO | .INPUT => only .identifier
  | .LET => only .identifier * (only (.operator .assign) * expression)
  | _ => 0

theorem following_block (form : Source.BlockForm) : following form.opening =
    comparison * (word form.middle * (lines * (statements * word form.closing))) := by
  cases form <;> rfl

theorem mem_block_iff (form : Source.BlockForm) {kinds : List Kind} :
    kinds ∈ word form.opening * (following form.opening * lines) ↔
      ∃ front body back, kinds = front ++ body ++ back ∧
        front ∈ word form.opening * comparison * word form.middle * lines ∧ AreStatements body ∧
        back ∈ word form.closing * lines := by
  have hparts : word form.opening * (following form.opening * lines) =
      word form.opening * comparison * word form.middle * lines * statements *
        (word form.closing * lines) := by
    simp only [following_block, mul_assoc]
  rw [hparts]
  constructor
  · intro h
    obtain ⟨inner, hinner, back, hback, rfl⟩ := Language.mem_mul.mp h
    obtain ⟨front, hfront, body, hbody, rfl⟩ := Language.mem_mul.mp hinner
    exact ⟨front, body, back, rfl, hfront, hbody, hback⟩
  · rintro ⟨front, body, back, rfl, hfront, hbody, hback⟩
    have hbody' : body ∈ statements := hbody
    exact Language.append_mem_mul (Language.append_mem_mul hfront hbody') hback

theorem mem_statement_iff {kinds : List Kind} :
    kinds ∈ statement ↔ ∃ keyword, kinds ∈ word keyword * (following keyword * lines) := by
  constructor
  · intro h
    cases h with
    | print h => exact ⟨.PRINT, by rwa [← mul_assoc]⟩
    | conditional hfront hbody hback =>
      exact ⟨.IF, (mem_block_iff .conditional).mpr ⟨_, _, _, rfl, hfront, hbody, hback⟩⟩
    | loop hfront hbody hback =>
      exact ⟨.WHILE, (mem_block_iff .loop).mpr ⟨_, _, _, rfl, hfront, hbody, hback⟩⟩
    | label h => exact ⟨.LABEL, by rwa [← mul_assoc]⟩
    | jump h => exact ⟨.GOTO, by rwa [← mul_assoc]⟩
    | assign h => exact ⟨.LET, by simpa only [following, mul_assoc] using h⟩
    | input h => exact ⟨.INPUT, by rwa [← mul_assoc]⟩
  · rintro ⟨keyword, h⟩
    cases keyword with
    | PRINT => exact .print (by rwa [mul_assoc])
    | IF =>
      obtain ⟨front, body, back, rfl, hfront, hbody, hback⟩ := (mem_block_iff .conditional).mp h
      exact .conditional hfront hbody hback
    | WHILE =>
      obtain ⟨front, body, back, rfl, hfront, hbody, hback⟩ := (mem_block_iff .loop).mp h
      exact .loop hfront hbody hback
    | LABEL => exact .label (by rwa [mul_assoc])
    | GOTO => exact .jump (by rwa [mul_assoc])
    | LET => exact .assign (by simpa only [following, mul_assoc] using h)
    | INPUT => exact .input (by rwa [mul_assoc])
    | _ => simp [following] at h

/-- The keywords that start a statement. -/
def starters : List Keyword := [.LABEL, .GOTO, .PRINT, .INPUT, .LET, .IF, .WHILE]

theorem cons_mem_statement_mul {kind : Kind} {rest : List Kind} {l : Language Kind}
    (h : kind :: rest ∈ statement * l) :
    ∃ keyword ∈ starters, kind = .keyword keyword ∧
      kind :: rest ∈ word keyword * (following keyword * (lines * l)) := by
  obtain ⟨front, hfront, back, hback, heq⟩ := Language.mem_mul.mp h
  obtain ⟨keyword, hkeyword⟩ := mem_statement_iff.mp hfront
  have hall := Language.append_mem_mul hkeyword hback
  rw [heq, mul_assoc, mul_assoc] at hall
  obtain ⟨rfl, hrest⟩ := cons_mem_only_mul.mp hall
  refine ⟨keyword, ?_, rfl, hall⟩
  by_contra hstarter
  have hzero : following keyword = 0 := by
    cases keyword <;> first | rfl | exact absurd (by decide) hstarter
  rw [hzero, zero_mul] at hrest
  exact hrest

theorem hasWord_unary : HasWord unary := by
  have hsign : HasWord (1 + sign) := ⟨[], Or.inl rfl⟩
  exact hsign.mul ((hasWord_only .number).add _)

theorem hasWord_term : HasWord term := hasWord_unary.mul (hasWord_kstar _)

theorem hasWord_expression : HasWord expression := hasWord_term.mul (hasWord_kstar _)

theorem hasWord_relation : HasWord relation := by
  unfold relation
  exact (((((hasWord_only _).add _).add _).add _).add _).add _

theorem hasWord_comparison : HasWord comparison :=
  hasWord_expression.mul ((hasWord_relation.mul hasWord_expression).mul (hasWord_kstar _))

theorem hasWord_lines : HasWord lines := (hasWord_only _).mul (hasWord_kstar _)

theorem hasWord_statements : HasWord statements := ⟨[], .nil⟩

theorem hasWord_following {keyword : Keyword} (h : keyword ∈ starters) :
    HasWord (following keyword) := by
  have hblock (form : Source.BlockForm) : HasWord (following form.opening) := by
    rw [following_block]
    have hbody := hasWord_statements.mul (hasWord_only (.keyword form.closing))
    exact hasWord_comparison.mul ((hasWord_only _).mul (hasWord_lines.mul hbody))
  cases keyword with
  | PRINT => exact hasWord_expression.add _
  | IF => exact hblock .conditional
  | WHILE => exact hblock .loop
  | LABEL => exact hasWord_only _
  | GOTO => exact hasWord_only _
  | INPUT => exact hasWord_only _
  | LET => exact (hasWord_only _).mul ((hasWord_only _).mul hasWord_expression)
  | _ => simp [starters] at h

theorem word_mul_following_le {keyword : Keyword} {kinds : List Kind} {l : Language Kind}
    (h : kinds ∈ word keyword * (following keyword * (lines * l))) : kinds ∈ statement * l := by
  rw [← mul_assoc, ← mul_assoc, mul_assoc (word keyword)] at h
  obtain ⟨front, hfront, back, hback, rfl⟩ := Language.mem_mul.mp h
  exact Language.append_mem_mul (mem_statement_iff.mpr ⟨keyword, hfront⟩) hback

theorem hasWord_statement : HasWord statement := by
  obtain ⟨kinds, h⟩ := (hasWord_only (.keyword .LABEL)).mul
    ((hasWord_following (by decide : Keyword.LABEL ∈ starters)).mul hasWord_lines)
  exact ⟨kinds, mem_statement_iff.mpr ⟨.LABEL, h⟩⟩

/-! ## Beginnings of programs -/

/-- Kinds that can be completed to a program. -/
def Viable (read : List Kind) : Prop := ∃ rest, read ++ rest ∈ program

theorem Viable.endOfInput_not_mem {read : List Kind} {kind : Kind} (h : Viable (read ++ [kind])) :
    .endOfInput ∉ read := by
  obtain ⟨rest, hrest⟩ := h
  obtain ⟨inner, last, hlast⟩ : ∃ inner last, kind :: rest = inner ++ [last] :=
    ⟨_, _, (List.dropLast_append_getLast (List.cons_ne_nil kind rest)).symm⟩
  rw [List.append_assoc, List.singleton_append, hlast, ← List.append_assoc] at hrest
  -- Any kinds are the kinds of some tokens, so what is known of derived tokens applies.
  let tokenOf (kind : Kind) : Token := ⟨kind, "", default⟩
  have hkinds (words : List Kind) : kinds (words.map tokenOf) = words := by
    rw [kinds, List.map_map]
    exact List.map_id words
  rw [← hkinds (read ++ inner ++ [last]), mem_program_iff, List.map_append] at hrest
  obtain ⟨tree, htree⟩ := hrest
  have hinside := (Source.Program.Derives.inside htree).1
  intro hmem
  exact hinside (tokenOf .endOfInput) (List.mem_map_of_mem (List.mem_append_left _ hmem)) rfl

/-- Behind the kinds read, the words of a language complete programs, and none is missing of those
that start with the next kind. -/
structure Ahead (rest : Language Kind) (read : List Kind) (next : Kind) : Prop where
  hasWord : HasWord rest
  append_mem : ∀ word ∈ rest, read ++ word ∈ program
  cons_mem : ∀ word, read ++ next :: word ∈ program → next :: word ∈ rest

theorem hasWord_program : HasWord program :=
  ((hasWord_kstar _).mul hasWord_statements).mul (hasWord_only _)

theorem ahead_nil (next : Kind) : Ahead program [] next :=
  ⟨hasWord_program, fun _ h ↦ h, fun _ h ↦ h⟩

namespace Ahead

variable {read : List Kind} {next : Kind} {rest l m : Language Kind}

theorem viable (h : Ahead rest read next) : Viable read := by
  obtain ⟨word, hword⟩ := h.hasWord
  exact ⟨word, h.append_mem word hword⟩

theorem viable_concat (h : Ahead rest read next) {kind : Kind} (hkind : kind ∈ first rest) :
    Viable (read ++ [kind]) := by
  obtain ⟨word, hword⟩ := hkind
  refine ⟨word, ?_⟩
  simpa using h.append_mem _ hword

theorem not_viable_concat (h : Ahead rest read next) (hnext : next ∉ first rest) :
    ¬ Viable (read ++ [next]) := by
  rintro ⟨word, hword⟩
  exact hnext ⟨word, h.cons_mem word (by simpa using hword)⟩

/-- The language ahead may lose words, as long as they do not start with the next kind. -/
theorem narrow (h : Ahead rest read next) (hl : HasWord l) (hsub : ∀ word ∈ l, word ∈ rest)
    (hnext : ∀ word, next :: word ∈ rest → next :: word ∈ l) : Ahead l read next where
  hasWord := hl
  append_mem word hword := h.append_mem word (hsub word hword)
  cons_mem word hword := hnext word (h.cons_mem word hword)

theorem of_add_left (h : Ahead (l + m) read next) (hl : HasWord l) (hnext : next ∉ first m) :
    Ahead l read next := by
  refine h.narrow hl (fun word hword ↦ Or.inl hword) fun word hword ↦ ?_
  rcases hword with hword | hword
  · exact hword
  · exact absurd ⟨word, hword⟩ hnext

theorem of_add_right (h : Ahead (l + m) read next) (hm : HasWord m) (hnext : next ∉ first l) :
    Ahead m read next := by
  rw [add_comm] at h
  exact h.of_add_left hm hnext

/-- A repetition in front of a language goes round once more if the next kind starts nothing
behind it. -/
theorem of_kstar_step (h : Ahead (l∗ * m) read next) (hl : HasWord l) (hnext : next ∉ first m) :
    Ahead (l * (l∗ * m)) read next := by
  refine h.narrow (hl.mul h.hasWord) (fun _ ↦ mul_kstar_mul_subset) fun word hword ↦ ?_
  rcases cons_mem_kstar_mul hword with hlast | ⟨_, hround⟩
  · exact absurd ⟨word, hlast⟩ hnext
  · exact hround

theorem of_kstar_stop (h : Ahead (l∗ * m) read next) (hnext : next ∉ first l) :
    Ahead m read next := by
  refine h.narrow h.hasWord.of_mul (fun _ ↦ mem_kstar_mul) fun word hword ↦ ?_
  rcases cons_mem_kstar_mul hword with hlast | ⟨hround, _⟩
  · exact hlast
  · exact absurd hround hnext

theorem of_statement {keyword : Keyword} (h : Ahead (statement * l) read (.keyword keyword))
    (hkeyword : keyword ∈ starters) :
    Ahead (word keyword * (following keyword * (lines * l))) read (.keyword keyword) := by
  have hword := (hasWord_only (.keyword keyword)).mul
    ((hasWord_following hkeyword).mul (hasWord_lines.mul h.hasWord.of_mul))
  refine h.narrow hword (fun _ ↦ word_mul_following_le) fun word hstatement ↦ ?_
  obtain ⟨keyword', _, heq, hall⟩ := cons_mem_statement_mul hstatement
  obtain rfl : keyword = keyword' := by simpa using heq
  exact hall

/-- Behind the next kind, what followed it is ahead of whatever comes then. -/
theorem move {test : Kind → Bool} (h : Ahead (oneOf test * rest) read next)
    (hnext : test next = true) (next' : Kind) : Ahead rest (read ++ [next]) next' where
  hasWord := h.hasWord.of_mul
  append_mem word hword := by
    have hall := h.append_mem (next :: word) (cons_mem_oneOf_mul.mpr ⟨hnext, hword⟩)
    simpa using hall
  cons_mem word hword := by
    have hall := h.cons_mem (next' :: word) (by simpa using hword)
    exact (cons_mem_oneOf_mul.mp hall).2

end Ahead

end TeenyBasic.Grammar
