import Mathlib.Data.List.TakeWhile
import TeenyBasic.Cursor

/-!
# Spellings of tokens

The kind of a token that has been pulled from a cursor limits its spelling. Keywords, operators and
comparisons have one spelling each, an identifier is a word that is no keyword, a number is a run of
digits that may go on behind a point, and a string holds no character that is forbidden in strings.

The main statement is `wellSpelled_of_next`.
-/

namespace TeenyBasic

namespace Lexeme

theorem isAlphanum_of_isAlpha {c : Char} (h : c.isAlpha = true) : c.isAlphanum = true := by
  simp [Char.isAlphanum, h]

theorem ne_of_isAlphanum {c d : Char} (h : c.isAlphanum = true) (hd : d.isAlphanum = false) :
    c ≠ d := by
  rintro rfl
  rw [h] at hd
  cases hd

theorem isAlpha_of_isDigit {c : Char} (h : c.isDigit = true) : c.isAlpha = false := by
  have hdigit : 48 ≤ c.val.toNat ∧ c.val.toNat ≤ 57 := by
    simpa [Char.isDigit, UInt32.le_iff_toNat_le] using h
  have hupper : ¬ (65 ≤ c.val.toNat ∧ c.val.toNat ≤ 90) := by omega
  have hlower : ¬ (97 ≤ c.val.toNat ∧ c.val.toNat ≤ 122) := by omega
  delta Char.isAlpha Char.isUpper Char.isLower
  simpa [UInt32.le_iff_toNat_le] using And.intro hupper hlower

theorem takeWhile_append_of_stops {α : Type} {p : α → Bool} {body rest : List α}
    (hbody : ∀ c ∈ body, p c = true) (hrest : ∀ c ∈ rest.head?, p c = false) :
    (body ++ rest).takeWhile p = body := by
  rw [List.takeWhile_append_of_pos hbody]
  cases rest with
  | nil => simp
  | cons c tail => simp [hrest c (by simp)]

theorem dropWhile_append_of_stops {α : Type} {p : α → Bool} {body rest : List α}
    (hbody : ∀ c ∈ body, p c = true) (hrest : ∀ c ∈ rest.head?, p c = false) :
    (body ++ rest).dropWhile p = rest := by
  rw [List.dropWhile_append_of_pos hbody]
  cases rest with
  | nil => rfl
  | cons c tail => simp [hrest c (by simp)]

/-- One digit or more. -/
def IsDigits (text : List Char) : Prop :=
  text ≠ [] ∧ ∀ c ∈ text, c.isDigit = true

instance : DecidablePred IsDigits := fun text ↦
  decidable_of_iff (text ≠ [] ∧ text.all Char.isDigit = true) (by rw [IsDigits, List.all_eq_true])

/-- Digits, and perhaps a point with further digits. -/
def IsNumeral (text : List Char) : Prop :=
  IsDigits text ∨ ∃ whole fraction, IsDigits whole ∧ IsDigits fraction ∧
    text = whole ++ '.' :: fraction

/-- A letter with letters and digits behind it. -/
def IsWord (text : List Char) : Prop :=
  ∃ first rest, text = first :: rest ∧ first.isAlpha = true ∧ ∀ c ∈ rest, c.isAlphanum = true

theorem isWord_cons_iff (first : Char) (rest : List Char) :
    IsWord (first :: rest) ↔ first.isAlpha = true ∧ ∀ c ∈ rest, c.isAlphanum = true := by
  constructor
  · rintro ⟨first', rest', heq, hword⟩
    cases heq
    exact hword
  · intro hword
    exact ⟨first, rest, rfl, hword⟩

theorem isAlphanum_of_isWord {word : List Char} (h : IsWord word) :
    ∀ c ∈ word, c.isAlphanum = true := by
  obtain ⟨first, rest, rfl, hfirst, hrest⟩ := h
  simpa [isAlphanum_of_isAlpha hfirst] using hrest

theorem exists_digit_of_isNumeral {text : List Char} (h : IsNumeral text) :
    ∃ first tail, text = first :: tail ∧ first.isDigit = true ∧
      ∀ c ∈ tail, c.isDigit = true ∨ c = '.' := by
  rcases h with ⟨hne, hdigits⟩ | ⟨whole, fraction, ⟨hne, hwhole⟩, ⟨_, hfraction⟩, rfl⟩
  · obtain ⟨first, tail, rfl⟩ := List.exists_cons_of_ne_nil hne
    exact ⟨first, tail, rfl, hdigits first List.mem_cons_self,
      fun c hc ↦ Or.inl (hdigits c (List.mem_cons_of_mem _ hc))⟩
  · obtain ⟨first, tail, rfl⟩ := List.exists_cons_of_ne_nil hne
    have hparts : ∀ c ∈ tail ++ '.' :: fraction, c.isDigit = true ∨ c = '.' := by
      intro c hc
      rcases List.mem_append.mp hc with hc | hc
      · exact Or.inl (hwhole c (List.mem_cons_of_mem _ hc))
      · rcases List.mem_cons.mp hc with hc | hc
        · exact Or.inr hc
        · exact Or.inl (hfraction c hc)
    exact ⟨first, _, rfl, hwhole first List.mem_cons_self, hparts⟩

instance : DecidablePred IsWord
  | [] => .isFalse (by simp [IsWord])
  | first :: rest => decidable_of_iff
    (first.isAlpha = true ∧ rest.all Char.isAlphanum = true) (by
      rw [isWord_cons_iff, List.all_eq_true])

end Lexeme

/-- The spelling of a token is one that its kind allows. -/
def Token.WellSpelled (token : Token) : Prop :=
  match token.kind with
  | .endOfInput => token.spelling = ""
  | .newline => token.spelling = "\n"
  | .number => Lexeme.IsNumeral token.spelling.toList
  | .identifier =>
    Lexeme.IsWord token.spelling.toList ∧ ∀ keyword : Keyword, keyword.spelling ≠ token.spelling
  | .string => ∀ c ∈ token.spelling.toList, Lexeme.isStringText c = true
  | .keyword word => token.spelling = word.spelling
  | .operator sign => token.spelling = sign.symbol
  | .comparison sign => token.spelling = sign.symbol

/-- A token as it stands before the end of an input. -/
structure Token.IsInner (token : Token) : Prop where
  wellSpelled : token.WellSpelled
  ne_endOfInput : token.kind ≠ .endOfInput

section

variable {token : Token}

theorem Token.WellSpelled.operator {sign : Operator} (h : token.WellSpelled)
    (hkind : token.kind = .operator sign) : token.spelling = sign.symbol := by
  simpa [Token.WellSpelled, hkind] using h

theorem Token.WellSpelled.comparison {sign : Comparison} (h : token.WellSpelled)
    (hkind : token.kind = .comparison sign) : token.spelling = sign.symbol := by
  simpa [Token.WellSpelled, hkind] using h

theorem Token.WellSpelled.number (h : token.WellSpelled) (hkind : token.kind = .number) :
    Lexeme.IsNumeral token.spelling.toList := by
  simpa [Token.WellSpelled, hkind] using h

theorem Token.WellSpelled.identifier (h : token.WellSpelled) (hkind : token.kind = .identifier) :
    Lexeme.IsWord token.spelling.toList := by
  have hword : Lexeme.IsWord token.spelling.toList ∧
      ∀ keyword : Keyword, keyword.spelling ≠ token.spelling := by
    simpa [Token.WellSpelled, hkind] using h
  exact hword.1

theorem Token.WellSpelled.string (h : token.WellSpelled) (hkind : token.kind = .string) :
    ∀ c ∈ token.spelling.toList, Lexeme.isStringText c = true := by
  simpa [Token.WellSpelled, hkind] using h

end

namespace Lexeme

/-- A reading that gives a lexeme gives one that is spelled as its kind allows. -/
def Reading.Spells (reading : Reading) : Prop :=
  ∀ kind spelling length location, reading = .lexeme kind spelling length →
    Token.WellSpelled ⟨kind, String.ofList spelling, location⟩

theorem spells_fault (cause : Cause) (offset : Nat) : (Reading.fault cause offset).Spells := by
  intro kind spelling length location h
  cases h

theorem spells_scanString (rest : List Char) : (scanString rest).Spells := by
  unfold scanString
  dsimp only
  split
  · exact spells_fault _ _
  · split
    · intro kind spelling length location h
      cases h
      intro c hc
      rw [String.toList_ofList] at hc
      exact List.mem_takeWhile_imp hc
    · exact spells_fault _ _

theorem isDigits_takeWhile {first : Char} (rest : List Char) (h : first.isDigit = true) :
    IsDigits ((first :: rest).takeWhile Char.isDigit) := by
  constructor
  · simp [h]
  · intro c hc
    exact List.mem_takeWhile_imp hc

theorem spells_scanNumber {first : Char} {rest : List Char} (hfirst : first.isDigit = true) :
    (scanNumber (first :: rest)).Spells := by
  have hwhole := isDigits_takeWhile rest hfirst
  unfold scanNumber
  dsimp only
  split
  · rename_i tail htail
    split
    · exact spells_fault _ _
    · rename_i hfraction
      intro kind spelling length location h
      cases h
      have hdigits : IsDigits (tail.takeWhile Char.isDigit) :=
        ⟨by simpa using hfraction, fun c hc ↦ List.mem_takeWhile_imp hc⟩
      right
      exact ⟨_, _, hwhole, hdigits, by rw [String.toList_ofList]⟩
  · intro kind spelling length location h
    cases h
    left
    rw [String.toList_ofList]
    exact hwhole

theorem spells_scanWord {first : Char} {rest : List Char} (hfirst : first.isAlpha = true) :
    (scanWord (first :: rest)).Spells := by
  intro kind spelling length location h
  have halphanum : first.isAlphanum = true := by simp [Char.isAlphanum, hfirst]
  have hword : (first :: rest).takeWhile Char.isAlphanum =
      first :: rest.takeWhile Char.isAlphanum := by simp [halphanum]
  unfold scanWord at h
  rw [hword] at h
  cases h
  unfold wordKind
  cases hkeyword : Keyword.ofSpelling? (String.ofList (first :: rest.takeWhile Char.isAlphanum)) with
  | some keyword => exact ((Keyword.ofSpelling?_eq_some_iff _ _).mp hkeyword).symm
  | none =>
    have hother : ∀ keyword : Keyword,
        keyword.spelling ≠ String.ofList (first :: rest.takeWhile Char.isAlphanum) := by
      intro keyword hspelling
      rw [← Keyword.ofSpelling?_eq_some_iff, hkeyword] at hspelling
      cases hspelling
    exact ⟨⟨first, _, String.toList_ofList, hfirst, fun c hc ↦ List.mem_takeWhile_imp hc⟩, hother⟩

theorem spells_scanSymbol (first : Char) (rest : List Char) : (scanSymbol first rest).Spells := by
  intro kind spelling length location h
  unfold scanSymbol at h
  split at h <;> cases h <;> rfl

theorem spells_scan (text : List Char) : (scan text).Spells := by
  unfold scan
  split
  · intro kind spelling length location h
    cases h
    rfl
  · split
    · intro kind spelling length location h
      cases h
      rfl
    split
    · exact spells_scanString _
    split
    · rename_i hdigit
      exact spells_scanNumber hdigit
    split
    · rename_i halpha
      exact spells_scanWord halpha
    · exact spells_scanSymbol _ _

end Lexeme

theorem Cursor.wellSpelled_of_next {c c' : Cursor} {token : Token} (h : next c = .ok token c') :
    token.WellSpelled := by
  simp only [next, take] at h
  split at h
  · rename_i kind spelling length hscan
    cases h
    exact Lexeme.spells_scan _ _ _ _ _ hscan
  · cases h

end TeenyBasic
