import TeenyBasic.Proofs.Lexing.Layout

/-!
# Lexical faults

Where no lexeme can be read there is one of three faults: a character that starts no lexeme, a
character that may not stand in a string, or a decimal point without a fraction.
-/

namespace TeenyBasic

namespace Lexeme

/-- The fault at the front of a text and the number of characters before it. -/
inductive FaultsAt : List Char → Cause → Nat → Prop
  /-- A character starts no lexeme. -/
  | unsupported {c : Char} {rest : List Char} {hint : Option String} (hc : c ≠ '\n')
    (hhint : hint = none ∨ hint = some exclamationHint) :
    FaultsAt (c :: rest) (.unsupportedCharacter (String.singleton c) hint) 0
  /-- A character may not stand in a string. -/
  | forbidden {inner rest : List Char} {c : Char}
    (hinner : ∀ char ∈ inner, isStringText char = true) (hc : isForbidden c = true) :
    FaultsAt (Text.Quoted.doubleQuote :: (inner ++ c :: rest))
      (.forbiddenInString (String.singleton c)) (inner.length + 1)
  /-- The text ends inside a string. -/
  | unclosed {inner : List Char} (hinner : ∀ char ∈ inner, isStringText char = true) :
    FaultsAt (Text.Quoted.doubleQuote :: inner) (.forbiddenInString "\n") (inner.length + 1)
  /-- No digit follows the decimal point. -/
  | pointed {whole rest : List Char} (hwhole : ∀ char ∈ whole, char.isDigit = true) :
    FaultsAt (whole ++ '.' :: rest) .missingFraction (whole.length + 1)

variable {text rest : List Char} {cause : Cause} {offset : Nat}

theorem faultsAt_of_scanString (h : scanString rest = .fault cause offset) :
    FaultsAt (Text.Quoted.doubleQuote :: rest) cause offset := by
  have hinner : ∀ char ∈ rest.takeWhile isStringText, isStringText char = true :=
    fun _ ↦ List.mem_takeWhile_imp
  have hsplit := List.takeWhile_append_dropWhile (p := isStringText) (l := rest)
  unfold scanString at h
  cases hdrop : rest.dropWhile isStringText with
  | nil =>
    rw [hdrop, List.append_nil] at hsplit
    rw [hdrop] at h
    cases h
    rw [hsplit] at hinner ⊢
    exact .unclosed hinner
  | cons c tail =>
    have hstop : isStringText c = false := by
      have hhead := List.head?_dropWhile_not isStringText rest
      rw [hdrop] at hhead
      simpa using hhead
    rw [hdrop] at h hsplit
    dsimp only at h
    split at h
    · cases h
    · rename_i hquote
      cases h
      have hforbidden : isForbidden c = true := by simpa [isStringText, hquote] using hstop
      have hfaults : FaultsAt
          (Text.Quoted.doubleQuote :: (rest.takeWhile isStringText ++ c :: tail))
          (.forbiddenInString (String.singleton c)) _ := .forbidden hinner hforbidden
      rwa [hsplit] at hfaults

theorem faultsAt_of_scanNumber (h : scanNumber text = .fault cause offset) :
    FaultsAt text cause offset := by
  have hwhole : ∀ char ∈ text.takeWhile Char.isDigit, char.isDigit = true :=
    fun _ ↦ List.mem_takeWhile_imp
  have hsplit := List.takeWhile_append_dropWhile (p := Char.isDigit) (l := text)
  unfold scanNumber at h
  dsimp only at h
  split at h
  · rename_i rest hdrop
    split at h
    · cases h
      rw [hdrop] at hsplit
      have hfaults : FaultsAt (text.takeWhile Char.isDigit ++ '.' :: rest) .missingFraction _ :=
        .pointed hwhole
      rwa [hsplit] at hfaults
    · cases h
  · cases h

theorem faultsAt_of_scanSymbol {c : Char} (hc : c ≠ '\n')
    (h : scanSymbol c rest = .fault cause offset) : FaultsAt (c :: rest) cause offset := by
  unfold scanSymbol at h
  split at h <;> cases h
  · exact .unsupported (c := '!') (by decide) (Or.inr rfl)
  · exact .unsupported hc (Or.inl rfl)

/-- Whatever cannot be read has one of the faults. -/
theorem faultsAt_of_scan (h : scan text = .fault cause offset) : FaultsAt text cause offset := by
  unfold scan at h
  split at h
  · cases h
  · rename_i c rest
    split at h
    · cases h
    rename_i hfeed
    split at h
    · rename_i hquote
      rw [hquote]
      exact faultsAt_of_scanString h
    split at h
    · exact faultsAt_of_scanNumber h
    split at h
    · cases h
    · exact faultsAt_of_scanSymbol hfeed h

theorem FaultsAt.family_eq (h : FaultsAt text cause offset) : cause.family = .lexical := by
  cases h <;> rfl

end Lexeme

theorem Cursor.family_of_next {c c' : Cursor} {fault : Diagnostic}
    (h : next c = .error fault c') : fault.cause.family = .lexical := by
  simp only [next, take] at h
  split at h
  · cases h
  · rename_i cause offset hscan
    cases h
    exact (Lexeme.faultsAt_of_scan hscan).family_eq

end TeenyBasic
