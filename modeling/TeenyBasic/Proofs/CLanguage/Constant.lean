import Mathlib.Algebra.Field.Rat
import TeenyBasic.Numeral
import TeenyBasic.Proofs.CLanguage.Lexis

/-!
# Constants of C

A preprocessing number becomes a constant: digits that start with zero are an octal constant,
other digits a decimal one, and digits around a point a floating constant. Hexadecimal constants,
exponents and suffixes are left out.

The main statement is `constantValue?_decimalChars`: the decimal form of a numeral is a constant
with the value of the numeral. It is decimal or floating, except for the single digit zero, which
counts as octal.
-/

namespace TeenyBasic

def digitValue (c : Char) : Nat := c.toNat - '0'.toNat

/-- The value of digits in a base. -/
def wholeValue (base : Nat) (digits : List Char) : Nat :=
  digits.foldl (fun value c ↦ value * base + digitValue c) 0

/-- The value of digits in decimal notation, with or without a point. -/
def Numeral.value (spelling : List Char) : ℚ :=
  let fraction := (spelling.dropWhile (· ≠ '.')).tail
  wholeValue 10 (spelling.takeWhile (· ≠ '.')) + wholeValue 10 fraction / 10 ^ fraction.length

namespace C

/-- The kinds of constants. -/
inductive ConstantKind where
  | decimal | octal | floating
  deriving DecidableEq, Repr

/-- The kind of a constant without a point. -/
def integerKind? : List Char → Option ConstantKind
  | [] => none
  | c :: rest =>
    if c = '0' then if rest.all isOctal then some .octal else none
    else if (c :: rest).all Char.isDigit then some .decimal
    else none

/-- The kind of constant that a preprocessing number is, if it is one. -/
def constantKind? (spelling : List Char) : Option ConstantKind :=
  match spelling.dropWhile (· ≠ '.') with
  | [] => integerKind? spelling
  | _ :: fraction =>
    let whole := spelling.takeWhile (· ≠ '.')
    if whole.all Char.isDigit && fraction.all Char.isDigit && !(whole ++ fraction).isEmpty then
      some .floating
    else none

def constantValue? (spelling : List Char) : Option ℚ :=
  (constantKind? spelling).map fun
    | .decimal => wholeValue 10 spelling
    | .octal => wholeValue 8 spelling
    | .floating => Numeral.value spelling

end C

section

open Lexeme

theorem wholeValue_cons (base : Nat) (c : Char) (digits : List Char) :
    wholeValue base (c :: digits) = digits.foldl (fun value c ↦ value * base + digitValue c)
      (digitValue c) := by
  simp [wholeValue]

theorem wholeValue_dropWhile (base : Nat) (digits : List Char) :
    wholeValue base (digits.dropWhile (· = '0')) = wholeValue base digits := by
  induction digits with
  | nil => rfl
  | cons c rest ih =>
    by_cases hc : c = '0'
    · have hzero : digitValue c = 0 := by
        rw [hc]
        rfl
      calc
        _ = wholeValue base (rest.dropWhile (· = '0')) := by
          rw [List.dropWhile_cons_of_pos (by simp [hc])]
        _ = wholeValue base rest := ih
        _ = _ := by
          rw [wholeValue_cons, hzero]
          rfl
    · rw [List.dropWhile_cons_of_neg (by simp [hc])]

theorem wholeValue_trimWhole (base : Nat) (whole : List Char) :
    wholeValue base (Numeral.trimWhole whole) = wholeValue base whole := by
  rw [← wholeValue_dropWhile base whole]
  unfold Numeral.trimWhole
  split
  · rename_i hnil
    rw [hnil]
    simp [wholeValue, digitValue]
  · rfl

theorem trimWhole_cases {whole : List Char} (h : ∀ c ∈ whole, c.isDigit = true) :
    Numeral.trimWhole whole = ['0'] ∨
      ∃ first rest, Numeral.trimWhole whole = first :: rest ∧ first ≠ '0' ∧
        ∀ c ∈ first :: rest, c.isDigit = true := by
  unfold Numeral.trimWhole
  split
  · left
    rfl
  · rename_i hne
    right
    obtain ⟨first, rest, hdrop⟩ := List.exists_cons_of_ne_nil hne
    have hhead := List.head?_dropWhile_not (· = '0') whole
    rw [hdrop] at hhead
    have hfirst : first ≠ '0' := by simpa using hhead
    have hdigits : ∀ c ∈ first :: rest, c.isDigit = true := by
      intro c hc
      rw [← hdrop] at hc
      exact h c ((List.dropWhile_suffix _).subset hc)
    exact ⟨first, rest, hdrop, hfirst, hdigits⟩

theorem isDigit_of_mem_trimWhole {whole : List Char} (h : ∀ c ∈ whole, c.isDigit = true) :
    ∀ c ∈ Numeral.trimWhole whole, c.isDigit = true := by
  rcases trimWhole_cases h with hzero | ⟨first, rest, htrim, _, hdigits⟩
  · rw [hzero]
    simp
  · rw [htrim]
    exact hdigits

theorem ne_point_of_isDigit {c : Char} (h : c.isDigit = true) : decide (c ≠ '.') = true := by
  rw [decide_eq_true_eq]
  rintro rfl
  revert h
  decide

section

variable {whole fraction : List Char} (hwhole : ∀ c ∈ whole, c.isDigit = true)

include hwhole

theorem takeWhile_point : (whole ++ '.' :: fraction).takeWhile (· ≠ '.') = whole := by
  rw [List.takeWhile_append_of_pos fun c hc ↦ ne_point_of_isDigit (hwhole c hc)]
  simp

theorem dropWhile_point :
    (whole ++ '.' :: fraction).dropWhile (· ≠ '.') = '.' :: fraction := by
  rw [List.dropWhile_append_of_pos fun c hc ↦ ne_point_of_isDigit (hwhole c hc)]
  simp

theorem takeWhile_whole : whole.takeWhile (· ≠ '.') = whole :=
  List.takeWhile_eq_self_iff.mpr fun c hc ↦ ne_point_of_isDigit (hwhole c hc)

theorem dropWhile_whole : whole.dropWhile (· ≠ '.') = [] :=
  List.dropWhile_eq_nil_iff.mpr fun c hc ↦ ne_point_of_isDigit (hwhole c hc)

theorem value_whole : Numeral.value whole = wholeValue 10 whole := by
  simp only [Numeral.value, takeWhile_whole hwhole, dropWhile_whole hwhole, List.tail_nil]
  simp [wholeValue]

theorem value_point : Numeral.value (whole ++ '.' :: fraction) =
    wholeValue 10 whole + wholeValue 10 fraction / 10 ^ fraction.length := by
  simp only [Numeral.value, takeWhile_point hwhole, dropWhile_point hwhole, List.tail_cons]

theorem decimalChars_whole : Numeral.decimalChars whole = Numeral.trimWhole whole := by
  simp only [Numeral.decimalChars, takeWhile_whole hwhole, dropWhile_whole hwhole, List.append_nil]

theorem decimalChars_point : Numeral.decimalChars (whole ++ '.' :: fraction) =
    Numeral.trimWhole whole ++ '.' :: fraction := by
  simp only [Numeral.decimalChars, takeWhile_point hwhole, dropWhile_point hwhole]

end

theorem isNumeral_decimalChars {spelling : List Char} (h : IsNumeral spelling) :
    IsNumeral (Numeral.decimalChars spelling) := by
  rcases h with ⟨_, hdigits⟩ | ⟨whole, fraction, ⟨_, hwhole⟩, hfraction, rfl⟩
  · left
    rw [decimalChars_whole hdigits]
    exact ⟨Numeral.trimWhole_ne_nil _, isDigit_of_mem_trimWhole hdigits⟩
  · right
    rw [decimalChars_point hwhole]
    exact ⟨_, fraction, ⟨Numeral.trimWhole_ne_nil _, isDigit_of_mem_trimWhole hwhole⟩, hfraction,
      rfl⟩

/-- The decimal form of a numeral is a constant with the value of the numeral. -/
theorem constantValue?_decimalChars {spelling : List Char} (h : IsNumeral spelling) :
    C.constantValue? (Numeral.decimalChars spelling) = some (Numeral.value spelling) ∧
      (C.constantKind? (Numeral.decimalChars spelling) = some .decimal ∨
        C.constantKind? (Numeral.decimalChars spelling) = some .floating ∨
        Numeral.decimalChars spelling = ['0']) := by
  rcases h with ⟨_, hdigits⟩ | ⟨whole, fraction, ⟨_, hwhole⟩, ⟨_, hfraction⟩, rfl⟩
  · have hvalue := wholeValue_trimWhole 10 spelling
    rw [decimalChars_whole hdigits, value_whole hdigits, ← hvalue]
    rcases trimWhole_cases hdigits with hzero | ⟨first, rest, htrim, hfirst, hall⟩
    · rw [hzero]
      exact ⟨rfl, Or.inr (Or.inr rfl)⟩
    · have hkind : C.constantKind? (first :: rest) = some .decimal := by
        rw [C.constantKind?, dropWhile_whole hall]
        simp only [C.integerKind?, hfirst, if_false]
        rw [if_pos (List.all_eq_true.mpr hall)]
      rw [htrim]
      exact ⟨by rw [C.constantValue?, hkind]; rfl, Or.inl hkind⟩
  · have htrimmed := isDigit_of_mem_trimWhole hwhole
    have hkind : C.constantKind? (Numeral.trimWhole whole ++ '.' :: fraction) =
        some .floating := by
      rw [C.constantKind?, dropWhile_point htrimmed, takeWhile_point htrimmed]
      simp [List.all_eq_true.mpr htrimmed, List.all_eq_true.mpr hfraction,
        Numeral.trimWhole_ne_nil]
    rw [decimalChars_point hwhole]
    refine ⟨?_, Or.inr (Or.inl hkind)⟩
    calc
      _ = some (Numeral.value (Numeral.trimWhole whole ++ '.' :: fraction)) := by
        rw [C.constantValue?, hkind]
        rfl
      _ = _ := by rw [value_point htrimmed, wholeValue_trimWhole, value_point hwhole]

end

end TeenyBasic
