import Mathlib.Algebra.Order.Field.Basic
import Mathlib.Algebra.Order.Ring.Rat
import Mathlib.Data.Nat.Cast.Order.Field
import Mathlib.Data.Rat.Cast.Order
import TeenyBasic.Proofs.CLanguage.Expression

/-!
# Arithmetic of C

The value of an expression of constants. A constant without a point is whole and one with a point is
real. An operation on two whole values is whole, and its quotient is cut off towards zero; any other
operation is real. Both types are taken as exact and without bounds.
-/

namespace TeenyBasic.C

/-- A value and its type. -/
inductive Value where
  | whole (number : ℤ)
  | real (number : ℚ)
  deriving DecidableEq

namespace Value

/-- The number that a value stands for. -/
def toRat : Value → ℚ
  | whole number => number
  | real number => number

def isReal : Value → Bool
  | whole _ => false
  | real _ => true

def negate : Value → Value
  | whole number => whole (-number)
  | real number => real (-number)

/-- An operation, given what it does to whole values and to real ones. -/
def combine (onWhole : ℤ → ℤ → ℤ) (onReal : ℚ → ℚ → ℚ) : Value → Value → Value
  | whole a, whole b => whole (onWhole a b)
  | a, b => real (onReal a.toRat b.toRat)

/-- The result of a binary operator. It is undefined to divide by zero. -/
def operate? (operator : String) (a b : Value) : Option Value :=
  match operator with
  | "+" => some (combine (· + ·) (· + ·) a b)
  | "-" => some (combine (· - ·) (· - ·) a b)
  | "*" => some (combine (· * ·) (· * ·) a b)
  | "/" => if b.toRat = 0 then none else some (combine Int.tdiv (· / ·) a b)
  | _ => none

variable {onWhole : ℤ → ℤ → ℤ} {onReal : ℚ → ℚ → ℚ}

@[simp] theorem isReal_negate (a : Value) : a.negate.isReal = a.isReal := by
  cases a <;> rfl

@[simp] theorem toRat_negate (a : Value) : a.negate.toRat = -a.toRat := by
  cases a with
  | whole number => exact Int.cast_neg number
  | real number => rfl

@[simp] theorem isReal_combine (a b : Value) :
    (combine onWhole onReal a b).isReal = (a.isReal || b.isReal) := by
  cases a <;> cases b <;> rfl

theorem toRat_combine (h : ∀ a b : ℤ, (onWhole a b : ℚ) = onReal a b) (a b : Value) :
    (combine onWhole onReal a b).toRat = onReal a.toRat b.toRat := by
  cases a <;> cases b <;> first | exact h _ _ | rfl

theorem exists_toRat_eq {a : Value} (h : a.isReal = false) : ∃ z : ℤ, a.toRat = z := by
  cases a with
  | whole number => exact ⟨number, rfl⟩
  | real number => cases h

end Value

theorem abs_tdiv_le (a b : ℤ) : |((a.tdiv b : ℤ) : ℚ)| ≤ |(a : ℚ) / b| := by
  have hnatural : (a.tdiv b).natAbs = a.natAbs / b.natAbs := Int.natAbs_tdiv a b
  calc
    |((a.tdiv b : ℤ) : ℚ)| = ((a.natAbs / b.natAbs : ℕ) : ℚ) := by
      rw [← hnatural, Nat.cast_natAbs, Int.cast_abs]
    _ ≤ (a.natAbs : ℚ) / b.natAbs := Nat.cast_div_le
    _ = |(a : ℚ) / b| := by
      rw [abs_div, Nat.cast_natAbs, Nat.cast_natAbs, Int.cast_abs, Int.cast_abs]

theorem tdiv_eq_of_div_eq {a b z : ℤ} (hb : (b : ℚ) ≠ 0) (h : (a : ℚ) / b = z) :
    a.tdiv b = z := by
  have hmul : (a : ℚ) = ((z * b : ℤ) : ℚ) := by
    rw [Int.cast_mul, ← h, div_mul_cancel₀ _ hb]
  have hproduct : a = z * b := Int.cast_injective hmul
  rw [hproduct]
  exact Int.mul_tdiv_cancel z (by simpa using hb)

section

variable {a b : Value}

theorem abs_toRat_quotient_le (a b : Value) :
    |(Value.combine Int.tdiv (· / ·) a b).toRat| ≤ |a.toRat / b.toRat| := by
  cases a with
  | whole number =>
    cases b with
    | whole divisor => exact abs_tdiv_le number divisor
    | real divisor => exact le_refl _
  | real number => exact le_refl _

theorem toRat_quotient (hb : b.toRat ≠ 0)
    (h : (a.isReal || b.isReal) = false → ∃ z : ℤ, a.toRat / b.toRat = z) :
    (Value.combine Int.tdiv (· / ·) a b).toRat = a.toRat / b.toRat := by
  cases a with
  | whole number =>
    cases b with
    | whole divisor =>
      obtain ⟨z, hz⟩ := h rfl
      have hquotient := tdiv_eq_of_div_eq hb hz
      calc
        _ = ((number.tdiv divisor : ℤ) : ℚ) := rfl
        _ = z := by rw [hquotient]
        _ = _ := hz.symm
    | real divisor => rfl
  | real number => rfl

/-- A quotient of whole values that does not come out even is closer to zero than it should be. -/
theorem abs_toRat_quotient_lt (hwhole : (a.isReal || b.isReal) = false)
    (h : ¬ ∃ z : ℤ, a.toRat / b.toRat = z) :
    |(Value.combine Int.tdiv (· / ·) a b).toRat| < |a.toRat / b.toRat| := by
  apply lt_of_le_of_ne (abs_toRat_quotient_le a b)
  intro heq
  obtain ⟨z, hz⟩ := Value.exists_toRat_eq
    (show (Value.combine Int.tdiv (· / ·) a b).isReal = false by
      rw [Value.isReal_combine, hwhole])
  rw [hz] at heq
  rcases abs_eq_abs.mp heq with hsame | hopposite
  · exact h ⟨z, hsame.symm⟩
  · apply h
    use -z
    rw [Int.cast_neg, hopposite, neg_neg]

end

def constant? (spelling : List Char) : Option Value :=
  (constantKind? spelling).map fun
    | .decimal => .whole (wholeValue 10 spelling)
    | .octal => .whole (wholeValue 8 spelling)
    | .floating => .real (Numeral.value spelling)

/-- The value of an expression, if it is arithmetic on constants and divides by zero nowhere. -/
def evaluate : Tree → Option Value
  | .constant spelling => constant? spelling.toList
  | .unary "+" operand => evaluate operand
  | .unary "-" operand => (evaluate operand).map Value.negate
  | .binary operator left right =>
    (evaluate left).bind fun a ↦ (evaluate right).bind (a.operate? operator)
  | _ => none

theorem toRat_constant? (spelling : List Char) :
    (constant? spelling).map Value.toRat = constantValue? spelling := by
  unfold constant? constantValue?
  cases constantKind? spelling with
  | none => rfl
  | some kind => cases kind <;> simp [Value.toRat]

theorem integerKind?_ne_floating (spelling : List Char) :
    integerKind? spelling ≠ some .floating := by
  unfold integerKind?
  split
  · simp
  · split <;> split <;> simp

theorem isReal_of_constant? {spelling : List Char} {value : Value}
    (h : constant? spelling = some value) : value.isReal = decide ('.' ∈ spelling) := by
  have hpoint : spelling.dropWhile (· ≠ '.') = [] ↔ '.' ∉ spelling := by
    simp [List.dropWhile_eq_nil_iff, List.forall_mem_ne']
  obtain ⟨kind, hkind, rfl⟩ := Option.map_eq_some_iff.mp h
  unfold constantKind? at hkind
  split at hkind
  · rename_i hnone
    rw [decide_eq_false (hpoint.mp hnone)]
    cases kind with
    | floating => exact absurd hkind (integerKind?_ne_floating spelling)
    | decimal | octal => rfl
  · rename_i hsome
    have hmem : '.' ∈ spelling := by
      rw [← not_not (a := '.' ∈ spelling), ← hpoint, hsome]
      exact List.cons_ne_nil _ _
    rw [decide_eq_true hmem]
    dsimp only at hkind
    split at hkind
    · cases hkind
      rfl
    · cases hkind

end TeenyBasic.C
