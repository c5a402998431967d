import TeenyBasic.Path
import TeenyBasic.Text.DecimalDigit
import TeenyBasic.Text.Quoted
import TeenyBasic.Generate.Basic

/-!
# Options

A compilation can be told where its result goes, how deep blocks may be nested and in which format
numbers are printed. A format is a single conversion of the C function `printf` for floating-point
numbers: a percent sign, flags, a width, a precision and the letter f, where the decimal digits of
width and precision may come from any script.
-/

namespace TeenyBasic

namespace NumberFormat

/-- Decides whether a character is a flag of a conversion. -/
def isFlag (c : Char) : Bool :=
  c = '-' || c = '+' || c = ' ' || c = '#' || c = '0'

/-- Decides whether a text is an optional precision followed by the letter f. -/
def isPrecision : List Char → Bool
  | ['f'] => true
  | '.' :: rest =>
    (rest.takeWhile Text.DecimalDigit.isDecimalDigit).length > 0 &&
      rest.dropWhile Text.DecimalDigit.isDecimalDigit == ['f']
  | _ => false

/-- Decides whether a text is a single conversion of a floating-point number. -/
def isConversion : List Char → Bool
  | '%' :: rest =>
    isPrecision ((rest.dropWhile isFlag).dropWhile Text.DecimalDigit.isDecimalDigit)
  | _ => false

end NumberFormat

/-- The options of a compilation. -/
structure Options where
  destination : Option Path
  maxDepth : Int
  numberFormat : String
  deriving DecidableEq, Repr

/-- What is wrong with options. -/
inductive OptionFault where
  | depthTooSmall (depth : Int)
  | notAConversion (format : String)
  deriving DecidableEq, Repr

/-- The message for options that are refused. -/
def OptionFault.message : OptionFault → String
  | .depthTooSmall depth => s!"max_nesting_depth must be at least 1, got {depth}"
  | .notAConversion format =>
    "float_format must be a single printf float conversion such as '%.2f', got " ++
      Text.quoted format

namespace Options

/-- The options used unless others are given. -/
def standard : Options := ⟨none, Setting.defaultMaxDepth, Setting.defaultNumberFormat⟩

/-- Options are valid if at least one block may be open and the format is a single conversion. -/
def Valid (options : Options) : Prop :=
  1 ≤ options.maxDepth ∧ NumberFormat.isConversion options.numberFormat.toList = true

instance (options : Options) : Decidable options.Valid :=
  inferInstanceAs (Decidable (_ ∧ _))

/-- Accepts options that are valid; the depth is looked at before the format. -/
def check (options : Options) : Except OptionFault Options :=
  if options.maxDepth < 1 then .error (.depthTooSmall options.maxDepth)
  else if NumberFormat.isConversion options.numberFormat.toList then .ok options
  else .error (.notAConversion options.numberFormat)

/-- Options are accepted, unchanged, exactly when they are valid. -/
theorem check_eq_ok_iff (options accepted : Options) :
    options.check = .ok accepted ↔ accepted = options ∧ options.Valid := by
  unfold check Valid
  split
  · rename_i hdepth
    simp only [reduceCtorEq, false_iff]
    exact fun h ↦ absurd h.2.1 (by omega)
  split
  · rename_i hdepth hformat
    have hpositive : 1 ≤ options.maxDepth := by omega
    simp [hformat, hpositive, eq_comm]
  · rename_i hformat
    simp [hformat]

theorem standard_valid : standard.Valid := by
  decide

end Options

end TeenyBasic
