import Mathlib.Algebra.Group.Nat.Defs
import Mathlib.Tactic.Common

/-!
# Floating-point values of C

Every value of type `float` is a value of type `double`, so a `float` is here a
`double` that the narrower format holds. Widening forgets the bound, and
narrowing a value that fits does not change it.

## Implementation notes

The engine moves floating-point values and never computes with them: there is no
arithmetic here, and no rounding. C does not distinguish NaNs, so each format
has one.

-/

namespace TelemetrixDb

/-- The biased exponent of a binary64 encoding. -/
def exponentOf (bits : UInt64) : Nat := bits.toNat / 2 ^ 52 % 2048

/-- The fraction of a binary64 encoding. -/
def fractionOf (bits : UInt64) : Nat := bits.toNat % 2 ^ 52

/-- A value of type `double` by its encoding in binary64. -/
structure CDouble where
  bits : UInt64
  one_nan : exponentOf bits = 2047 → fractionOf bits ≠ 0 → bits = 0x7FF8000000000000
  deriving DecidableEq

namespace CDouble

def exponent (x : CDouble) : Nat := exponentOf x.bits

def fraction (x : CDouble) : Nat := fractionOf x.bits

/-- The value is one of binary32: a zero, an infinity or the NaN, a number with
24 bits in the normal range, or one with as many bits as a subnormal has left. -/
def FitsFloat (x : CDouble) : Prop :=
  x.exponent = 0 ∧ x.fraction = 0 ∨
    x.exponent = 2047 ∧ 2 ^ 29 ∣ x.fraction ∨
    897 ≤ x.exponent ∧ x.exponent ≤ 1150 ∧ 2 ^ 29 ∣ x.fraction ∨
    874 ≤ x.exponent ∧ x.exponent ≤ 896 ∧ 2 ^ (926 - x.exponent) ∣ x.fraction

instance (x : CDouble) : Decidable x.FitsFloat :=
  inferInstanceAs (Decidable (_ ∨ _ ∨ _ ∨ _))

/-- The constant `0.0`. -/
def zero : CDouble := ⟨0, by decide⟩

theorem zero_fitsFloat : zero.FitsFloat := by decide

end CDouble

/-- A value of type `float`. -/
@[ext] structure CFloat where
  toDouble : CDouble
  fits : toDouble.FitsFloat
  deriving DecidableEq

namespace CFloat

/-- The constant `0.0f`. -/
def zero : CFloat := ⟨.zero, CDouble.zero_fitsFloat⟩

end CFloat

/-- Conversion to `float` of a value that `float` has. -/
def CDouble.toFloat (x : CDouble) (h : x.FitsFloat) : CFloat := ⟨x, h⟩

end TelemetrixDb
