import Mathlib

/-!
# IEEE 754 binary64 values as bit patterns

A `double` is kept as its 64-bit pattern.  Code that only stores doubles and copies their
bytes (`std::memcpy` into an `int64_t` and back) is then exact, NaN payloads and the sign of
zero included.  The comparison operators `<` and `==` of binary64 are defined on the pattern
as IEEE 754 defines them: no NaN is equal to or ordered with anything, the two zeros are equal,
and otherwise the order is that of the real values.
-/

/-- An IEEE 754 binary64 value, as its bit pattern. -/
structure Binary64 where
  bits : UInt64
deriving DecidableEq, Repr

namespace Binary64

/-- `std::memcpy` of the value into an `int64_t`. -/
def toInt64Bits (x : Binary64) : Int64 :=
  x.bits.toInt64

/-- `std::memcpy` of an `int64_t` into a `double`. -/
def ofInt64Bits (i : Int64) : Binary64 :=
  ⟨i.toUInt64⟩

/-- Copying the bytes out and back in gives the same value, bit for bit. -/
@[simp] lemma ofInt64Bits_toInt64Bits (x : Binary64) : ofInt64Bits x.toInt64Bits = x := rfl

/-- The sign bit. -/
def signBit (x : Binary64) : Bool :=
  x.bits >>> 63 == 1

/-- The pattern with the sign bit cleared. -/
def magnitude (x : Binary64) : UInt64 :=
  x.bits &&& 0x7FFFFFFFFFFFFFFF

/-- A NaN: all exponent bits set and a nonzero significand. -/
def isNaN (x : Binary64) : Bool :=
  0x7FF0000000000000 < x.magnitude

/-- `+0.0` or `-0.0`. -/
def isZero (x : Binary64) : Bool :=
  x.magnitude == 0

/-- The operator `==` of binary64. -/
def beq (x y : Binary64) : Bool :=
  !x.isNaN && !y.isNaN && (x.bits == y.bits || (x.isZero && y.isZero))

/-- The operator `<` of binary64.  Between two values of one sign the patterns are ordered
as the magnitudes, which is the order of the values for positive ones and its reverse for
negative ones. -/
def blt (x y : Binary64) : Bool :=
  !x.isNaN && !y.isNaN && !(x.isZero && y.isZero) &&
    match x.signBit, y.signBit with
    | true, false => true
    | false, false => x.bits < y.bits
    | true, true => y.bits < x.bits
    | false, true => false

/-- The quiet NaN that `std::numeric_limits<double>::quiet_NaN()` returns. -/
def quietNaN : Binary64 :=
  ⟨0x7FF8000000000000⟩

lemma isNaN_quietNaN : quietNaN.isNaN = true := by decide

/-- A NaN is equal to nothing, itself included. -/
lemma beq_eq_false_of_isNaN {x : Binary64} (h : x.isNaN = true) (y : Binary64) :
    beq x y = false := by
  simp [beq, h]

/-- Nothing is below a NaN. -/
lemma blt_eq_false_of_isNaN_right {y : Binary64} (h : y.isNaN = true) (x : Binary64) :
    blt x y = false := by
  -- the conjunction stops at the NaN, before the comparison of signs
  delta blt
  rw [h, Bool.not_true, Bool.and_false, Bool.false_and, Bool.false_and]

/-- A NaN is below nothing. -/
lemma blt_eq_false_of_isNaN_left {x : Binary64} (h : x.isNaN = true) (y : Binary64) :
    blt x y = false := by
  delta blt
  rw [h, Bool.not_true, Bool.false_and, Bool.false_and, Bool.false_and]

end Binary64
