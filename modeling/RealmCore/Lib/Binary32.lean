import Mathlib
import RealmCore.Lib.Binary64

/-!
# IEEE 754 binary32 values, and conversions between the formats and the integers

A `float` is kept as its 32-bit pattern, with `==` and `<` defined on the pattern as
`Binary64` defines them for doubles.  The conversions are the ones C++ performs implicitly:

* `Binary32.toBinary64` widens a float to a double.  Every float is a double, so the value is
  kept exactly; a NaN keeps its payload and comes out quiet, as the conversion instructions of
  x86 and ARM make it.
* `Binary64.ofInt` and `Binary32.ofInt` convert an integer, rounding to the nearest value and
  to an even significand on a tie (no 64-bit integer overflows either format).
* `Binary64.truncate` and `Binary32.truncate` round a finite value toward zero, as a
  conversion to an integer type does before it checks the range.

`roundNat` computes the biased exponent and fraction of the value nearest to a natural number
in a format of any precision; both `ofInt` use it.
-/

/-- The biased exponent and the stored fraction of the value nearest to `m > 0`, ties to an
even significand, in a format whose significands have `prec` bits, the leading one included,
and whose exponent bias is `bias`. -/
def roundNat (prec bias m : Nat) : Nat × Nat :=
  let k := Nat.log2 m
  if k < prec then (k + bias, (m <<< (prec - 1 - k)) - 2 ^ (prec - 1))
  else
    -- `m` has more significant bits than the format: drop `shift` of them
    let shift := k + 1 - prec
    let q := m >>> shift
    let r := m % 2 ^ shift
    let half := 2 ^ (shift - 1)
    let q := if half < r ∨ (r = half ∧ q % 2 = 1) then q + 1 else q
    -- rounding up may carry into a new leading bit
    if q = 2 ^ prec then (k + 1 + bias, 0) else (k + bias, q - 2 ^ (prec - 1))

/-- An IEEE 754 binary32 value, as its bit pattern. -/
structure Binary32 where
  bits : UInt32
deriving DecidableEq, Repr

namespace Binary32

/-- The sign bit. -/
def signBit (x : Binary32) : Bool :=
  x.bits >>> 31 == 1

/-- The pattern with the sign bit cleared. -/
def magnitude (x : Binary32) : UInt32 :=
  x.bits &&& 0x7FFFFFFF

/-- A NaN: all exponent bits set and a nonzero significand. -/
def isNaN (x : Binary32) : Bool :=
  0x7F800000 < x.magnitude

/-- `+0.0f` or `-0.0f`. -/
def isZero (x : Binary32) : Bool :=
  x.magnitude == 0

/-- The operator `==` of binary32. -/
def beq (x y : Binary32) : Bool :=
  !x.isNaN && !y.isNaN && (x.bits == y.bits || (x.isZero && y.isZero))

/-- The operator `<` of binary32, as `Binary64.blt`. -/
def blt (x y : Binary32) : Bool :=
  !x.isNaN && !y.isNaN && !(x.isZero && y.isZero) &&
    match x.signBit, y.signBit with
    | true, false => true
    | false, false => x.bits < y.bits
    | true, true => y.bits < x.bits
    | false, true => false

/-- The biased exponent field. -/
def expField (x : Binary32) : Nat :=
  ((x.bits >>> 23) &&& 0xFF).toNat

/-- The fraction field. -/
def fracField (x : Binary32) : Nat :=
  (x.bits &&& 0x7FFFFF).toNat

/-- `static_cast<double>(x)`. -/
def toBinary64 (x : Binary32) : Binary64 :=
  let sign : UInt64 := if x.signBit then 0x8000000000000000 else 0
  let e := x.expField
  let f := x.fracField
  if e = 0xFF then
    if f = 0 then ⟨sign ||| 0x7FF0000000000000⟩
    else ⟨sign ||| (0x7FF8000000000000 : UInt64) ||| (f <<< 29).toUInt64⟩
  else if e = 0 then
    if f = 0 then ⟨sign⟩
    else
      -- a subnormal `f * 2^-149` is normal as a double, with its leading bit at `log2 f`
      let p := Nat.log2 f
      ⟨sign ||| ((p + 874).toUInt64 <<< 52) ||| ((f <<< (52 - p)) % 2 ^ 52).toUInt64⟩
  else ⟨sign ||| ((e + 896).toUInt64 <<< 52) ||| (f <<< 29).toUInt64⟩

/-- The value rounded toward zero, for a finite value; `none` for an infinity or a NaN. -/
def truncate (x : Binary32) : Option Int :=
  let e := x.expField
  let m := x.fracField + 2 ^ 23
  if e = 0xFF then none
  else if e < 127 then some 0
  else
    let t := if 150 ≤ e then m <<< (e - 150) else m >>> (150 - e)
    some (if x.signBit then -(t : Int) else t)

/-- The conversion of an integer to `float`. -/
def ofInt (n : Int) : Binary32 :=
  if n = 0 then ⟨0⟩
  else
    let (e, f) := roundNat 24 127 n.natAbs
    ⟨(if n < 0 then (0x80000000 : UInt32) else 0) ||| (e.toUInt32 <<< 23) ||| f.toUInt32⟩

end Binary32

namespace Binary64

/-- The value rounded toward zero, for a finite value; `none` for an infinity or a NaN. -/
def truncate (x : Binary64) : Option Int :=
  let e := ((x.bits >>> 52) &&& 0x7FF).toNat
  let m := (x.bits &&& 0xFFFFFFFFFFFFF).toNat + 2 ^ 52
  if e = 0x7FF then none
  else if e < 1023 then some 0
  else
    let t := if 1075 ≤ e then m <<< (e - 1075) else m >>> (1075 - e)
    some (if x.signBit then -(t : Int) else t)

/-- The conversion of an integer to `double`. -/
def ofInt (n : Int) : Binary64 :=
  if n = 0 then ⟨0⟩
  else
    let (e, f) := roundNat 53 1023 n.natAbs
    ⟨(if n < 0 then (0x8000000000000000 : UInt64) else 0) ||| (e.toUInt64 <<< 52) ||| f.toUInt64⟩

end Binary64
