import Mathlib
import RealmCore.Lib.Binary32

/-!
# Mixed values

`realm::Mixed` (src/realm/mixed.hpp, src/realm/mixed.cpp) holds a value of any column type.
Its operators `==` and `<` are those of `Mixed::compare`, which orders values of one type as
that type does, compares the numeric types with one another by value, and ranks every other
pair of types by the table `sorting_rank`.  `Mixed::get_index_data` gives the bytes the search
index keys a value by: the integral numbers share the encoding of `Int`, so that an index
lookup for `1` reaches an indexed `1.0`.

The model has the types the search index reads: null, `Int`, `Bool`, `String`, `Binary`,
`Timestamp`, `Float`, `Double`, `ObjectId` and `UUID`.  Strings and binaries are their bytes;
a `Mixed` never holds a null string or a null timestamp, which its constructors turn into the
null value.
-/

namespace Realm

/-- `realm::Mixed`, for the types of indexed columns. -/
inductive Mixed where
  | null
  | int (v : Int64)
  | bool (v : Bool)
  | string (v : List UInt8)
  | binary (v : List UInt8)
  | timestamp (seconds : Int64) (nanoseconds : Int32)
  | float (v : Binary32)
  | double (v : Binary64)
  | objectId (bytes : Vector UInt8 12)
  | uuid (bytes : Vector UInt8 16)
deriving DecidableEq, Repr

namespace Mixed

/-- `Mixed(float)`: the pattern `null::is_null_float` recognises is the null value. -/
def ofFloat (v : Binary32) : Mixed :=
  if v.bits = 0x7FC000AA then .null else .float v

/-- `Mixed(double)`, as `Mixed(float)`. -/
def ofDouble (v : Binary64) : Mixed :=
  if v.bits = 0x7FF80000000000AA then .null else .double v

/-- `sorting_rank[m_type]`: every numeric type has rank 1. -/
def sortingRank : Mixed → Int
  | .null => -1
  | .int _ => 1
  | .bool _ => 0
  | .string _ => 2
  | .binary _ => 3
  | .timestamp _ _ => 4
  | .float _ => 1
  | .double _ => 1
  | .objectId _ => 5
  | .uuid _ => 6

end Mixed

/-! ## The comparisons `Mixed::compare` is built from -/

/-- `compare_generic(lhs, rhs)`. -/
def compareGeneric {α : Type} [LT α] [DecidableEq α] [DecidableLT α] (lhs rhs : α) : Int :=
  if lhs = rhs then 0 else if lhs < rhs then -1 else 1

/-- Unsigned lexicographic comparison of bytes, a proper prefix first: `memcmp` over the
common length, then the lengths.  This is `compare_string` and `compare_binary`, and the
comparison of the `std::array`s behind `ObjectId` and `UUID`. -/
def compareBytes : List UInt8 → List UInt8 → Int
  | [], [] => 0
  | [], _ :: _ => -1
  | _ :: _, [] => 1
  | a :: as, b :: bs => if a = b then compareBytes as bs else if a < b then -1 else 1

/-- What `compare_float` reads of its floating-point type: `std::isnan`, `==`, `<`, and the
pattern as the unsigned integer of the same size. -/
structure FloatOps (F : Type) where
  isNaN : F → Bool
  eq : F → F → Bool
  lt : F → F → Bool
  bits : F → Nat

/-- The operations of `float`. -/
def binary32Ops : FloatOps Binary32 :=
  ⟨Binary32.isNaN, Binary32.beq, Binary32.blt, fun x => x.bits.toNat⟩

/-- The operations of `double`. -/
def binary64Ops : FloatOps Binary64 :=
  ⟨Binary64.isNaN, Binary64.beq, Binary64.blt, fun x => x.bits.toNat⟩

/-- `compare_float(a, b)`: the IEEE comparison, with the NaNs below every other value and
ordered among themselves by their patterns. -/
def compareFloat {F : Type} (ops : FloatOps F) (a b : F) : Int :=
  let aNaN := ops.isNaN a
  let bNaN := ops.isNaN b
  if !aNaN && !bNaN then
    if ops.eq a b then 0 else if ops.lt a b then -1 else 1
  else if aNaN && bNaN then compareGeneric (ops.bits a) (ops.bits b)
  else if aNaN then -1 else 1

/-- `2^63`, the `kBoundOfLongRange` of `compare_long_to_double`. -/
def kBoundOfLongRange : Binary64 := ⟨0x43E0000000000000⟩

/-- `-2^63`. -/
def negBoundOfLongRange : Binary64 := ⟨0xC3E0000000000000⟩

/-- `compare_long_to_double(lhs, rhs)`.  Integers of magnitude up to `2^53` convert to doubles
exactly; beyond that a double within the range of `int64_t` is an integer, and converts to
`int64_t` exactly. -/
def compareLongToDouble (lhs : Int64) (rhs : Binary64) : Int :=
  if rhs.isNaN then 1
  else if -2 ^ 53 ≤ lhs.toInt ∧ lhs.toInt ≤ 2 ^ 53 then
    compareFloat binary64Ops (Binary64.ofInt lhs.toInt) rhs
  -- `rhs >= kBoundOfLongRange`, for an `rhs` that is no NaN
  else if !Binary64.blt rhs kBoundOfLongRange then -1
  else if Binary64.blt rhs negBoundOfLongRange then 1
  else compareGeneric lhs.toInt (rhs.truncate.getD 0)

namespace Mixed

/-- `Mixed::compare`. -/
def compare : Mixed → Mixed → Int
  | .null, .null => 0
  | .null, _ => -1
  | _, .null => 1
  | .bool a, .bool b => compareGeneric a.toNat b.toNat
  | .int a, .int b => compareGeneric a b
  | .int a, .float b => compareLongToDouble a b.toBinary64
  | .int a, .double b => compareLongToDouble a b
  | .string a, .string b => compareBytes a b
  | .binary a, .binary b => compareBytes a b
  | .float a, .int b => -compareLongToDouble b a.toBinary64
  | .float a, .float b => compareFloat binary32Ops a b
  | .float a, .double b => compareFloat binary64Ops a.toBinary64 b
  | .double a, .int b => -compareLongToDouble b a
  | .double a, .float b => compareFloat binary64Ops a b.toBinary64
  | .double a, .double b => compareFloat binary64Ops a b
  | .timestamp s n, .timestamp s' n' =>
    -- `Timestamp`'s `==` and `<`: seconds first, then nanoseconds
    if s = s' ∧ n = n' then 0 else if s < s' ∨ (s = s' ∧ n < n') then -1 else 1
  | .objectId a, .objectId b => compareBytes a.toList b.toList
  | .uuid a, .uuid b => compareBytes a.toList b.toList
  -- values of types that do not compare are ordered by the ranks of their types
  | a, b => if a.sortingRank > b.sortingRank then 1 else -1

/-- `a == b`. -/
def eq (a b : Mixed) : Bool :=
  a.compare b == 0

/-- `a < b`. -/
def lt (a b : Mixed) : Bool :=
  a.compare b < 0

end Mixed

/-! ## The bytes the search index keys a value by -/

/-- The `n` bytes of `v` in memory, least significant first. -/
def leBytes (n v : Nat) : List UInt8 :=
  (List.range n).map fun j => (v >>> (8 * j)).toUInt8

/-- The bytes of an `int64_t`. -/
def int64Bytes (i : Int64) : List UInt8 :=
  leBytes 8 i.toUInt64.toNat

/-- `int(v)` for a value rounded toward zero to `t`.  The conversion is defined when `t` fits
an `int`; otherwise it is undefined behaviour, and the model takes what the conversion
instructions of x86 return then, `INT_MIN`. -/
def cIntOfTruncated (t : Option Int) : Int :=
  match t with
  | some n => if -2 ^ 31 ≤ n ∧ n < 2 ^ 31 then n else -2 ^ 31
  | none => -2 ^ 31

namespace Mixed

/-- `Mixed::get_index_data`; `none` is the null `StringData` of the null value. -/
def getIndexData : Mixed → Option (List UInt8)
  | .null => none
  | .int i => some (int64Bytes i)
  | .bool b => some (int64Bytes (if b then 1 else 0))
  | .float v =>
    let i := cIntOfTruncated v.truncate
    -- `i == v2` converts `i` to `float`
    if Binary32.beq (Binary32.ofInt i) v then some (int64Bytes (Int64.ofInt i))
    else some (leBytes 4 v.bits.toNat)
  | .double v =>
    let i := cIntOfTruncated v.truncate
    if Binary64.beq (Binary64.ofInt i) v then some (int64Bytes (Int64.ofInt i))
    else some (leBytes 8 v.bits.toNat)
  | .string s => some s
  | .binary b => some b
  | .timestamp s ns => some (int64Bytes s ++ leBytes 4 ns.toUInt32.toNat)
  | .objectId b => some b.toList
  | .uuid b => some b.toList

end Mixed

end Realm
