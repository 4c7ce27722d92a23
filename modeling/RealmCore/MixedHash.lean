import Mathlib
import RealmCore.Mixed

/-!
# The hash of a `Mixed` value

`Mixed::hash` (src/realm/mixed.cpp) hashes a value by its type: an `Int` is its own hash, a
`Bool` one of two constants, a `Timestamp` the exclusive or of its two fields, and every other
type the 64-bit CityHash of its bytes in memory (`murmur2_or_cityhash`, src/realm/string_data.cpp,
on a platform whose `size_t` has 8 bytes).

`Mixed::compare` compares the numeric types with one another by value, so `Int 0` and
`Double 0.0` are equal under `==`, as are `Double 0.0` and `Double -0.0`; their hashes differ
(`hash_ne_of_compare_eq_zero`).  For the types that are not numeric, two values equal under
`==` are the same value and have the same hash (`hash_eq_of_compare_eq_zero`).
-/

namespace Realm

namespace CityHash64

/-! ## `CityHash64` (src/realm/string_data.cpp) -/

/-- `k0`. -/
def k0 : UInt64 := 0xc3a5c85c97cb3127

/-- `k1`. -/
def k1 : UInt64 := 0xb492b66fbe98f273

/-- `k2`. -/
def k2 : UInt64 := 0x9ae16a3b2f90404f

/-- `k3`. -/
def k3 : UInt64 := 0xc949d7c7509e6557

/-- `load8(data + i)`: the eight bytes at `i`, least significant first. -/
def load8 (data : List UInt8) (i : Nat) : UInt64 :=
  (List.range 8).foldr (fun j acc => (acc <<< 8) ||| (data.getD (i + j) 0).toUInt64) 0

/-- `load4(data + i)`. -/
def load4 (data : List UInt8) (i : Nat) : UInt32 :=
  (List.range 4).foldr (fun j acc => (acc <<< 8) ||| (data.getD (i + j) 0).toUInt32) 0

/-- `rotate_by_at_least_1(val, shift)`. -/
def rotateByAtLeast1 (val shift : UInt64) : UInt64 :=
  (val >>> shift) ||| (val <<< (64 - shift))

/-- `rotate(val, shift)`. -/
def rotate (val shift : UInt64) : UInt64 :=
  if shift = 0 then val else rotateByAtLeast1 val shift

/-- `shift_mix(val)`. -/
def shiftMix (val : UInt64) : UInt64 :=
  val ^^^ (val >>> 47)

/-- `hash_len_16(u, v)`. -/
def hashLen16 (u v : UInt64) : UInt64 :=
  let mul : UInt64 := 0x9ddfea08eb382d69
  let a := (u ^^^ v) * mul
  let a := a ^^^ (a >>> 47)
  let b := (v ^^^ a) * mul
  let b := b ^^^ (b >>> 47)
  b * mul

/-- `hash_len_0_to_16(data, len)`.  In `len + (a << 3)` the shift is of a 32-bit value. -/
def hashLen0To16 (data : List UInt8) (len : Nat) : UInt64 :=
  if len > 8 then
    let a := load8 data 0
    let b := load8 data (len - 8)
    hashLen16 a (rotateByAtLeast1 (b + len.toUInt64) len.toUInt64) ^^^ b
  else if len ≥ 4 then
    let a := load4 data 0
    let b := load4 data (len - 4)
    hashLen16 (len.toUInt64 + (a <<< 3).toUInt64) b.toUInt64
  else if len > 0 then
    let a := data.getD 0 0
    let b := data.getD (len >>> 1) 0
    let c := data.getD (len - 1) 0
    let y : UInt32 := a.toUInt32 + (b.toUInt32 <<< 8)
    let z : UInt32 := len.toUInt32 + (c.toUInt32 <<< 2)
    shiftMix (y.toUInt64 * k2 ^^^ z.toUInt64 * k3) * k2
  else k2

/-- `hash_len_17_to_32(data, len)`. -/
def hashLen17To32 (data : List UInt8) (len : Nat) : UInt64 :=
  let a := load8 data 0 * k1
  let b := load8 data 8
  let c := load8 data (len - 8) * k2
  let d := load8 data (len - 16) * k0
  hashLen16 (rotate (a - b) 43 + rotate c 30 + d) (a + rotate (b ^^^ k3) 20 - c + len.toUInt64)

/-- `hash_len_33_to_64(data, len)`. -/
def hashLen33To64 (data : List UInt8) (len : Nat) : UInt64 :=
  let z := load8 data 24
  let a := load8 data 0 + (len.toUInt64 + load8 data (len - 16)) * k0
  let b := rotate (a + z) 52
  let c := rotate a 37
  let a := a + load8 data 8
  let c := c + rotate a 7
  let a := a + load8 data 16
  let vf := a + z
  let vs := b + rotate a 31 + c
  let a := load8 data 16 + load8 data (len - 32)
  let z := z + load8 data (len - 8)
  let b := rotate (a + z) 52
  let c := rotate a 37
  let a := a + load8 data (len - 24)
  let c := c + rotate a 7
  let a := a + load8 data (len - 16)
  let wf := a + z
  let ws := b + rotate a 31 + c
  let r := shiftMix ((vf + ws) * k2 + (wf + vs) * k0)
  shiftMix (r * k0 + vs) * k2

/-- `weak_hash_len_32_with_seeds(w, x, y, z, a, b)`. -/
def weakHashLen32WithSeeds (w x y z a b : UInt64) : UInt64 × UInt64 :=
  let a := a + w
  let b := rotate (b + a + z) 21
  let c := a
  let a := a + x
  let a := a + y
  let b := b + rotate a 44
  (a + z, b + c)

/-- `weak_hash_len_32_with_seeds(data + i, a, b)`. -/
def weakHashLen32WithSeedsAt (data : List UInt8) (i : Nat) (a b : UInt64) : UInt64 × UInt64 :=
  weakHashLen32WithSeeds (load8 data i) (load8 data (i + 8)) (load8 data (i + 16))
    (load8 data (i + 24)) a b

/-- The state `x, y, z, v, w` of the loop of `CityHash64` over chunks of 64 bytes. -/
structure ChunkState where
  x : UInt64
  y : UInt64
  z : UInt64
  v : UInt64 × UInt64
  w : UInt64 × UInt64

/-- One round of the `do ... while` loop, on the chunk at `i`; the `std::swap(z, x)` ends it. -/
def chunkRound (data : List UInt8) (i : Nat) (st : ChunkState) : ChunkState :=
  let x := rotate (st.x + st.y + st.v.1 + load8 data (i + 8)) 37 * k1
  let y := rotate (st.y + st.v.2 + load8 data (i + 48)) 42 * k1
  let x := x ^^^ st.w.2
  let y := y + st.v.1 + load8 data (i + 40)
  let z := rotate (st.z + st.w.1) 33 * k1
  let v := weakHashLen32WithSeedsAt data i (st.v.2 * k1) (x + st.w.1)
  let w := weakHashLen32WithSeedsAt data (i + 32) (z + st.w.2) (y + load8 data (i + 16))
  ⟨z, y, x, v, w⟩

/-- The loop over the `chunks` chunks from the chunk at `i`. -/
def chunkLoop (data : List UInt8) : Nat → Nat → ChunkState → ChunkState
  | 0, _, st => st
  | chunks + 1, i, st => chunkLoop data chunks (i + 64) (chunkRound data i st)

end CityHash64

open CityHash64 in
/-- `cityhash_64(data, len)`, for `len` the length of `data`.  Past 64 bytes the loop runs
over the `(len - 1) / 64` chunks that `(len - 1) & ~63` leaves, at least one. -/
def cityhash64 (data : List UInt8) : UInt64 :=
  let len := data.length
  if len ≤ 32 then
    if len ≤ 16 then hashLen0To16 data len else hashLen17To32 data len
  else if len ≤ 64 then hashLen33To64 data len
  else
    let x := load8 data (len - 40)
    let y := load8 data (len - 16) + load8 data (len - 56)
    let z := hashLen16 (load8 data (len - 48) + len.toUInt64) (load8 data (len - 24))
    let v := weakHashLen32WithSeedsAt data (len - 64) len.toUInt64 z
    let w := weakHashLen32WithSeedsAt data (len - 32) (y + k1) x
    let x := x * k1 + load8 data 0
    let st := chunkLoop data ((len - 1) / 64) 0 ⟨x, y, z, v, w⟩
    hashLen16 (hashLen16 st.v.1 st.w.1 + shiftMix st.y * k1 + st.z)
      (hashLen16 st.v.2 st.w.2 + st.x)

/-- `murmur2_or_cityhash(data, len)` where `size_t` has 8 bytes. -/
def murmur2OrCityhash (data : List UInt8) : UInt64 :=
  cityhash64 data

/-- `compare_generic` answers `0` of equal values only. -/
lemma compareGeneric_eq_zero_iff {α : Type} [LT α] [DecidableEq α] [DecidableLT α] {a b : α} :
    compareGeneric a b = 0 ↔ a = b := by
  unfold compareGeneric
  split_ifs <;> simp_all

/-- The byte comparison answers `0` of equal byte strings only. -/
lemma compareBytes_eq_zero_iff : ∀ {a b : List UInt8}, compareBytes a b = 0 ↔ a = b
  | [], [] => by simp [compareBytes]
  | [], _ :: _ => by simp [compareBytes]
  | _ :: _, [] => by simp [compareBytes]
  | x :: xs, y :: ys => by
    unfold compareBytes
    by_cases hxy : x = y
    · rw [if_pos hxy, compareBytes_eq_zero_iff, hxy]
      simp
    · rw [if_neg hxy]
      split_ifs <;> simp [hxy]

namespace Mixed

/-- `Mixed::hash()`.  A `Timestamp` converts its `int32_t` nanoseconds to `size_t` by sign
extension. -/
def hash : Mixed → UInt64
  | .null => 0
  | .int v => v.toUInt64
  | .bool b => if b then 0xdeadbeef else 0xcafebabe
  | .float v => murmur2OrCityhash (leBytes 4 v.bits.toNat)
  | .double v => murmur2OrCityhash (leBytes 8 v.bits.toNat)
  | .string s => murmur2OrCityhash s
  | .binary b => murmur2OrCityhash b
  | .timestamp s ns => s.toUInt64 ^^^ ns.toInt64.toUInt64
  | .objectId b => murmur2OrCityhash b.toList
  | .uuid b => murmur2OrCityhash b.toList

/-! ## `==` and the hash -/

/-- For a value of a type that is not numeric, `==` holds of the same value only. -/
lemma eq_of_compare_eq_zero {a b : Mixed} (ha : a.sortingRank ≠ 1) (h : a.compare b = 0) :
    a = b := by
  cases a <;> cases b <;>
    simp_all [compare, sortingRank, compareGeneric_eq_zero_iff, compareBytes_eq_zero_iff,
      Vector.toList_inj]
  case bool.bool a b =>
    -- `Bool` values compare through `toNat`
    cases a <;> cases b <;> simp_all
  case timestamp.timestamp s n s' n' =>
    -- a `Timestamp` answers `0` in its first branch only
    by_contra hne
    have hcmp := h fun hs hn => hne ⟨hs, hn⟩
    split_ifs at hcmp
    omega

/-- `hash` respects `==` on the types that are not numeric. -/
theorem hash_eq_of_compare_eq_zero {a b : Mixed} (ha : a.sortingRank ≠ 1)
    (h : a.compare b = 0) : a.hash = b.hash := by
  rw [eq_of_compare_eq_zero ha h]

/-- `Int 0 == Double 0.0`, and `Double -0.0 == Double 0.0`, yet in each pair the hashes
differ: `hash` of `Int 0` is `0`, and the doubles hash their different bytes. -/
theorem hash_ne_of_compare_eq_zero :
    compare (.int 0) (.double ⟨0⟩) = 0 ∧ hash (.int 0) = 0 ∧
      hash (.double ⟨0⟩) = 15546534240171485050 ∧
      compare (.double ⟨0x8000000000000000⟩) (.double ⟨0⟩) = 0 ∧
      hash (.double ⟨0x8000000000000000⟩) = 14536069527914918658 := by
  decide

end Mixed

end Realm
