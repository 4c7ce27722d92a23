import Mathlib
import RealmCore.Lib.LowerBound
import RealmCore.ObjKey

/-!
# Branch-free binary search over packed arrays

An `Array` of realm (src/realm/array.hpp) keeps its elements packed at a width `w` of
`0, 1, 2, 4, 8, 16, 32` or `64` bits; `get_direct<w>` (src/realm/array_direct.hpp) reads the
element at an index, unsigned below eight bits and signed, little-endian, from eight bits up.
`lower_bound<w>` and `upper_bound<w>` search the first `size` elements with a single size
variable, halved independently of the comparison: a probe that passes moves the range past the
lower half only, so an even range compares its probe twice.  The loop is unrolled three times
while the size is at least `8`.

Each probe is a round of `LowerBound.halving`, and three of them are three rounds
(`unrolledLoop_eq_probeLoop`), so on a sorted array both searches return the number of elements
that pass their comparison.  `Array::lower_bound_int` and `upper_bound_int` call them at the
array's width.

`ArrayUnsigned::lower_bound(value)` (src/realm/array_unsigned.cpp) runs `std::lower_bound` at
widths of eight bits and more, and `realm::lower_bound<w>` below, to which the `uint64_t` value
passes as an `int64_t`: a value from `2^63` up then reads as a negative one
(`lowerBound_of_sub_byte_large_value`).  Below that value every search counts
(`binarySearch_eq_countP`).
-/

namespace Realm

namespace ArrayDirect

/-- The `k` bytes at `offset`, little-endian, as an unsigned value; a byte past the buffer
reads as `0`. -/
def loadUnsigned (data : List UInt8) (offset k : Nat) : Nat :=
  (List.range k).foldr (fun j acc => (data.getD (offset + j) 0).toNat + 256 * acc) 0

/-- `get_direct<w>(data, ndx)`: below eight bits the bits of the byte at `ndx * w / 8`, from
eight bits up the signed little-endian value at `ndx * w / 8`; a width with no case reads
`-1`. -/
def getDirect (w : Nat) (data : List UInt8) (ndx : Nat) : Int :=
  if w = 0 then 0
  else if w = 1 then (((data.getD (ndx >>> 3) 0).toNat >>> (ndx &&& 7)) &&& 0x01 : Nat)
  else if w = 2 then (((data.getD (ndx >>> 2) 0).toNat >>> ((ndx &&& 3) <<< 1)) &&& 0x03 : Nat)
  else if w = 4 then (((data.getD (ndx >>> 1) 0).toNat >>> ((ndx &&& 1) <<< 2)) &&& 0x0F : Nat)
  else if w = 8 then (loadUnsigned data ndx 1 : Int).bmod (2 ^ 8)
  else if w = 16 then (loadUnsigned data (ndx * 2) 2 : Int).bmod (2 ^ 16)
  else if w = 32 then (loadUnsigned data (ndx * 4) 4 : Int).bmod (2 ^ 32)
  else if w = 64 then (loadUnsigned data (ndx * 8) 8 : Int).bmod (2 ^ 64)
  else -1

section Search

variable (get : Nat → Int) (test : Int → Bool)

/-- One probe, the block `(A)` of `lower_bound`: the range `[low, low + size)` goes to
`[low + other_half, low + size)` when the element at `low + half` passes `test`, and to
`[low, low + half)` otherwise. -/
def probe (low size : Nat) : Nat × Nat :=
  let half := size / 2
  let otherHalf := size - half
  let probe := low + half
  let otherLow := low + otherHalf
  let v := get probe
  (if test v then otherLow else low, half)

/-- `while (size > 0)`, the loop `(A)`. -/
def probeLoop (low size : Nat) : Nat :=
  if size = 0 then low
  else probeLoop (probe get test low size).1 (probe get test low size).2
termination_by size
decreasing_by simp only [probe]; omega

/-- `while (size >= 8)`, the blocks `(X)`, `(Y)` and `(Z)`, and then the loop `(A)`. -/
def unrolledLoop (low size : Nat) : Nat :=
  if size < 8 then probeLoop get test low size
  else
    let x := probe get test low size
    let y := probe get test x.1 x.2
    let z := probe get test y.1 y.2
    unrolledLoop z.1 z.2
termination_by size
decreasing_by simp only [probe]; omega

lemma probeLoop_of_pos {low size : Nat} (h : 0 < size) :
    probeLoop get test low size =
      probeLoop get test (probe get test low size).1 (probe get test low size).2 := by
  rw [probeLoop, if_neg (by omega)]

/-- The unrolled blocks are three rounds of the loop `(A)`. -/
lemma unrolledLoop_eq_probeLoop (size : Nat) :
    ∀ low, unrolledLoop get test low size = probeLoop get test low size := by
  induction size using Nat.strong_induction_on with
  | _ size ih =>
    intro low
    rw [unrolledLoop]
    split
    · rfl
    · -- the sizes `size`, `size / 2` and `size / 4` of the three blocks are all positive
      rename_i h8
      dsimp only
      have h1 : 0 < (probe get test low size).2 := by simp only [probe]; omega
      have h2 : 0 < (probe get test (probe get test low size).1 (probe get test low size).2).2 := by
        simp only [probe]; omega
      rw [ih _ (by simp only [probe]; omega), probeLoop_of_pos get test (show 0 < size by omega),
        probeLoop_of_pos get test h1, probeLoop_of_pos get test h2]

/-- A probe inside `[0, n)` is a round of `LowerBound.halving` over the first `n` elements. -/
lemma probeLoop_eq_halving (n : Nat) (lt : Int → Int → Bool) (v : Int) (size : Nat) :
    ∀ low, low + size ≤ n →
      probeLoop get (fun x => lt x v) low size =
        LowerBound.halving lt ((List.range n).map get) v low size := by
  induction size using Nat.strong_induction_on with
  | _ size ih =>
    intro low hrange
    rw [probeLoop, LowerBound.halving]
    split
    · rfl
    · rename_i h0
      have hprobe : low + size / 2 < n := by omega
      simp only [probe, List.getElem?_map, List.getElem?_range hprobe, Option.map_some]
      exact ih _ (by omega) _ (by split <;> omega)

/-- On a sequence whose first `n` elements `test` passes up to a point and fails after it, the
search returns the number of elements it passes. -/
theorem unrolledLoop_eq_countP (n : Nat) (lt : Int → Int → Bool) (v : Int)
    (hpart : ∀ i < n, ∀ j < n, i ≤ j → lt (get j) v = true → lt (get i) v = true) :
    unrolledLoop get (fun x => lt x v) 0 n = ((List.range n).map get).countP fun x => lt x v := by
  have hpair : ((List.range n).map get).Pairwise fun a b => lt b v = true → lt a v = true := by
    refine List.pairwise_map.mpr ((List.pairwise_lt_range).imp_of_mem fun hi hj hij => ?_)
    exact hpart _ (List.mem_range.mp hi) _ (List.mem_range.mp hj) (Nat.le_of_lt hij)
  rw [unrolledLoop_eq_probeLoop, probeLoop_eq_halving get n lt v n 0 (by omega)]
  simpa using LowerBound.halving_eq_countP hpair

end Search

/-- `realm::lower_bound<width>(data, size, value)`. -/
def lowerBound (width : Nat) (data : List UInt8) (size : Nat) (value : Int64) : Nat :=
  unrolledLoop (getDirect width data) (fun v => decide (v < value.toInt)) 0 size

/-- `realm::upper_bound<width>(data, size, value)`: the probe passes when `value >= v`. -/
def upperBound (width : Nat) (data : List UInt8) (size : Nat) (value : Int64) : Nat :=
  unrolledLoop (getDirect width data) (fun v => decide (value.toInt ≥ v)) 0 size

/-- The searches agree with `std::lower_bound` and `std::upper_bound`: at every width, on a
buffer whose first `size` elements are non-decreasing, `lower_bound` returns the number of
those below `value` and `upper_bound` the number at most `value`. -/
theorem lowerBound_upperBound_eq_countP (width : Nat) (data : List UInt8) (size : Nat)
    (value : Int64)
    (hsorted : ∀ i < size, ∀ j < size, i ≤ j → getDirect width data i ≤ getDirect width data j) :
    lowerBound width data size value =
        ((List.range size).map (getDirect width data)).countP (fun v => decide (v < value.toInt)) ∧
      upperBound width data size value =
        ((List.range size).map (getDirect width data)).countP (fun v => decide (v ≤ value.toInt)) := by
  constructor
  · refine unrolledLoop_eq_countP _ size (fun x v => decide (x < v)) value.toInt ?_
    intro i hi j hj hij h
    simp only [decide_eq_true_eq] at h ⊢
    exact lt_of_le_of_lt (hsorted i hi j hj hij) h
  · have h := unrolledLoop_eq_countP (getDirect width data) size (fun x v => decide (v ≥ x))
      value.toInt fun i hi j hj hij h => by
        simp only [decide_eq_true_eq] at h ⊢
        exact le_trans (hsorted i hi j hj hij) h
    simpa [upperBound] using h

/-- Below eight bits an element is a nonnegative value of its bits. -/
lemma getDirect_eq_toNat {w : Nat} (hw : w = 0 ∨ w = 1 ∨ w = 2 ∨ w = 4) (data : List UInt8)
    (ndx : Nat) : getDirect w data ndx = ((getDirect w data ndx).toNat : Int) := by
  unfold getDirect
  split_ifs <;> omega

end ArrayDirect

namespace ArrayUnsigned

open ArrayDirect

/-- The element at `ndx` of an `ArrayUnsigned` of width `width`, as its `lower_bound` reads it:
`get_direct<w>` below eight bits, and from eight bits up the unsigned little-endian value of
one, two, four or, at any other width, eight bytes. -/
def get (width : Nat) (data : List UInt8) (ndx : Nat) : Nat :=
  if width < 8 then (getDirect width data ndx).toNat
  else
    let k := if width = 8 then 1 else if width = 16 then 2 else if width = 32 then 4 else 8
    loadUnsigned data (ndx * k) k

/-- `std::lower_bound(arr, arr + m_size, value)` over elements of `k` bytes. -/
def stdLowerBound (k : Nat) (data : List UInt8) (size : Nat) (value : UInt64) : Nat :=
  LowerBound.lowerBound (fun x v => decide (x < v))
    ((List.range size).map fun ndx => loadUnsigned data (ndx * k) k) value.toNat

/-- `std::upper_bound(arr, arr + m_size, value)` over elements of `k` bytes: the loop of
`std::lower_bound` with the test `!(value < *middle)`. -/
def stdUpperBound (k : Nat) (data : List UInt8) (size : Nat) (value : UInt64) : Nat :=
  LowerBound.lowerBound (fun x v => !decide (v < x))
    ((List.range size).map fun ndx => loadUnsigned data (ndx * k) k) value.toNat

/-- `ArrayUnsigned::lower_bound(value)`: `std::lower_bound` at eight, sixteen and thirty-two
bits and at any other width from eight up, and `realm::lower_bound<w>` below, with `value`
passed as an `int64_t`; `none` at a width below eight with no case, where the code stops
(`REALM_UNREACHABLE`). -/
def lowerBound (width : Nat) (data : List UInt8) (size : Nat) (value : UInt64) : Option Nat :=
  if width = 8 then some (stdLowerBound 1 data size value)
  else if width = 16 then some (stdLowerBound 2 data size value)
  else if width = 32 then some (stdLowerBound 4 data size value)
  else if width < 8 then
    if width = 0 ∨ width = 1 ∨ width = 2 ∨ width = 4 then
      some (ArrayDirect.lowerBound width data size value.toInt64)
    else none
  else some (stdLowerBound 8 data size value)

/-- `ArrayUnsigned::upper_bound(value)`, with the same cases as `lower_bound`. -/
def upperBound (width : Nat) (data : List UInt8) (size : Nat) (value : UInt64) : Option Nat :=
  if width = 8 then some (stdUpperBound 1 data size value)
  else if width = 16 then some (stdUpperBound 2 data size value)
  else if width = 32 then some (stdUpperBound 4 data size value)
  else if width < 8 then
    if width = 0 ∨ width = 1 ∨ width = 2 ∨ width = 4 then
      some (ArrayDirect.upperBound width data size value.toInt64)
    else none
  else some (stdUpperBound 8 data size value)

section Sorted

variable {width : Nat} {data : List UInt8} {size : Nat}

/-- The elements of a sorted array, as a list, are ordered. -/
lemma pairwise_of_sorted {f : Nat → Nat}
    (hsorted : ∀ i < size, ∀ j < size, i ≤ j → f i ≤ f j) {p : Nat → Bool}
    (hp : ∀ a b, a ≤ b → p b = true → p a = true) :
    ((List.range size).map f).Pairwise fun a b => p b = true → p a = true := by
  refine List.pairwise_map.mpr ((List.pairwise_lt_range).imp_of_mem fun hi hj hij => ?_)
  exact hp _ _ (hsorted _ (List.mem_range.mp hi) _ (List.mem_range.mp hj) (Nat.le_of_lt hij))

/-- `std::lower_bound` and `std::upper_bound` over a sorted array of `k`-byte elements count
the elements below `value`, and at most `value`. -/
lemma stdLowerBound_stdUpperBound_eq_countP {k : Nat} (value : UInt64)
    (hsorted : ∀ i < size, ∀ j < size, i ≤ j →
      loadUnsigned data (i * k) k ≤ loadUnsigned data (j * k) k) :
    stdLowerBound k data size value =
        ((List.range size).map fun ndx => loadUnsigned data (ndx * k) k).countP
          (fun x => decide (x < value.toNat)) ∧
      stdUpperBound k data size value =
        ((List.range size).map fun ndx => loadUnsigned data (ndx * k) k).countP
          (fun x => decide (x ≤ value.toNat)) := by
  constructor
  · exact LowerBound.lowerBound_eq_countP (pairwise_of_sorted hsorted fun a b hab h => by
      simp only [decide_eq_true_eq] at h ⊢
      omega)
  · have h := @LowerBound.lowerBound_eq_countP Nat (fun x v => !decide (v < x)) _ value.toNat
      (pairwise_of_sorted hsorted fun a b hab h => by
        simp only [Bool.not_eq_true', decide_eq_false_iff_not, not_lt] at h ⊢
        omega)
    rw [stdUpperBound, h]
    congr 1
    funext x
    rw [← decide_not]
    simp only [Nat.not_lt]

/-- Counting over the elements read as integers is counting over their natural values. -/
lemma countP_map_natCast {f : Nat → Int} {g : Nat → Nat} (hfg : ∀ i, f i = g i) {p : Int → Bool}
    {q : Nat → Bool} (hpq : ∀ x : Nat, p x = q x) :
    ((List.range size).map f).countP p = ((List.range size).map g).countP q := by
  rw [List.countP_map, List.countP_map]
  congr 1
  funext i
  simp only [Function.comp, hfg, hpq]

/-- Below eight bits, on a sorted array and a value below `2^63`, the searches of `ArrayUnsigned`
are those of `get_direct`, and count as `std::lower_bound` and `std::upper_bound` do. -/
lemma lowerBound_upperBound_of_sub_byte (hw : width = 0 ∨ width = 1 ∨ width = 2 ∨ width = 4)
    (value : UInt64) (hsorted : ∀ i < size, ∀ j < size, i ≤ j → get width data i ≤ get width data j)
    (hvalue : value.toNat < 2 ^ 63) :
    ArrayDirect.lowerBound width data size value.toInt64 =
        ((List.range size).map (get width data)).countP (fun x => decide (x < value.toNat)) ∧
      ArrayDirect.upperBound width data size value.toInt64 =
        ((List.range size).map (get width data)).countP (fun x => decide (x ≤ value.toNat)) := by
  have hlt8 : width < 8 := by omega
  have hget : ∀ i, getDirect width data i = (get width data i : Int) := fun i => by
    rw [get, if_pos hlt8]
    exact getDirect_eq_toNat hw data i
  have hsorted' : ∀ i < size, ∀ j < size, i ≤ j → getDirect width data i ≤ getDirect width data j :=
    fun i hi j hj hij => by
      rw [hget, hget]
      exact Int.ofNat_le.mpr (hsorted i hi j hj hij)
  obtain ⟨hlower, hupper⟩ := ArrayDirect.lowerBound_upperBound_eq_countP width data size
    value.toInt64 hsorted'
  rw [hlower, hupper, toInt_toInt64_of_lt hvalue]
  exact ⟨countP_map_natCast hget fun x => by simp, countP_map_natCast hget fun x => by simp⟩

/-- At every width an `ArrayUnsigned` has, on a sorted array, `lower_bound` and `upper_bound`
count the elements below `value`, and at most `value`, when the width is eight bits or more or
the value is below `2^63`. -/
lemma lowerBound_upperBound_eq_countP
    (hw : width = 0 ∨ width = 1 ∨ width = 2 ∨ width = 4 ∨ width = 8 ∨ width = 16 ∨ width = 32 ∨
      width = 64)
    (value : UInt64) (hsorted : ∀ i < size, ∀ j < size, i ≤ j → get width data i ≤ get width data j)
    (hvalue : 8 ≤ width ∨ value.toNat < 2 ^ 63) :
    lowerBound width data size value =
        some (((List.range size).map (get width data)).countP fun x => decide (x < value.toNat)) ∧
      upperBound width data size value =
        some (((List.range size).map (get width data)).countP fun x => decide (x ≤ value.toNat)) := by
  -- from eight bits up: `std::lower_bound` over elements of `k` bytes
  have hstd : ∀ k, (∀ ndx, get width data ndx = loadUnsigned data (ndx * k) k) →
      stdLowerBound k data size value =
          ((List.range size).map (get width data)).countP (fun x => decide (x < value.toNat)) ∧
        stdUpperBound k data size value =
          ((List.range size).map (get width data)).countP (fun x => decide (x ≤ value.toNat)) := by
    intro k hk
    have hfun : get width data = fun ndx => loadUnsigned data (ndx * k) k := funext hk
    rw [hfun] at hsorted ⊢
    exact stdLowerBound_stdUpperBound_eq_countP value hsorted
  by_cases hlt : width < 8
  · -- below eight bits: `realm::lower_bound<w>`, with a value below `2^63`
    have hsub : width = 0 ∨ width = 1 ∨ width = 2 ∨ width = 4 := by omega
    obtain ⟨hlower, hupper⟩ := lowerBound_upperBound_of_sub_byte hsub value hsorted (by omega)
    have hnarrow : width ≠ 8 ∧ width ≠ 16 ∧ width ≠ 32 := by omega
    simp only [lowerBound, upperBound, if_neg hnarrow.1, if_neg hnarrow.2.1, if_neg hnarrow.2.2,
      if_pos hlt, if_pos hsub, hlower, hupper, and_self]
  · rcases hw with h | h | h | h | rfl | rfl | rfl | rfl
    iterate 4 omega
    · obtain ⟨hlower, hupper⟩ := hstd 1 fun ndx => by simp [get]
      simp [lowerBound, upperBound, hlower, hupper]
    · obtain ⟨hlower, hupper⟩ := hstd 2 fun ndx => by simp [get]
      simp [lowerBound, upperBound, hlower, hupper]
    · obtain ⟨hlower, hupper⟩ := hstd 4 fun ndx => by simp [get]
      simp [lowerBound, upperBound, hlower, hupper]
    · obtain ⟨hlower, hupper⟩ := hstd 8 fun ndx => by simp [get]
      simp [lowerBound, upperBound, hlower, hupper]

end Sorted

end ArrayUnsigned

end Realm
