import Mathlib

/-!
# Fields of bits in a word

A field of `len` bits at bit `pos` of a word `x` is written by
`(x & ~(mask << pos)) | (v & mask) << pos` with `mask = 2^len - 1` (`set`), and read by
`(x >> pos) & mask` (`get`, on the value of the word).  Each bit of the written word is the bit
of `v` inside the field and the bit of `x` outside it (`getLsbD_set`), so the field reads back
the low bits of `v` (`get_set_self`) and a field that does not overlap it reads as before
(`get_set_of_disjoint`).
-/

namespace BitField

variable {w : Nat}

/-- The mask of the `len` low bits of a word of `w` bits. -/
def mask (w len : Nat) : BitVec w := BitVec.ofNat w (2 ^ len - 1)

/-- `(x & ~(mask << pos)) | (v & mask) << pos`: the field of `len` bits at `pos` of `x` set to the
low bits of `v`. -/
def set (x : BitVec w) (pos len : Nat) (v : BitVec w) : BitVec w :=
  (x &&& ~~~(mask w len <<< pos)) ||| ((v &&& mask w len) <<< pos)

/-- `(x >> pos) & mask`: the field of `len` bits at `pos` of a number. -/
def get (x pos len : Nat) : Nat := (x >>> pos) % 2 ^ len

@[simp] lemma getLsbD_mask (len i : Nat) :
    (mask w len).getLsbD i = (decide (i < w) && decide (i < len)) := by
  simp [mask, BitVec.getLsbD_ofNat, Nat.testBit_two_pow_sub_one]

/-- A bit of the written word: the bit of `v` inside the field, the bit of `x` outside it. -/
theorem getLsbD_set (x v : BitVec w) (pos len i : Nat) :
    (set x pos len v).getLsbD i =
      if pos ≤ i ∧ i < pos + len then (decide (i < w) && v.getLsbD (i - pos)) else x.getLsbD i := by
  simp only [set, BitVec.getLsbD_or, BitVec.getLsbD_and, BitVec.getLsbD_not,
    BitVec.getLsbD_shiftLeft, getLsbD_mask]
  by_cases hw : i < w
  · by_cases hin : pos ≤ i ∧ i < pos + len
    · rw [if_pos hin]
      simp [hw, show i - pos < len by omega, show i - pos < w by omega, Nat.not_lt.mpr hin.1]
    · rw [if_neg hin]
      by_cases hpos : i < pos
      · simp [hw, hpos]
      · simp [hw, hpos, show ¬(i - pos < len) by omega]
  · simp [hw, BitVec.getLsbD_of_ge x i (by omega)]

@[simp] lemma testBit_get (x pos len i : Nat) :
    (get x pos len).testBit i = (decide (i < len) && x.testBit (pos + i)) := by
  simp [get, Nat.testBit_mod_two_pow, Nat.testBit_shiftRight]

/-- The field reads back the value written into it. -/
theorem get_set_self (x v : BitVec w) {pos len : Nat} (h : pos + len ≤ w)
    (hv : v.toNat < 2 ^ len) : get (set x pos len v).toNat pos len = v.toNat := by
  apply Nat.eq_of_testBit_eq
  intro i
  rw [testBit_get, BitVec.testBit_toNat, getLsbD_set, BitVec.testBit_toNat]
  by_cases hi : i < len
  · rw [if_pos ⟨Nat.le_add_right pos i, by omega⟩, Nat.add_sub_cancel_left]
    simp [hi, show pos + i < w by omega]
  · -- above the field `v` has no bits
    have hvi : v.toNat.testBit i = false :=
      Nat.testBit_lt_two_pow (Nat.lt_of_lt_of_le hv (Nat.pow_le_pow_right (by decide) (by omega)))
    rw [BitVec.testBit_toNat] at hvi
    simp [hi, hvi]

/-- A field that does not overlap the written one reads as before. -/
theorem get_set_of_disjoint (x v : BitVec w) {pos len q len' : Nat}
    (h : pos + len ≤ q ∨ q + len' ≤ pos) :
    get (set x pos len v).toNat q len' = get x.toNat q len' := by
  apply Nat.eq_of_testBit_eq
  intro i
  rw [testBit_get, testBit_get, BitVec.testBit_toNat, BitVec.testBit_toNat, getLsbD_set]
  by_cases hi : i < len'
  · rw [if_neg (by omega)]
  · simp [hi]

end BitField
