import Mathlib
import RealmCore.Array.Direct
import RealmCore.Lib.BitField
import RealmCore.Lib.ByteCopy
import RealmCore.Mixed

/-!
# Writing packed elements

`set_direct<w>(data, ndx, value)` (src/realm/array_direct.hpp) writes the element at `ndx` of a
buffer packed at width `w`.  Below eight bits it rewrites the field of `w` bits at
`ndx % (8 / w) * w` of byte `ndx / (8 / w)`, masking the other bits of the byte back in; from
eight bits up it stores the low `w / 8` bytes of the value, little-endian, at byte `ndx * w / 8`.

A value between `lbound_for_width(w)` and `ubound_for_width(w)` (src/realm/array.hpp) reads back
with `get_direct<w>` at its index (`getDirect_setDirect`), and every other element reads as
before (`getDirect_setDirect_of_ne`): two fields of one byte do not overlap (`BitField`), and the
bytes of two elements are apart.

`Array::bit_width(v)` (src/realm/array.cpp) takes the width of a value from a table below `16`,
and above from the highest set bit after flipping the bits of a negative value; it is the least
width whose bounds hold the value (`bitWidth_least`): the table and the bit tests of the source
are read as ranges of the value (`bitWidth_cases`).
-/

namespace Realm

namespace ArrayDirect

/-! ## The model -/

/-- The widths of a packed array. -/
def widths : List Nat := [0, 1, 2, 4, 8, 16, 32, 64]

/-- `Array::lbound_for_width(width)`; a width the code does not name is `REALM_UNREACHABLE()`. -/
def lboundForWidth (width : Nat) : Option Int :=
  if width = 32 then some (-0x80000000)
  else if width = 16 then some (-0x8000)
  else if width < 8 then some 0
  else if width = 8 then some (-0x80)
  else if width = 64 then some (-0x8000000000000000)
  else none

/-- `Array::ubound_for_width(width)`. -/
def uboundForWidth (width : Nat) : Option Int :=
  if width = 32 then some 0x7FFFFFFF
  else if width = 16 then some 0x7FFF
  else if width = 0 then some 0
  else if width = 1 then some 1
  else if width = 2 then some 3
  else if width = 4 then some 15
  else if width = 8 then some 0x7F
  else if width = 64 then some 0x7FFFFFFFFFFFFFFF
  else none

/-- `lbound_for_width(w) <= v && v <= ubound_for_width(w)`. -/
def fits (w : Nat) (v : Int) : Bool :=
  match lboundForWidth w, uboundForWidth w with
  | some lo, some hi => decide (lo ≤ v) && decide (v ≤ hi)
  | _, _ => false

/-- The sub-byte branches of `set_direct<w>`: the byte at `byteNdx` becomes
`(*p & ~(mask << bitNdx)) | (int(value) & mask) << bitNdx`. -/
def setBits (data : List UInt8) (byteNdx : Nat) (bitNdx mask : UInt8) (value : Int) :
    List UInt8 :=
  data.set byteNdx
    ((data.getD byteNdx 0 &&& ~~~(mask <<< bitNdx)) ||| ((UInt8.ofInt value &&& mask) <<< bitNdx))

/-- The branches from eight bits up, `*(reinterpret_cast<intN_t*>(data) + ndx) = intN_t(value)`:
the `k` low bytes of `value` in two's complement, little-endian, at byte `offset`. -/
def storeSigned (data : List UInt8) (offset k : Nat) (value : Int) : List UInt8 :=
  ByteCopy.write data offset (leBytes k (value % 2 ^ (8 * k)).toNat)

/-- `set_direct<w>(data, ndx, value)`; a width with no case writes nothing. -/
def setDirect (w : Nat) (data : List UInt8) (ndx : Nat) (value : Int) : List UInt8 :=
  if w = 0 then data
  else if w = 1 then setBits data (ndx / 8) (ndx % 8).toUInt8 0x01 value
  else if w = 2 then setBits data (ndx / 4) (ndx % 4 * 2).toUInt8 0x03 value
  else if w = 4 then setBits data (ndx / 2) (ndx % 2 * 4).toUInt8 0x0F value
  else if w = 8 then storeSigned data ndx 1 value
  else if w = 16 then storeSigned data (ndx * 2) 2 value
  else if w = 32 then storeSigned data (ndx * 4) 4 value
  else if w = 64 then storeSigned data (ndx * 8) 8 value
  else data

/-- The table `bits` of `Array::bit_width`, for the values below `16`. -/
def bitWidthTable : List Nat := [0, 1, 2, 2, 4, 4, 4, 4, 4, 4, 4, 4, 4, 4, 4, 4]

/-- `Array::bit_width(v)`: the table below `16`; otherwise, with the bits of a negative value
flipped, `64`, `32`, `16` or `8` as a bit from `31`, from `15` or from `7` up is set. -/
def bitWidth (v : Int64) : Nat :=
  if v.toUInt64 >>> 4 = 0 then bitWidthTable.getD v.toUInt64.toNat 0
  else
    let v := if v < 0 then ~~~v else v
    if v.toUInt64 >>> 31 ≠ 0 then 64
    else if v.toUInt64 >>> 15 ≠ 0 then 32
    else if v.toUInt64 >>> 7 ≠ 0 then 16
    else 8

/-! ## Loading and storing bytes -/

lemma loadUnsigned_succ (data : List UInt8) (offset k : Nat) :
    loadUnsigned data offset (k + 1) =
      (data.getD offset 0).toNat + 256 * loadUnsigned data (offset + 1) k := by
  simp only [loadUnsigned, List.range_succ_eq_map, List.foldr_cons, List.foldr_map, Nat.add_zero]
  congr 2
  congr 1
  funext j acc
  rw [Nat.succ_eq_add_one, ← Nat.add_assoc, Nat.add_right_comm]

/-- A load reads only the bytes of its range. -/
lemma loadUnsigned_congr {data data' : List UInt8} :
    ∀ {offset k : Nat}, (∀ j < k, data.getD (offset + j) 0 = data'.getD (offset + j) 0) →
      loadUnsigned data offset k = loadUnsigned data' offset k
  | _, 0, _ => rfl
  | offset, k + 1, h => by
    have h0 := h 0 (Nat.succ_pos k)
    rw [Nat.add_zero] at h0
    have hrest : ∀ j < k, data.getD (offset + 1 + j) 0 = data'.getD (offset + 1 + j) 0 := by
      intro j hj
      rw [Nat.add_right_comm offset 1 j, Nat.add_assoc]
      exact h (j + 1) (by omega)
    rw [loadUnsigned_succ, loadUnsigned_succ, h0, loadUnsigned_congr hrest]

/-- Bytes that hold the little-endian bytes of `n` load as `n` modulo their range. -/
lemma loadUnsigned_of_bytes {data : List UInt8} :
    ∀ {offset k n : Nat}, (∀ j < k, data.getD (offset + j) 0 = (n >>> (8 * j)).toUInt8) →
      loadUnsigned data offset k = n % 2 ^ (8 * k)
  | _, 0, n, _ => by rw [Nat.mul_zero, Nat.pow_zero, Nat.mod_one]; rfl
  | offset, k + 1, n, h => by
    have h0 := h 0 (Nat.succ_pos k)
    rw [Nat.add_zero, Nat.mul_zero, Nat.shiftRight_zero] at h0
    -- the rest of the range holds the bytes of `n >>> 8`
    have hrest : ∀ j < k, data.getD (offset + 1 + j) 0 = ((n >>> 8) >>> (8 * j)).toUInt8 := by
      intro j hj
      rw [Nat.add_right_comm offset 1 j, Nat.add_assoc, h (j + 1) (by omega),
        show 8 * (j + 1) = 8 + 8 * j by omega, Nat.shiftRight_add]
    -- the first byte and the rest, seven bytes up
    have hsplit : n % 2 ^ (8 * (k + 1)) = n % 256 + 256 * (n / 256 % 2 ^ (8 * k)) := by
      rw [Nat.mul_succ, Nat.pow_add, Nat.mul_comm (2 ^ (8 * k)), Nat.mod_mul,
        show (2 : Nat) ^ 8 = 256 from rfl]
    have hbyte : (n.toUInt8).toNat = n % 256 := UInt8.toNat_ofNat'
    have hdiv : n >>> 8 = n / 256 := Nat.shiftRight_eq_div_pow n 8
    rw [loadUnsigned_succ, h0, loadUnsigned_of_bytes hrest, hbyte, hdiv, hsplit]

@[simp] lemma length_leBytes (k n : Nat) : (leBytes k n).length = k := by
  unfold leBytes
  simp

lemma getElem?_leBytes {k n j : Nat} (hj : j < k) :
    (leBytes k n)[j]? = some ((n >>> (8 * j)).toUInt8) := by
  unfold leBytes
  simp [hj]

@[simp] lemma length_storeSigned (data : List UInt8) (offset k : Nat) (v : Int) :
    (storeSigned data offset k v).length = data.length := by
  unfold storeSigned
  simp

/-- The stored bytes, within the buffer. -/
lemma getD_storeSigned_of_lt {data : List UInt8} {offset k j : Nat} (v : Int) (hj : j < k)
    (hk : offset + k ≤ data.length) :
    (storeSigned data offset k v).getD (offset + j) 0 =
      ((v % 2 ^ (8 * k)).toNat >>> (8 * j)).toUInt8 := by
  unfold storeSigned
  rw [List.getD_eq_getElem?_getD,
    ByteCopy.getElem?_write _ _ _ (by omega), if_pos (by simp; omega), Nat.add_sub_cancel_left,
    getElem?_leBytes hj, Option.getD_some]

/-- A store leaves the bytes outside its range. -/
lemma getD_storeSigned_of_not_mem {data : List UInt8} {offset k p : Nat} (v : Int)
    (hp : p < offset ∨ offset + k ≤ p) :
    (storeSigned data offset k v).getD p 0 = data.getD p 0 := by
  rw [List.getD_eq_getElem?_getD, List.getD_eq_getElem?_getD]
  by_cases hlen : p < data.length
  · unfold storeSigned
    rw [ByteCopy.getElem?_write _ _ _ hlen, if_neg (by simp; omega)]
  · rw [List.getElem?_eq_none (by simp; omega), List.getElem?_eq_none (by omega)]

/-- A store within the buffer loads back as the low bytes of the value. -/
lemma loadUnsigned_storeSigned {data : List UInt8} {offset k : Nat} (v : Int)
    (hk : offset + k ≤ data.length) :
    loadUnsigned (storeSigned data offset k v) offset k = (v % 2 ^ (8 * k)).toNat := by
  rw [loadUnsigned_of_bytes fun j hj => getD_storeSigned_of_lt v hj hk]
  refine Nat.mod_eq_of_lt ?_
  have hpos : (0 : Int) < 2 ^ (8 * k) := Int.pow_pos (by decide)
  have hlt := Int.emod_lt_of_pos v hpos
  have hnonneg := Int.emod_nonneg v (Int.ne_of_gt hpos)
  have hcast : ((2 ^ (8 * k) : Nat) : Int) = 2 ^ (8 * k) := Int.natCast_pow 2 (8 * k)
  omega

/-! ## Fields of a byte -/

lemma getD_setBits (data : List UInt8) (byteNdx : Nat) (bitNdx mask : UInt8) (value : Int)
    (c : Nat) :
    (setBits data byteNdx bitNdx mask value).getD c 0 =
      if c = byteNdx ∧ byteNdx < data.length then
        (data.getD byteNdx 0 &&& ~~~(mask <<< bitNdx)) |||
          ((UInt8.ofInt value &&& mask) <<< bitNdx)
      else data.getD c 0 := by
  rw [setBits, List.getD_eq_getElem?_getD, List.getElem?_set]
  by_cases hc : c = byteNdx
  · subst hc
    by_cases hlen : c < data.length
    · simp [hlen]
    · simp [hlen, List.getD_eq_getElem?_getD]
  · simp [Ne.symm hc, hc, List.getD_eq_getElem?_getD]

/-- The byte that `setBits` writes, as a field of bits of the old byte. -/
lemma toBitVec_setBits_byte (p x : UInt8) {bitNdx mask : UInt8} {len : Nat}
    (hbit : bitNdx.toNat < 8) (hmask : mask.toBitVec = BitField.mask 8 len) :
    ((p &&& ~~~(mask <<< bitNdx)) ||| ((x &&& mask) <<< bitNdx)).toBitVec =
      BitField.set p.toBitVec bitNdx.toNat len x.toBitVec := by
  have hshift : (bitNdx.toBitVec % 8).toNat = bitNdx.toNat := by
    rw [BitVec.toNat_umod, UInt8.toNat_toBitVec]
    exact Nat.mod_eq_of_lt hbit
  simp only [UInt8.toBitVec_or, UInt8.toBitVec_and, UInt8.toBitVec_not, UInt8.toBitVec_shiftLeft,
    BitVec.shiftLeft_eq', hshift, hmask, BitField.set]

/-- `int(value) & mask` of a value in the mask: the value. -/
lemma toNat_ofInt {v : Int} (h₀ : 0 ≤ v) (h : v < 256) : (UInt8.ofInt v).toNat = v.toNat := by
  rw [UInt8.ofInt, UInt8.toNat_ofNat']
  omega

/-! ## Elements below eight bits

A width `w` below eight bits has `per = 8 / w` elements to a byte.  The three widths share one
argument, stated once over the form that their reads and writes take. -/

section SubByte

variable {w per : Nat}

/-- The field of an element lies in its byte. -/
lemma field_le_eight (hper : w * per = 8) (ndx : Nat) : ndx % per * w + w ≤ 8 := by
  have hpos : 0 < per := Nat.pos_of_ne_zero fun h => by simp [h] at hper
  calc ndx % per * w + w = (ndx % per + 1) * w := by rw [Nat.succ_mul]
    _ ≤ per * w := Nat.mul_le_mul_right w (Nat.mod_lt ndx hpos)
    _ = 8 := by rw [Nat.mul_comm, hper]

/-- Two elements of one byte have fields apart. -/
lemma fields_apart {i j : Nat} (hij : j ≠ i) (hb : j / per = i / per) :
    i % per * w + w ≤ j % per * w ∨ j % per * w + w ≤ i % per * w := by
  have hmod : j % per ≠ i % per := fun h => hij (by
    rw [← Nat.div_add_mod j per, hb, h, Nat.div_add_mod])
  rcases Nat.lt_or_gt_of_ne hmod with h | h
  · right
    calc j % per * w + w = (j % per + 1) * w := by rw [Nat.succ_mul]
      _ ≤ i % per * w := Nat.mul_le_mul_right w h
  · left
    calc i % per * w + w = (i % per + 1) * w := by rw [Nat.succ_mul]
      _ ≤ j % per * w := Nat.mul_le_mul_right w h

lemma toNat_toUInt8_field (hper : w * per = 8) (ndx : Nat) :
    ((ndx % per * w).toUInt8).toNat = ndx % per * w := by
  have := field_le_eight hper ndx
  rw [Nat.toUInt8_eq, UInt8.toNat_ofNat']
  omega

variable {mask : UInt8} (hper : w * per = 8) (hmask : mask.toBitVec = BitField.mask 8 w)
  (hget : ∀ data ndx, getDirect w data ndx =
    (BitField.get (data.getD (ndx / per) 0).toNat (ndx % per * w) w : Nat))
  (hset : ∀ data ndx v, setDirect w data ndx v =
    setBits data (ndx / per) (ndx % per * w).toUInt8 mask v)
include hper hmask hget hset

lemma getDirect_setDirect_sub_byte {data : List UInt8} {i : Nat} {v : Int} (h₀ : 0 ≤ v)
    (hv : v.toNat < 2 ^ w) (hi : i / per < data.length) :
    getDirect w (setDirect w data i v) i = v := by
  have hfield := field_le_eight hper i
  have hw0 : 0 < w := Nat.pos_of_ne_zero fun h => by simp [h] at hper
  have hw8 : 2 ^ w ≤ 2 ^ 8 := Nat.pow_le_pow_right (by decide) (by omega)
  have hx : (UInt8.ofInt v).toNat = v.toNat := toNat_ofInt h₀ (by omega)
  rw [hget, hset, getD_setBits, if_pos ⟨rfl, hi⟩, ← UInt8.toNat_toBitVec,
    toBitVec_setBits_byte _ _ (by rw [toNat_toUInt8_field hper]; omega) hmask,
    toNat_toUInt8_field hper,
    BitField.get_set_self _ _ (by omega) (by rw [UInt8.toNat_toBitVec, hx]; exact hv),
    UInt8.toNat_toBitVec, hx]
  omega

lemma getDirect_setDirect_sub_byte_of_ne (data : List UInt8) {i j : Nat} (v : Int) (hij : j ≠ i) :
    getDirect w (setDirect w data i v) j = getDirect w data j := by
  have hfield := field_le_eight hper i
  have hw0 : 0 < w := Nat.pos_of_ne_zero fun h => by simp [h] at hper
  rw [hget, hget, hset, getD_setBits]
  split_ifs with hb
  · -- the same byte: the element's field is apart from the one written
    rw [hb.1, ← UInt8.toNat_toBitVec,
      toBitVec_setBits_byte _ _ (by rw [toNat_toUInt8_field hper]; omega) hmask,
      toNat_toUInt8_field hper, BitField.get_set_of_disjoint _ _ (fields_apart hij hb.1),
      UInt8.toNat_toBitVec]
  · rfl

end SubByte

lemma getDirect_one (data : List UInt8) (ndx : Nat) :
    getDirect 1 data ndx = (BitField.get (data.getD (ndx / 8) 0).toNat (ndx % 8 * 1) 1 : Nat) := by
  have h3 : ndx >>> 3 = ndx / 8 := Nat.shiftRight_eq_div_pow ndx 3
  have h7 : ndx &&& 7 = ndx % 8 := Nat.and_two_pow_sub_one_eq_mod ndx 3
  have h1 : ∀ x : Nat, x &&& 0x01 = x % 2 ^ 1 := fun x => Nat.and_two_pow_sub_one_eq_mod x 1
  unfold getDirect
  rw [if_neg (by decide), if_pos rfl, h3, h7, h1, BitField.get, Nat.mul_one]

lemma getDirect_two (data : List UInt8) (ndx : Nat) :
    getDirect 2 data ndx = (BitField.get (data.getD (ndx / 4) 0).toNat (ndx % 4 * 2) 2 : Nat) := by
  have h2 : ndx >>> 2 = ndx / 4 := Nat.shiftRight_eq_div_pow ndx 2
  have h3 : (ndx &&& 3) <<< 1 = ndx % 4 * 2 := by
    rw [Nat.shiftLeft_eq, show ndx &&& 3 = ndx % 4 from Nat.and_two_pow_sub_one_eq_mod ndx 2]
  have hm : ∀ x : Nat, x &&& 0x03 = x % 2 ^ 2 := fun x => Nat.and_two_pow_sub_one_eq_mod x 2
  unfold getDirect
  rw [if_neg (by decide), if_neg (by decide), if_pos rfl, h2, h3, hm, BitField.get]

lemma getDirect_four (data : List UInt8) (ndx : Nat) :
    getDirect 4 data ndx = (BitField.get (data.getD (ndx / 2) 0).toNat (ndx % 2 * 4) 4 : Nat) := by
  have h1 : ndx >>> 1 = ndx / 2 := Nat.shiftRight_eq_div_pow ndx 1
  have h3 : (ndx &&& 1) <<< 2 = ndx % 2 * 4 := by
    rw [Nat.shiftLeft_eq, show ndx &&& 1 = ndx % 2 from Nat.and_two_pow_sub_one_eq_mod ndx 1]
  have hm : ∀ x : Nat, x &&& 0x0F = x % 2 ^ 4 := fun x => Nat.and_two_pow_sub_one_eq_mod x 4
  unfold getDirect
  rw [if_neg (by decide), if_neg (by decide), if_neg (by decide), if_pos rfl, h1, h3, hm,
    BitField.get]

lemma setDirect_one (data : List UInt8) (ndx : Nat) (v : Int) :
    setDirect 1 data ndx v = setBits data (ndx / 8) (ndx % 8 * 1).toUInt8 0x01 v := by
  rw [Nat.mul_one]
  rfl

lemma setDirect_two (data : List UInt8) (ndx : Nat) (v : Int) :
    setDirect 2 data ndx v = setBits data (ndx / 4) (ndx % 4 * 2).toUInt8 0x03 v := rfl

lemma setDirect_four (data : List UInt8) (ndx : Nat) (v : Int) :
    setDirect 4 data ndx v = setBits data (ndx / 2) (ndx % 2 * 4).toUInt8 0x0F v := rfl

/-! ## Elements of whole bytes

A width `w = 8 k` from eight bits up stores `k` bytes at `ndx * k`; the bytes of two elements are
apart. -/

section Bytes

/-- Byte `t` of element `j` lies outside the bytes of another element `i`. -/
lemma bytes_apart {i j k t : Nat} (hij : j ≠ i) (ht : t < k) :
    j * k + t < i * k ∨ i * k + k ≤ j * k + t := by
  rcases Nat.lt_or_gt_of_ne hij with h | h
  · left
    calc j * k + t < j * k + k := Nat.add_lt_add_left ht _
      _ = (j + 1) * k := (Nat.succ_mul j k).symm
      _ ≤ i * k := Nat.mul_le_mul_right k h
  · right
    calc i * k + k = (i + 1) * k := (Nat.succ_mul i k).symm
      _ ≤ j * k := Nat.mul_le_mul_right k h
      _ ≤ j * k + t := Nat.le_add_right _ _

variable {w k : Nat}
  (hget : ∀ data ndx, getDirect w data ndx = (loadUnsigned data (ndx * k) k : Int).bmod (2 ^ w))
  (hset : ∀ data ndx v, setDirect w data ndx v = storeSigned data (ndx * k) k v)
include hget hset

lemma getDirect_setDirect_bytes (hwk : w = 8 * k) {data : List UInt8} {i : Nat} {v : Int}
    (hv : -(2 : Int) ^ w ≤ v * 2 ∧ v * 2 < 2 ^ w) (hi : (i + 1) * k ≤ data.length) :
    getDirect w (setDirect w data i v) i = v := by
  subst hwk
  have hpos : (0 : Int) < 2 ^ (8 * k) := Int.pow_pos (by decide)
  have hcast : ((2 ^ (8 * k) : Nat) : Int) = 2 ^ (8 * k) := Int.natCast_pow 2 (8 * k)
  rw [hget, hset, loadUnsigned_storeSigned v (by rw [Nat.succ_mul] at hi; exact hi),
    Int.toNat_of_nonneg (Int.emod_nonneg v (Int.ne_of_gt hpos)), ← hcast, Int.emod_bmod]
  -- the value lies in the signed range of the width
  exact Int.bmod_eq_of_le_mul_two (by omega) (by omega)

lemma getDirect_setDirect_bytes_of_ne (data : List UInt8) {i j : Nat} (v : Int) (hij : j ≠ i) :
    getDirect w (setDirect w data i v) j = getDirect w data j := by
  rw [hget, hget, hset]
  congr 2
  exact loadUnsigned_congr fun t ht => getD_storeSigned_of_not_mem v (bytes_apart hij ht)

end Bytes

lemma getDirect_eight (data : List UInt8) (ndx : Nat) :
    getDirect 8 data ndx = (loadUnsigned data (ndx * 1) 1 : Int).bmod (2 ^ 8) := by
  unfold getDirect
  simp +decide only [Nat.mul_one, ↓reduceIte]

lemma getDirect_sixteen (data : List UInt8) (ndx : Nat) :
    getDirect 16 data ndx = (loadUnsigned data (ndx * 2) 2 : Int).bmod (2 ^ 16) := by
  unfold getDirect
  simp +decide only [↓reduceIte]

lemma getDirect_thirtyTwo (data : List UInt8) (ndx : Nat) :
    getDirect 32 data ndx = (loadUnsigned data (ndx * 4) 4 : Int).bmod (2 ^ 32) := by
  unfold getDirect
  simp +decide only [↓reduceIte]

lemma getDirect_sixtyFour (data : List UInt8) (ndx : Nat) :
    getDirect 64 data ndx = (loadUnsigned data (ndx * 8) 8 : Int).bmod (2 ^ 64) := by
  unfold getDirect
  simp +decide only [↓reduceIte]

lemma setDirect_eight (data : List UInt8) (ndx : Nat) (v : Int) :
    setDirect 8 data ndx v = storeSigned data (ndx * 1) 1 v := by
  unfold setDirect
  simp +decide only [Nat.mul_one, ↓reduceIte]

lemma setDirect_sixteen (data : List UInt8) (ndx : Nat) (v : Int) :
    setDirect 16 data ndx v = storeSigned data (ndx * 2) 2 v := by
  unfold setDirect
  simp +decide only [↓reduceIte]

lemma setDirect_thirtyTwo (data : List UInt8) (ndx : Nat) (v : Int) :
    setDirect 32 data ndx v = storeSigned data (ndx * 4) 4 v := by
  unfold setDirect
  simp +decide only [↓reduceIte]

lemma setDirect_sixtyFour (data : List UInt8) (ndx : Nat) (v : Int) :
    setDirect 64 data ndx v = storeSigned data (ndx * 8) 8 v := by
  unfold setDirect
  simp +decide only [↓reduceIte]

/-! ## Every width -/

/-- The bounds of a width, as the code's constants. -/
lemma fits_iff {w : Nat} (hw : w ∈ widths) (v : Int) :
    fits w v = true ↔
      (w = 0 ∧ v = 0) ∨ ((w = 1 ∨ w = 2 ∨ w = 4) ∧ 0 ≤ v ∧ v.toNat < 2 ^ w) ∨
        ((w = 8 ∨ w = 16 ∨ w = 32 ∨ w = 64) ∧ -(2 : Int) ^ w ≤ v * 2 ∧ v * 2 < 2 ^ w) := by
  unfold widths at hw
  simp only [List.mem_cons, List.not_mem_nil, or_false] at hw
  rcases hw with rfl | rfl | rfl | rfl | rfl | rfl | rfl | rfl <;>
    simp [fits, lboundForWidth, uboundForWidth] <;> omega

/-- `set_direct<w>` followed by `get_direct<w>` at the same index reads the value back, at every
width, for a value within the width's bounds and an element within the buffer. -/
theorem getDirect_setDirect {w : Nat} (hw : w ∈ widths) {data : List UInt8} {i : Nat} {v : Int}
    (hv : fits w v = true) (hi : (i + 1) * w ≤ 8 * data.length) :
    getDirect w (setDirect w data i v) i = v := by
  have hfits := (fits_iff hw v).mp hv
  unfold widths at hw
  simp only [List.mem_cons, List.not_mem_nil, or_false] at hw
  rcases hw with rfl | rfl | rfl | rfl | rfl | rfl | rfl | rfl
  · have hv0 : v = 0 := by omega
    rw [hv0]
    rfl
  · exact getDirect_setDirect_sub_byte (by decide) (by decide) getDirect_one setDirect_one
      (by omega) (by omega) (by omega)
  · exact getDirect_setDirect_sub_byte (by decide) (by decide) getDirect_two setDirect_two
      (by omega) (by omega) (by omega)
  · exact getDirect_setDirect_sub_byte (by decide) (by decide) getDirect_four
      setDirect_four (by omega) (by omega) (by omega)
  · exact getDirect_setDirect_bytes getDirect_eight setDirect_eight rfl (by omega)
      (by omega)
  · exact getDirect_setDirect_bytes getDirect_sixteen setDirect_sixteen rfl (by omega)
      (by omega)
  · exact getDirect_setDirect_bytes getDirect_thirtyTwo setDirect_thirtyTwo rfl
      (by omega) (by omega)
  · exact getDirect_setDirect_bytes getDirect_sixtyFour setDirect_sixtyFour rfl
      (by omega) (by omega)

/-- `set_direct<w>` leaves every other element, at every width and for every value. -/
theorem getDirect_setDirect_of_ne {w : Nat} (hw : w ∈ widths) (data : List UInt8) {i j : Nat}
    (v : Int) (hij : j ≠ i) : getDirect w (setDirect w data i v) j = getDirect w data j := by
  unfold widths at hw
  simp only [List.mem_cons, List.not_mem_nil, or_false] at hw
  rcases hw with rfl | rfl | rfl | rfl | rfl | rfl | rfl | rfl
  · rfl
  · exact getDirect_setDirect_sub_byte_of_ne (by decide) (by decide) getDirect_one
      setDirect_one data v hij
  · exact getDirect_setDirect_sub_byte_of_ne (by decide) (by decide) getDirect_two
      setDirect_two data v hij
  · exact getDirect_setDirect_sub_byte_of_ne (by decide) (by decide) getDirect_four
      setDirect_four data v hij
  · exact getDirect_setDirect_bytes_of_ne getDirect_eight setDirect_eight data v hij
  · exact getDirect_setDirect_bytes_of_ne getDirect_sixteen setDirect_sixteen data v hij
  · exact getDirect_setDirect_bytes_of_ne getDirect_thirtyTwo setDirect_thirtyTwo data v hij
  · exact getDirect_setDirect_bytes_of_ne getDirect_sixtyFour setDirect_sixtyFour data v hij

/-! ## The width of a value -/

lemma bitWidthTable_getD : ∀ n < 16,
    bitWidthTable.getD n 0 = if n = 0 then 0 else if n = 1 then 1 else if n < 4 then 2 else 4 := by
  decide

/-- An `int64_t` from its bits: below `2^63` the bits are the value, from `2^63` up the value is
`2^64` less. -/
lemma toInt_eq_of_toUInt64 (v : Int64) :
    (v.toUInt64.toNat < 2 ^ 63 ∧ v.toInt = v.toUInt64.toNat) ∨
      (2 ^ 63 ≤ v.toUInt64.toNat ∧ v.toInt = (v.toUInt64.toNat : Int) - 2 ^ 64) := by
  have hlt := v.toUInt64.toNat_lt
  rw [← Int64.toInt_toBitVec, BitVec.toInt_eq_toNat_bmod, Int64.toNat_toBitVec, Int.bmod_def]
  split_ifs with h <;> omega

/-- A shift right leaves nothing when the value is below `2^s`. -/
lemma shiftRight_eq_zero_iff (x s : UInt64) (hs : s.toNat < 64) :
    x >>> s = 0 ↔ x.toNat < 2 ^ s.toNat := by
  rw [← UInt64.toNat_inj, UInt64.toNat_shiftRight, UInt64.toNat_zero, Nat.mod_eq_of_lt hs,
    Nat.shiftRight_eq_div_pow, Nat.div_eq_zero_iff_lt (Nat.two_pow_pos _)]

/-- Below `16`, `bit_width` reads the table. -/
lemma bitWidth_of_lt (v : Int64) (h16 : v.toUInt64.toNat < 16) :
    bitWidth v = bitWidthTable.getD v.toUInt64.toNat 0 := by
  unfold bitWidth
  rw [if_pos ((shiftRight_eq_zero_iff _ _ (by decide)).mpr h16)]

/-- From `16` up, `bit_width` reads the bits `u` of the value, flipped when it is negative. -/
lemma bitWidth_of_ge (v u : Int64) (h16 : 16 ≤ v.toUInt64.toNat)
    (hu : (if v < 0 then ~~~v else v) = u) :
    bitWidth v = if 2 ^ 31 ≤ u.toUInt64.toNat then 64 else if 2 ^ 15 ≤ u.toUInt64.toNat then 32
      else if 2 ^ 7 ≤ u.toUInt64.toNat then 16 else 8 := by
  have hne : ¬v.toUInt64 >>> 4 = 0 := by
    rw [shiftRight_eq_zero_iff _ _ (by decide)]
    exact Nat.not_lt.mpr h16
  unfold bitWidth
  rw [if_neg hne]
  dsimp only
  simp only [hu, ne_eq, shiftRight_eq_zero_iff _ _ (by decide : (31 : UInt64).toNat < 64),
    shiftRight_eq_zero_iff _ _ (by decide : (15 : UInt64).toNat < 64),
    shiftRight_eq_zero_iff _ _ (by decide : (7 : UInt64).toNat < 64), UInt64.reduceToNat]
  split_ifs <;> omega

/-- `bit_width` on the value: the table from `0` to `15`, and otherwise the first of `8`, `16`
and `32` bits whose signed range holds the value, or `64`. -/
lemma bitWidth_cases (v : Int64) :
    (bitWidth v = 0 ∧ v.toInt = 0) ∨ (bitWidth v = 1 ∧ v.toInt = 1) ∨
      (bitWidth v = 2 ∧ 2 ≤ v.toInt ∧ v.toInt < 4) ∨ (bitWidth v = 4 ∧ 4 ≤ v.toInt ∧ v.toInt < 16) ∨
      (bitWidth v = 8 ∧ -2 ^ 7 ≤ v.toInt ∧ v.toInt < 2 ^ 7 ∧ ¬(0 ≤ v.toInt ∧ v.toInt < 16)) ∨
      (bitWidth v = 16 ∧ -2 ^ 15 ≤ v.toInt ∧ v.toInt < 2 ^ 15 ∧
        ¬(-2 ^ 7 ≤ v.toInt ∧ v.toInt < 2 ^ 7)) ∨
      (bitWidth v = 32 ∧ -2 ^ 31 ≤ v.toInt ∧ v.toInt < 2 ^ 31 ∧
        ¬(-2 ^ 15 ≤ v.toInt ∧ v.toInt < 2 ^ 15)) ∨
      (bitWidth v = 64 ∧ ¬(-2 ^ 31 ≤ v.toInt ∧ v.toInt < 2 ^ 31)) := by
  have hlt := v.toUInt64.toNat_lt
  have hint := toInt_eq_of_toUInt64 v
  have hneg : v < 0 ↔ v.toInt < 0 := by rw [Int64.lt_iff_toInt_lt, Int64.toInt_zero]
  by_cases h16 : v.toUInt64.toNat < 16
  · rw [bitWidth_of_lt v h16, bitWidthTable_getD _ h16]
    split_ifs <;> simp +decide only [false_and, false_or, true_and, or_false] <;> omega
  by_cases hv : v < 0
  · -- a negative value's bits flipped are `-v - 1`
    have ht : v.toInt < 0 := hneg.mp hv
    have hnot : (~~~v).toUInt64.toNat = 2 ^ 64 - 1 - v.toUInt64.toNat := by
      rw [Int64.toUInt64_not, UInt64.toNat_not]
      rfl
    rw [bitWidth_of_ge v (~~~v) (by omega) (if_pos hv), hnot]
    split_ifs <;> simp +decide only [false_and, false_or, true_and, or_false] <;> omega
  · have ht : 0 ≤ v.toInt := Int.not_lt.mp (mt hneg.mpr hv)
    rw [bitWidth_of_ge v v (by omega) (if_neg hv)]
    split_ifs <;> simp +decide only [false_and, false_or, true_and, or_false] <;> omega

/-- A width holds only values that every width above it holds. -/
lemma bounds_of_fits {w : Nat} (hw : w ∈ widths) {t : Int} (h : fits w t = true) :
    (w = 0 → t = 0) ∧ (w ≤ 1 → 0 ≤ t ∧ t < 2) ∧ (w ≤ 2 → 0 ≤ t ∧ t < 4) ∧
      (w ≤ 4 → 0 ≤ t ∧ t < 16) ∧ (w ≤ 8 → -2 ^ 7 ≤ t ∧ t < 2 ^ 7) ∧
      (w ≤ 16 → -2 ^ 15 ≤ t ∧ t < 2 ^ 15) ∧ (w ≤ 32 → -2 ^ 31 ≤ t ∧ t < 2 ^ 31) := by
  rw [fits_iff hw] at h
  unfold widths at hw
  simp only [List.mem_cons, List.not_mem_nil, or_false] at hw
  rcases hw with rfl | rfl | rfl | rfl | rfl | rfl | rfl | rfl <;> omega

/-- `Array::bit_width(v)` is a width whose bounds hold `v`, and no width below it holds `v`. -/
theorem bitWidth_least (v : Int64) :
    bitWidth v ∈ widths ∧ fits (bitWidth v) v.toInt = true ∧
      ∀ w ∈ widths, fits w v.toInt = true → bitWidth v ≤ w := by
  have hcases := bitWidth_cases v
  have hmem : bitWidth v ∈ widths := by
    simp only [widths, List.mem_cons, List.not_mem_nil, or_false]
    omega
  refine ⟨hmem, ?_, fun w hw hfit => ?_⟩
  · -- the value lies within the bounds of the width it gets
    have hle := v.le_toInt
    have hlt := v.toInt_lt
    rw [fits_iff hmem]
    rcases hcases with ⟨h, ht⟩ | ⟨h, ht⟩ | ⟨h, ht⟩ | ⟨h, ht⟩ | ⟨h, ht⟩ | ⟨h, ht⟩ | ⟨h, ht⟩ |
      ⟨h, ht⟩ <;> rw [h] <;> omega
  · -- a width below it misses the value
    have hbounds := bounds_of_fits hw hfit
    simp only [widths, List.mem_cons, List.not_mem_nil, or_false] at hw
    rcases hcases with ⟨h, ht⟩ | ⟨h, ht⟩ | ⟨h, ht⟩ | ⟨h, ht⟩ | ⟨h, ht⟩ | ⟨h, ht⟩ | ⟨h, ht⟩ |
      ⟨h, ht⟩ <;> rw [h] <;> omega

/-- Packed elements are a faithful store: at every width a value within the width's bounds reads
back at its index and leaves every other element, and `bit_width` picks the least width whose
bounds hold a value. -/
theorem setDirect_getDirect_faithful :
    (∀ w ∈ widths, ∀ (data : List UInt8) (i : Nat) (v : Int), fits w v = true →
      (i + 1) * w ≤ 8 * data.length →
        getDirect w (setDirect w data i v) i = v ∧
          ∀ j, j ≠ i → getDirect w (setDirect w data i v) j = getDirect w data j) ∧
    ∀ v : Int64, bitWidth v ∈ widths ∧ fits (bitWidth v) v.toInt = true ∧
      ∀ w ∈ widths, fits w v.toInt = true → bitWidth v ≤ w := by
  refine ⟨fun w hw data i v hv hi => ⟨getDirect_setDirect hw hv hi, fun j hij => ?_⟩, bitWidth_least⟩
  exact getDirect_setDirect_of_ne hw data v hij

end ArrayDirect

end Realm
