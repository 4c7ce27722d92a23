import Mathlib
import RealmCore.Lib.Decoder

/-!
# The variable-length integer codec

`_impl::encode_int` and `_impl::decode_int` (src/realm/sync/noinst/integer_codec.hpp) write an
integer in seven-bit groups, least significant first: every byte but the last has bit 7 set,
and the last holds at most six bits of the value with the sign in bit 6.  A negative `v` is
written as the magnitude `-(v + 1)` with the sign set.  The bytes depend on the value only, not
on the type it is written at, so a value written as `int64_t` reads back at any type `T` whose
range holds it (`decodeInt_encodeInt`).  `decode_int<T>` fails on a premature end, on more
bytes than `T` needs, and on a value out of the range of `T`; an unsigned `T` reads a negative
encoding whose magnitude it holds as its value modulo `2^digits`, which `IntType.readBack`
states for every value (`decodeInt_encodeInt_eq`).

A `Bid128` (the coefficient of a `Decimal128`) is written in the same seven-bit groups without
a sign, and read back by a loop of its own that takes all seven low bits of every byte
(`decodeBid128_encodeBid128`).  The code works on the two 64-bit words of the value, shifting
bits from the high word into the low one as it writes and splitting byte `9` across the two as
it reads; each round of either loop on the words is a round on the value
(`encodeBid128Words_eq`, `decodeBid128Words_eq`), so the round trip holds of the words
(`decodeBid128Words_encodeBid128Words`).

The loop of `encode_int<T>` has a bound of `encode_int_max_bytes<T>()` rounds, which a value of
`T` never reaches (`IntType.encodeInt_eq`); so `encodeInt` leaves it out, and the encoding of a
value of `T` has at most that many bytes (`IntType.length_encodeInt_le`).
-/

namespace Realm

/-- An integer type `T` as the decoder sees it: `std::numeric_limits<T>::digits` and whether it
is signed. -/
structure IntType where
  digits : Nat
  signed : Bool
deriving DecidableEq, Repr

namespace IntType

/-- `int8_t`. -/
def int8 : IntType := ⟨7, true⟩

/-- `uint8_t`. -/
def uint8 : IntType := ⟨8, false⟩

/-- `int16_t`. -/
def int16 : IntType := ⟨15, true⟩

/-- `uint16_t`. -/
def uint16 : IntType := ⟨16, false⟩

/-- `uint32_t`. -/
def uint32 : IntType := ⟨32, false⟩

/-- `uint64_t` and `size_t`. -/
def uint64 : IntType := ⟨64, false⟩

/-- `int`. -/
def int32 : IntType := ⟨31, true⟩

/-- `int64_t`. -/
def int64 : IntType := ⟨63, true⟩

/-- `encode_int_max_bytes<T>()`: one sign bit and the value bits, seven to a byte. -/
def maxBytes (T : IntType) : Nat := (1 + T.digits + 6) / 7

/-- `std::numeric_limits<T>::max()`. -/
def max (T : IntType) : Nat := 2 ^ T.digits - 1

/-- `std::numeric_limits<T>::min()`. -/
def min (T : IntType) : Int := if T.signed then -2 ^ T.digits else 0

/-- `v` is a value of `T`. -/
def InRange (T : IntType) (v : Int) : Prop := T.min ≤ v ∧ v ≤ T.max

instance (T : IntType) (v : Int) : Decidable (T.InRange v) := by
  unfold InRange
  infer_instance

end IntType

/-! ## Bytes and bits -/

section Bits

/-- Bits below `2^k` and bits from `2^k` up are disjoint, so `|||` adds them. -/
lemma or_mul_two_pow {a b k : Nat} (ha : a < 2 ^ k) : a ||| b * 2 ^ k = a + b * 2 ^ k := by
  rw [Nat.or_comm, ← Nat.shiftLeft_eq, ← Nat.shiftLeft_add_eq_or_of_lt ha, Nat.shiftLeft_eq,
    Nat.add_comm]

lemma and_0x7F (n : Nat) : n &&& 0x7F = n % 128 :=
  Nat.and_two_pow_sub_one_eq_mod n 7

lemma and_0x3F (n : Nat) : n &&& 0x3F = n % 64 :=
  Nat.and_two_pow_sub_one_eq_mod n 6

/-- `0x80` is the single bit `2 ^ 7`, which a byte has exactly when it is at least `128`. -/
lemma byte_and_0x80 : ∀ n < 256, (n &&& 0x80 = 0 ↔ n < 128) := by
  intro n _
  rw [show (0x80 : Nat) = 2 ^ 7 from rfl, Nat.and_two_pow, Nat.testBit_eq_decide_div_mod_eq]
  cases hbit : decide (n / 2 ^ 7 % 2 = 1) <;> simp at hbit ⊢ <;> omega

/-- `0x40` is the single bit `2 ^ 6`, the top bit of the seven below `0x80`. -/
lemma byte_and_0x40 : ∀ n < 256, decide (n &&& 0x40 ≠ 0) = decide (64 ≤ n % 128) := by
  intro n _
  rw [show (0x40 : Nat) = 2 ^ 6 from rfl, Nat.and_two_pow, Nat.testBit_eq_decide_div_mod_eq]
  cases hbit : decide (n / 2 ^ 6 % 2 = 1) <;> simp at hbit ⊢ <;> omega

lemma toUInt8_toNat_of_lt {n : Nat} (h : n < 256) : n.toUInt8.toNat = n := by
  rw [Nat.toUInt8_eq, UInt8.toNat_ofNat']
  omega

/-- The last byte of an encoding: the six bits of the magnitude, and the sign in bit 6. -/
lemma lastByte_toNat {u : Nat} (hu : u < 64) (negative : Bool) :
    ((if negative then 0x40 ||| u else u).toUInt8).toNat = (if negative then 64 + u else u) := by
  cases negative
  · simp only [Bool.false_eq_true, if_false]
    exact toUInt8_toNat_of_lt (by omega)
  · have h64 : (0x40 ||| u) = u + 1 * 2 ^ 6 := by
      rw [Nat.or_comm]
      exact or_mul_two_pow (b := 1) (show u < 2 ^ 6 by omega)
    simp only [if_true, h64]
    rw [toUInt8_toNat_of_lt (by omega)]
    omega

/-- A byte before the last: the low seven bits of the magnitude, with bit 7 set. -/
lemma groupByte_toNat (u : Nat) : ((0x80 ||| (u &&& 0x7F)).toUInt8).toNat = u % 128 + 128 := by
  have h : (0x80 ||| (u &&& 0x7F)) = u % 128 + 128 := by
    rw [Nat.or_comm, and_0x7F]
    exact or_mul_two_pow (b := 1) (show u % 128 < 2 ^ 7 by omega)
  rw [h, toUInt8_toNat_of_lt (by omega)]

/-- The position of the next group is seven bits up. -/
lemma two_pow_next (i : Nat) : 2 ^ (7 * (i + 1)) = 2 ^ (7 * i) * 128 := by
  rw [Nat.mul_succ, Nat.pow_add]

/-- A magnitude at position `P` is its low seven bits there and the rest seven bits up. -/
lemma mod_mul_add_div_mul (u P : Nat) : u % 128 * P + u / 128 * (P * 128) = u * P := by
  rw [Nat.mul_comm P 128, ← Nat.mul_assoc, ← Nat.add_mul, Nat.mul_comm (u / 128) 128,
    Nat.mod_add_div]

/-- The value read so far, with the low seven bits of the next group, stays below the next
position. -/
lemma add_mod_mul_lt {acc u i : Nat} (hacc : acc < 2 ^ (7 * i)) :
    acc + u % 128 * 2 ^ (7 * i) < 2 ^ (7 * (i + 1)) := by
  rw [two_pow_next]
  have : u % 128 * 2 ^ (7 * i) ≤ 127 * 2 ^ (7 * i) := Nat.mul_le_mul_right _ (by omega)
  omega

end Bits

/-! ## Encoding -/

/-- The loop of `encode_int`: the magnitude `u` in seven-bit groups, and the last byte, with at
most six bits, carrying the sign in bit 6. -/
def encodeMagnitude (negative : Bool) (u : Nat) : List UInt8 :=
  if h : u >>> 6 = 0 then [(if negative then 0x40 ||| u else u).toUInt8]
  else (0x80 ||| (u &&& 0x7F)).toUInt8 :: encodeMagnitude negative (u >>> 7)
termination_by u
decreasing_by
  simp only [Nat.shiftRight_eq_div_pow] at h ⊢
  omega

/-- `encode_int(buffer, value)`. -/
def encodeInt (v : Int) : List UInt8 :=
  if v < 0 then encodeMagnitude true (-(v + 1)).toNat else encodeMagnitude false v.toNat

/-- `encode_int(buffer, Bid128)` of the 128-bit `w[0] + 2^64 w[1]`: while the value does not fit
six bits (`value_0 >> 6 || value_1 != 0`) a byte of its low seven bits with bit 7 set, and the
128-bit shift right by seven across the two words; the last byte is the value. -/
def encodeBid128 (v : Nat) : List UInt8 :=
  encodeMagnitude false v

/-- The loop of `encode_int<T>` with `k` of its `encode_int_max_bytes<T>()` rounds left: a byte of
the low seven bits with bit 7 set while the value does not fit six bits, and then the last byte,
cut to eight bits by `uchar`. -/
def encodeIntLoop (negative : Bool) : Nat → Nat → List UInt8
  | 0, u => [(if negative then 0x40 ||| u else u).toUInt8]
  | k + 1, u =>
    if u >>> 6 = 0 then [(if negative then 0x40 ||| u else u).toUInt8]
    else (0x80 ||| (u &&& 0x7F)).toUInt8 :: encodeIntLoop negative k (u >>> 7)

/-- `_impl::encode_int<T>(buffer, value)` with the bound of its loop: a negative value of a signed
`T` is written as its magnitude `-(value + 1)` with the sign set. -/
def IntType.encodeInt (T : IntType) (v : Int) : List UInt8 :=
  if T.signed ∧ v < 0 then encodeIntLoop true T.maxBytes (-(v + 1)).toNat
  else encodeIntLoop false T.maxBytes v.toNat

/-- The types the codecs are instantiated at: `int8_t` to `int64_t` and `uint8_t` to `uint64_t`,
with `int` as `int32_t` and `size_t` as `uint64_t`. -/
def IntType.codecTypes : List IntType :=
  [.int8, .uint8, .int16, .uint16, .int32, .uint32, .int64, .uint64]

/-! ### The two words of a `Bid128` -/

/-- A `Bid128`, the words `w[0]` and `w[1]` of the 128-bit value `w[0] + 2^64 w[1]`. -/
structure Bid128 where
  w0 : UInt64
  w1 : UInt64
deriving DecidableEq, Repr

namespace Bid128

/-- The value of the two words. -/
def toNat (b : Bid128) : Nat := b.w0.toNat + 2 ^ 64 * b.w1.toNat

/-- A round of the loop of `encode_int(buffer, Bid128)`: `value_0 >>= 7`, and while `value_1` is
not zero its low seven bits move into the top of `value_0` and it shifts by seven too. -/
def shift (b : Bid128) : Bid128 :=
  if b.w1 ≠ 0 then ⟨(b.w0 >>> 7) ||| ((b.w1 &&& 0x7F) <<< 57), b.w1 >>> 7⟩
  else ⟨b.w0 >>> 7, b.w1⟩

/-- The round is a 128-bit shift right by seven. -/
lemma toNat_shift (b : Bid128) : b.shift.toNat = b.toNat / 128 := by
  have h0 := b.w0.toNat_lt
  unfold shift toNat
  split
  · have hlow : (b.w0 >>> 7).toNat < 2 ^ 57 := by
      rw [UInt64.toNat_shiftRight, Nat.shiftRight_eq_div_pow]
      simp only [UInt64.reduceToNat, Nat.reduceMod]
      omega
    have hhigh : ((b.w1 &&& 0x7F) <<< 57).toNat = b.w1.toNat % 128 * 2 ^ 57 := by
      rw [UInt64.toNat_shiftLeft, UInt64.toNat_and]
      simp only [UInt64.reduceToNat, Nat.reduceMod]
      rw [and_0x7F, Nat.shiftLeft_eq]
      omega
    rw [UInt64.toNat_or, hhigh, or_mul_two_pow hlow, UInt64.toNat_shiftRight,
      UInt64.toNat_shiftRight, Nat.shiftRight_eq_div_pow, Nat.shiftRight_eq_div_pow]
    simp only [UInt64.reduceToNat, Nat.reduceMod]
    omega
  · rename_i h1
    rw [not_not.mp h1, UInt64.toNat_shiftRight, Nat.shiftRight_eq_div_pow]
    simp only [UInt64.reduceToNat, Nat.reduceMod, UInt64.toNat_zero]
    omega

/-- The loop runs while the value does not fit six bits. -/
lemma loop_cond_iff (b : Bid128) : (b.w0 >>> 6 ≠ 0 ∨ b.w1 ≠ 0) ↔ 64 ≤ b.toNat := by
  have h0 := b.w0.toNat_lt
  have hshift : (b.w0 >>> 6).toNat = b.w0.toNat / 64 := by
    rw [UInt64.toNat_shiftRight, Nat.shiftRight_eq_div_pow]
    rfl
  rw [ne_eq, ne_eq, ← UInt64.toNat_inj, ← UInt64.toNat_inj, hshift]
  simp only [UInt64.reduceToNat, toNat]
  omega

end Bid128

/-- `encode_int(buffer, Bid128)` on the two words: while `value_0 >> 6 || value_1 != 0`, a byte of
the low seven bits of `value_0` with bit 7 set and a round of the shift; then the byte
`value_0`. -/
def encodeBid128Words (b : Bid128) : List UInt8 :=
  if b.w0 >>> 6 ≠ 0 ∨ b.w1 ≠ 0 then
    (0x80 ||| (b.w0 &&& 0x7F)).toUInt8 :: encodeBid128Words b.shift
  else [b.w0.toUInt8]
termination_by b.toNat
decreasing_by
  rw [Bid128.toNat_shift]
  have := (Bid128.loop_cond_iff b).mp ‹_›
  omega

/-! ## Decoding -/

/-- The loop of `decode_int<T>` from byte `i`, with `acc` the value of the bytes before it: the
magnitude, whether the sign bit of the last byte is set, and the rest of the input.  A byte
without bit 7 is the last, and its six value bits must not overflow `T` when shifted into place
(`int_shift_left_with_overflow_detect`); a byte with bit 7 at the last position `T` allows is
an error.  The groups occupy bits above those set so far, so `|=` adds them. -/
def decodeLoop (T : IntType) (i acc : Nat) : List UInt8 → Option (Nat × Bool × List UInt8)
  | [] => none
  | c :: rest =>
    let part := c.toNat
    if part &&& 0x80 = 0 then
      let p := part &&& 0x3F
      if T.max >>> (i * 7) < p then none
      else some (acc ||| (p <<< (i * 7)), part &&& 0x40 ≠ 0, rest)
    else if i = T.maxBytes - 1 then none
    else decodeLoop T (i + 1) (acc ||| ((part &&& 0x7F) <<< (i * 7))) rest

/-- `decode_int<T>(input, value)`: the value and the rest of the input, or `none` where it
returns `false`.  A set sign bit negates the magnitude and subtracts one, which cannot
overflow a signed `T`; in an unsigned `T` the negation wraps, and subtracting one from `0`
overflows. -/
def decodeInt (T : IntType) (input : List UInt8) : Option (Int × List UInt8) :=
  match decodeLoop T 0 0 input with
  | none => none
  | some (m, negative, rest) =>
    if !negative then some (m, rest)
    else if T.signed then some (-(m : Int) - 1, rest)
    else if m = 0 then none
    else some (2 ^ T.digits - m - 1, rest)

/-- The loop of `decode_int(input, Bid128&)` from byte `i`: the seven low bits of every byte go
to bit `7 i` of the 128-bit value (at `i = 9` split between the two words), a byte without bit
7 is the last, and there are at most `17` bytes. -/
def decodeBid128Loop (i acc : Nat) : List UInt8 → Option (Nat × List UInt8)
  | [] => none
  | c :: rest =>
    if i < 17 then
      let acc := acc ||| ((c.toNat &&& 0x7F) <<< (7 * i))
      if c.toNat &&& 0x80 = 0 then some (acc, rest) else decodeBid128Loop (i + 1) acc rest
    else none

/-- `decode_int(input, Bid128&)`. -/
def decodeBid128 (input : List UInt8) : Option (Nat × List UInt8) :=
  decodeBid128Loop 0 0 input

/-- Where byte `i` of `decode_int(input, Bid128&)` puts its seven bits `part`: at bit `7 i` of
`value_0` below byte `9`; at byte `9` one bit into bit `63` of `value_0` and six into the low bits
of `value_1`; at bit `7 i - 64` of `value_1` up to byte `16`; and after that the input has too
many bytes. -/
def Bid128.splice (b : Bid128) (i : Nat) (part : UInt64) : Option Bid128 :=
  if i < 9 then some ⟨b.w0 ||| (part <<< (7 * i).toUInt64), b.w1⟩
  else if i = 9 then some ⟨b.w0 ||| (part <<< 63), b.w1 ||| (part >>> 1)⟩
  else if i < 17 then some ⟨b.w0, b.w1 ||| (part <<< (7 * i - 64).toUInt64)⟩
  else none

/-- The loop of `decode_int(input, Bid128&)` on the two words, from byte `i`. -/
def decodeBid128WordsLoop (i : Nat) (b : Bid128) : List UInt8 → Option (Bid128 × List UInt8)
  | [] => none
  | c :: rest =>
    match b.splice i (c &&& 0x7F).toUInt64 with
    | none => none
    | some b => if c &&& 0x80 = 0 then some (b, rest) else decodeBid128WordsLoop (i + 1) b rest

/-- `decode_int(input, Bid128&)` on the two words. -/
def decodeBid128Words (input : List UInt8) : Option (Bid128 × List UInt8) :=
  decodeBid128WordsLoop 0 ⟨0, 0⟩ input

/-! ## Round trips -/

section RoundTrip

variable (T : IntType) (negative : Bool) (rest : List UInt8)

lemma encodeMagnitude_ne_nil (u : Nat) : encodeMagnitude negative u ≠ [] := by
  rw [encodeMagnitude]
  split <;> simp

lemma encodeInt_ne_nil (v : Int) : encodeInt v ≠ [] := by
  unfold encodeInt
  split <;> exact encodeMagnitude_ne_nil _ _

/-- Enough bytes for `T` cover its values: a group before the last at the last position `T`
allows would put the value past `T.max`. -/
lemma two_pow_le_of_maxBytes (i : Nat) (hi : i = T.maxBytes - 1) :
    2 ^ T.digits ≤ 2 ^ (7 * i + 6) := by
  refine Nat.pow_le_pow_right (by decide) ?_
  unfold IntType.maxBytes at hi
  omega

/-- The last byte of an encoding, read at position `i`: its six bits go to bit `7 i` unless
they overflow `T` there, and bit 6 is the sign. -/
lemma decodeLoop_lastByte {u : Nat} (hu : u < 64) {i acc : Nat} (hacc : acc < 2 ^ (7 * i)) :
    decodeLoop T i acc ((if negative then 0x40 ||| u else u).toUInt8 :: rest) =
      if T.max >>> (i * 7) < u then none else some (acc + u * 2 ^ (7 * i), negative, rest) := by
  have hbyte := lastByte_toNat hu negative
  simp only [decodeLoop, hbyte]
  have h80 : (if negative then 64 + u else u) &&& 0x80 = 0 :=
    (byte_and_0x80 _ (by split <;> omega)).mpr (by split <;> omega)
  have h3F : (if negative then 64 + u else u) &&& 0x3F = u := by
    rw [and_0x3F]
    split <;> omega
  have h40 : decide ((if negative then 64 + u else u) &&& 0x40 ≠ 0) = negative := by
    rw [byte_and_0x40 _ (by split <;> omega)]
    by_cases hn : negative = true
    · simp only [hn, if_true, decide_eq_true_eq]
      omega
    · rw [Bool.not_eq_true] at hn
      simp only [hn, Bool.false_eq_true, if_false, decide_eq_false_iff_not]
      omega
  rw [if_pos h80, h3F, h40, Nat.shiftLeft_eq, Nat.mul_comm i 7, or_mul_two_pow hacc]

/-- A byte before the last, read at position `i`: an error at the last position `T` allows,
and otherwise its seven bits go to bit `7 i` and the loop goes on. -/
lemma decodeLoop_groupByte (u : Nat) {i acc : Nat} (hacc : acc < 2 ^ (7 * i)) :
    decodeLoop T i acc ((0x80 ||| (u &&& 0x7F)).toUInt8 :: rest) =
      if i = T.maxBytes - 1 then none
      else decodeLoop T (i + 1) (acc + u % 128 * 2 ^ (7 * i)) rest := by
  simp only [decodeLoop, groupByte_toNat u]
  have h80 : ¬(u % 128 + 128) &&& 0x80 = 0 := by
    rw [byte_and_0x80 _ (by omega)]
    omega
  have h7F : (u % 128 + 128) &&& 0x7F = u % 128 := by
    rw [and_0x7F]
    omega
  rw [if_neg h80, h7F, Nat.shiftLeft_eq, Nat.mul_comm i 7, or_mul_two_pow hacc]

/-- The magnitude at the next position is the rest of `u` seven bits up. -/
lemma add_mod_add_div (acc u i : Nat) :
    acc + u % 128 * 2 ^ (7 * i) + u / 2 ^ 7 * 2 ^ (7 * (i + 1)) = acc + u * 2 ^ (7 * i) := by
  rw [two_pow_next, Nat.add_assoc, show (2 : Nat) ^ 7 = 128 from rfl, mod_mul_add_div_mul]

/-- The decoding loop reads an encoded magnitude back, from any position `i` whose value so
far `acc` lies below the bits of `i`, as long as the whole value fits `T`.  The induction is
on the magnitude, one group a step. -/
lemma decodeLoop_encodeMagnitude :
    ∀ (u i acc : Nat), acc < 2 ^ (7 * i) → acc + u * 2 ^ (7 * i) ≤ T.max →
      decodeLoop T i acc (encodeMagnitude negative u ++ rest) =
        some (acc + u * 2 ^ (7 * i), negative, rest) := by
  intro u
  induction u using Nat.strongRecOn with
  | _ u ih =>
    intro i acc hacc hfit
    rw [encodeMagnitude]
    split
    · -- the last byte: six bits and the sign
      rename_i h6
      rw [Nat.shiftRight_eq_div_pow] at h6
      have hfits : ¬T.max >>> (i * 7) < u := by
        rw [Nat.shiftRight_eq_div_pow, Nat.mul_comm i 7, Nat.not_lt, Nat.le_div_iff_mul_le
          (Nat.two_pow_pos _)]
        omega
      rw [List.singleton_append, decodeLoop_lastByte T negative rest (by omega) hacc, if_neg hfits]
    · -- a byte before the last: seven bits, and the loop goes on
      rename_i h6
      rw [Nat.shiftRight_eq_div_pow] at h6
      have hlast : i ≠ T.maxBytes - 1 := by
        intro hi
        have h1 := two_pow_le_of_maxBytes T i hi
        have h2 : 2 ^ (7 * i + 6) ≤ u * 2 ^ (7 * i) := by
          rw [Nat.pow_add, Nat.mul_comm]
          exact Nat.mul_le_mul_right _ (show 2 ^ 6 ≤ u by omega)
        unfold IntType.max at hfit
        have : 0 < 2 ^ T.digits := Nat.two_pow_pos _
        omega
      rw [List.cons_append, decodeLoop_groupByte T _ u hacc, if_neg hlast,
        Nat.shiftRight_eq_div_pow]
      -- the next position holds the rest of the magnitude
      have hfit' : acc + u % 128 * 2 ^ (7 * i) + u / 2 ^ 7 * 2 ^ (7 * (i + 1)) ≤ T.max := by
        rw [add_mod_add_div]
        exact hfit
      rw [ih (u / 2 ^ 7) (by omega) (i + 1) _ (add_mod_mul_lt hacc) hfit', add_mod_add_div]

/-- The positions the loop reaches lie within `T`. -/
lemma seven_mul_le_digits {i : Nat} (hi : i ≤ T.maxBytes - 1) : 7 * i ≤ T.digits := by
  unfold IntType.maxBytes at hi
  omega

/-- A value past `T.max` at a position within `T` has its top group past `T.max` too: the
bits below the position cannot carry it over. -/
lemma max_lt_mul_of_max_lt_add {acc u k : Nat} (hk : k ≤ T.digits) (hacc : acc < 2 ^ k)
    (hmax : T.max < acc + u * 2 ^ k) : T.max < u * 2 ^ k := by
  have hsplit : 2 ^ T.digits = 2 ^ (T.digits - k) * 2 ^ k := by
    rw [← Nat.pow_add, Nat.sub_add_cancel hk]
  have hlt : 2 ^ (T.digits - k) * 2 ^ k < (u + 1) * 2 ^ k := by
    unfold IntType.max at hmax
    rw [← hsplit, Nat.add_mul, Nat.one_mul]
    have : 0 < 2 ^ T.digits := Nat.two_pow_pos _
    omega
  have hle : 2 ^ (T.digits - k) ≤ u := Nat.lt_succ_iff.mp (Nat.lt_of_mul_lt_mul_right hlt)
  have hmul := Nat.mul_le_mul_right (2 ^ k) hle
  have hpos : 0 < 2 ^ (T.digits - k) * 2 ^ k := Nat.mul_pos (Nat.two_pow_pos _) (Nat.two_pow_pos _)
  unfold IntType.max
  rw [hsplit]
  omega

/-- A magnitude that does not fit `T` is an error, at the last byte's overflow check or at a
byte past the last position `T` allows.  The induction is on the magnitude, as for
`decodeLoop_encodeMagnitude`. -/
lemma decodeLoop_encodeMagnitude_eq_none :
    ∀ (u i acc : Nat), acc < 2 ^ (7 * i) → i ≤ T.maxBytes - 1 → T.max < acc + u * 2 ^ (7 * i) →
      decodeLoop T i acc (encodeMagnitude negative u ++ rest) = none := by
  intro u
  induction u using Nat.strongRecOn with
  | _ u ih =>
    intro i acc hacc hi hmax
    rw [encodeMagnitude]
    split
    · -- the last byte overflows `T` at its position
      rename_i h6
      rw [Nat.shiftRight_eq_div_pow] at h6
      have hover : T.max >>> (i * 7) < u := by
        rw [Nat.shiftRight_eq_div_pow, Nat.mul_comm i 7, Nat.div_lt_iff_lt_mul (Nat.two_pow_pos _)]
        exact max_lt_mul_of_max_lt_add T (seven_mul_le_digits T hi) hacc hmax
      rw [List.singleton_append, decodeLoop_lastByte T negative rest (by omega) hacc, if_pos hover]
    · rw [List.cons_append, decodeLoop_groupByte T _ u hacc]
      split
      · rfl
      · -- not yet the last position: the rest of the magnitude still overflows
        rename_i hlast
        rw [Nat.shiftRight_eq_div_pow]
        exact ih (u / 2 ^ 7) (by omega) (i + 1) _ (add_mod_mul_lt hacc) (by omega)
          (by rw [add_mod_add_div]; exact hmax)

/-- The whole loop, from the first byte, on a magnitude that fits `T`. -/
lemma decodeLoop_zero_encodeMagnitude {u : Nat} (hu : u ≤ T.max) :
    decodeLoop T 0 0 (encodeMagnitude negative u ++ rest) = some (u, negative, rest) := by
  have h := decodeLoop_encodeMagnitude T negative rest u 0 0 (Nat.two_pow_pos _) (by simpa using hu)
  simpa using h

/-- The whole loop, from the first byte, on a magnitude past `T.max`. -/
lemma decodeLoop_zero_encodeMagnitude_eq_none {u : Nat} (hu : T.max < u) :
    decodeLoop T 0 0 (encodeMagnitude negative u ++ rest) = none :=
  decodeLoop_encodeMagnitude_eq_none T negative rest u 0 0 (Nat.two_pow_pos _) (Nat.zero_le _)
    (by simpa using hu)

/-- `T.max` as an integer. -/
lemma max_cast (T : IntType) : ((T.max : Nat) : Int) = 2 ^ T.digits - 1 := by
  unfold IntType.max
  rw [Int.ofNat_sub Nat.one_le_two_pow, Int.natCast_pow]
  rfl

/-- A value of `T` written at any type reads back at `T`. -/
theorem decodeInt_encodeInt {v : Int} (hv : T.InRange v) :
    decodeInt T (encodeInt v ++ rest) = some (v, rest) := by
  obtain ⟨hmin, hmax⟩ := hv
  have hcast := max_cast T
  unfold encodeInt
  split
  · -- a negative value is its magnitude `-(v + 1)` with the sign set
    rename_i hneg
    have hsigned : T.signed = true := by
      unfold IntType.min at hmin
      split at hmin <;> omega
    have hm : (-(v + 1)).toNat ≤ T.max := by
      unfold IntType.min at hmin
      rw [if_pos hsigned] at hmin
      omega
    rw [decodeInt, decodeLoop_zero_encodeMagnitude T true rest hm]
    simp only [Bool.not_true, Bool.false_eq_true, if_false, hsigned, if_true]
    congr 2
    omega
  · rename_i hnonneg
    rw [decodeInt, decodeLoop_zero_encodeMagnitude T false rest (by omega)]
    simp only [Bool.not_false, if_true]
    congr 2
    omega

/-- What `decode_int<T>` makes of the bytes that `encode_int` writes for `v`, at whatever type
it was written: `v` when `T` holds it; in an unsigned `T`, a negative `v` below `-1` whose
magnitude `-(v + 1)` fits `T` reads as `v + 2^digits`, where the negation wraps; every other
value is an error. -/
def IntType.readBack (T : IntType) (v : Int) : Option Int :=
  if T.InRange v then some v
  else if !T.signed && decide (v < -1) && decide (-(v + 1) ≤ T.max) then some (v + 2 ^ T.digits)
  else none

/-- `decode_int<T>` on the encoding of any integer, and how many bytes it reads: the value
comes back exactly when `T` holds it, except that an unsigned `T` reads a negative value whose
magnitude it holds modulo `2^digits`; every other value is an error. -/
theorem decodeInt_encodeInt_eq (v : Int) :
    decodeInt T (encodeInt v ++ rest) = (T.readBack v).map (·, rest) := by
  by_cases hin : T.InRange v
  · rw [IntType.readBack, if_pos hin, Option.map_some, decodeInt_encodeInt T rest hin]
  rw [IntType.readBack, if_neg hin]
  have hcast := max_cast T
  unfold IntType.InRange IntType.min at hin
  unfold encodeInt
  split
  · rename_i hneg
    by_cases hm : (-(v + 1)).toNat ≤ T.max
    · -- the magnitude fits, so only an unsigned `T` misses `v`
      have hunsigned : T.signed = false := by
        by_contra hs
        rw [Bool.not_eq_false] at hs
        simp only [hs, if_true] at hin
        omega
      rw [decodeInt, decodeLoop_zero_encodeMagnitude T true rest hm]
      by_cases hm1 : v = -1
      · -- `-0 - 1` overflows
        subst hm1
        simp [hunsigned]
      · have hlt : v < -1 := by omega
        simp only [Bool.not_true, Bool.false_eq_true, if_false, hunsigned, Bool.not_false,
          decide_eq_true hlt, Bool.true_and, Bool.false_eq_true]
        rw [if_neg (by omega), if_pos (by simpa using (show -(v + 1) ≤ (T.max : Int) by omega))]
        simp only [Option.map_some, Option.some.injEq, Prod.mk.injEq, and_true]
        omega
    · rw [decodeInt, decodeLoop_zero_encodeMagnitude_eq_none T true rest (Nat.lt_of_not_le hm)]
      simp only [Bool.and_eq_true, decide_eq_true_eq, Bool.not_eq_true']
      rw [if_neg (by omega)]
      rfl
  · rename_i hnonneg
    rw [decodeInt, decodeLoop_zero_encodeMagnitude_eq_none T false rest (by split at hin <;> omega)]
    rw [if_neg (by simp; omega)]
    rfl

/-- The `Bid128` loop reads back every value of at most `7 (17 - i) - 1` bits from position
`i`, one group a step. -/
lemma decodeBid128Loop_encodeMagnitude :
    ∀ (u i acc : Nat), i < 17 → acc < 2 ^ (7 * i) → u < 2 ^ (7 * (17 - i) - 1) →
      decodeBid128Loop i acc (encodeMagnitude false u ++ rest) =
        some (acc + u * 2 ^ (7 * i), rest) := by
  intro u
  induction u using Nat.strongRecOn with
  | _ u ih =>
    intro i acc hi hacc hfit
    rw [encodeMagnitude]
    split
    · rename_i h6
      rw [Nat.shiftRight_eq_div_pow] at h6
      have hu : u < 64 := by omega
      simp only [List.singleton_append, decodeBid128Loop, lastByte_toNat hu false]
      simp only [Bool.false_eq_true, if_false]
      have h80 : u &&& 0x80 = 0 := (byte_and_0x80 _ (by omega)).mpr (by omega)
      have h7F : u &&& 0x7F = u := by
        rw [and_0x7F]
        omega
      rw [if_pos hi, h7F, h80, Nat.shiftLeft_eq, or_mul_two_pow hacc]
      simp
    · rename_i h6
      rw [Nat.shiftRight_eq_div_pow] at h6
      have hu : 64 ≤ u := by omega
      simp only [List.cons_append, decodeBid128Loop, groupByte_toNat u]
      have h80 : ¬(u % 128 + 128) &&& 0x80 = 0 := by
        rw [byte_and_0x80 _ (by omega)]
        omega
      have h7F : (u % 128 + 128) &&& 0x7F = u % 128 := by
        rw [and_0x7F]
        omega
      rw [if_pos hi, h7F, if_neg h80, Nat.shiftLeft_eq, or_mul_two_pow hacc,
        Nat.shiftRight_eq_div_pow]
      have hsplit : acc + u % 128 * 2 ^ (7 * i) + u / 2 ^ 7 * 2 ^ (7 * (i + 1)) =
          acc + u * 2 ^ (7 * i) := by
        rw [two_pow_next, Nat.add_assoc, show (2 : Nat) ^ 7 = 128 from rfl, mod_mul_add_div_mul]
      -- a group before the last leaves room for one more
      have hi' : i + 1 < 17 := by
        by_contra h16
        rw [show 7 * (17 - i) - 1 = 6 by omega, show (2 : Nat) ^ 6 = 64 from rfl] at hfit
        omega
      have hfit' : u / 2 ^ 7 < 2 ^ (7 * (17 - (i + 1)) - 1) := by
        have h17 : 7 * (17 - i) - 1 = (7 * (17 - (i + 1)) - 1) + 7 := by omega
        rw [h17, Nat.pow_add] at hfit
        exact Nat.div_lt_of_lt_mul (by rw [Nat.mul_comm]; exact hfit)
      rw [ih (u / 2 ^ 7) (by omega) (i + 1) _ hi' (add_mod_mul_lt hacc) hfit', hsplit]

/-- A `Bid128` of at most `118` bits reads back. -/
theorem decodeBid128_encodeBid128 {v : Nat} (hv : v < 2 ^ 118) :
    decodeBid128 (encodeBid128 v ++ rest) = some (v, rest) := by
  have h := decodeBid128Loop_encodeMagnitude rest v 0 0 (by decide) (Nat.two_pow_pos _)
    (by simpa using hv)
  simpa [decodeBid128, encodeBid128] using h

end RoundTrip

/-! ## The bound of the encoder's loop

A magnitude below `2^(7 k + 6)` takes `k` bytes with bit 7 set and a last byte, so the bound of
`encode_int_max_bytes<T>()` rounds is never what stops the loop on a value of `T`. -/

section Bounds

variable (negative : Bool)

lemma shiftRight_six_eq_zero {u : Nat} (hu : u < 2 ^ 6) : u >>> 6 = 0 := by
  rw [Nat.shiftRight_eq_div_pow]
  exact Nat.div_eq_of_lt hu

lemma shiftRight_six_ne_zero {u : Nat} (hu : 2 ^ 6 ≤ u) : u >>> 6 ≠ 0 := by
  rw [Nat.shiftRight_eq_div_pow]
  exact Nat.ne_of_gt (Nat.div_pos hu (Nat.two_pow_pos 6))

lemma shiftRight_seven_lt {u k : Nat} (hu : u < 2 ^ (7 * (k + 1) + 6)) :
    u >>> 7 < 2 ^ (7 * k + 6) := by
  rw [Nat.shiftRight_eq_div_pow]
  refine Nat.div_lt_of_lt_mul ?_
  rwa [← Nat.pow_add, Nat.add_comm 7, show 7 * k + 6 + 7 = 7 * (k + 1) + 6 by omega]

/-- An encoding of a magnitude below `2^(7 k + 6)` has at most `k + 1` bytes. -/
lemma length_encodeMagnitude_le :
    ∀ (k u : Nat), u < 2 ^ (7 * k + 6) → (encodeMagnitude negative u).length ≤ k + 1
  | 0, u, hu => by
    rw [encodeMagnitude, dif_pos (shiftRight_six_eq_zero hu)]
    simp
  | k + 1, u, hu => by
    rw [encodeMagnitude]
    split
    · simp
    · rw [List.length_cons]
      have := length_encodeMagnitude_le k (u >>> 7) (shiftRight_seven_lt hu)
      omega

/-- With `k` rounds left, the loop of `encode_int<T>` writes a magnitude below `2^(7 k + 6)` as
the unbounded loop does. -/
lemma encodeIntLoop_eq :
    ∀ (k u : Nat), u < 2 ^ (7 * k + 6) → encodeIntLoop negative k u = encodeMagnitude negative u
  | 0, u, hu => by
    rw [encodeIntLoop, encodeMagnitude, dif_pos (shiftRight_six_eq_zero hu)]
  | k + 1, u, hu => by
    rw [encodeIntLoop, encodeMagnitude]
    split
    · rfl
    · rw [encodeIntLoop_eq k (u >>> 7) (shiftRight_seven_lt hu)]

/-- `encode_int_max_bytes<T>()` bytes hold every magnitude of `T`. -/
lemma max_lt_two_pow_maxBytes (T : IntType) : T.max < 2 ^ (7 * (T.maxBytes - 1) + 6) := by
  have hd : T.digits ≤ 7 * (T.maxBytes - 1) + 6 := by
    unfold IntType.maxBytes
    omega
  calc T.max < 2 ^ T.digits := Nat.sub_lt (Nat.two_pow_pos _) Nat.one_pos
    _ ≤ _ := Nat.pow_le_pow_right (by decide) hd

lemma one_le_maxBytes (T : IntType) : 1 ≤ T.maxBytes := by
  unfold IntType.maxBytes
  omega

variable {T : IntType} {v : Int}

/-- A value of `T` that is not negative has a magnitude of `T`. -/
lemma toNat_le_max (hv : T.InRange v) : v.toNat ≤ T.max := by
  have hcast := max_cast T
  obtain ⟨-, hmax⟩ := hv
  omega

/-- A negative value of `T` is a value of a signed `T`, and its magnitude is one of `T`. -/
lemma signed_of_neg (hv : T.InRange v) (hneg : v < 0) :
    T.signed = true ∧ (-(v + 1)).toNat ≤ T.max := by
  have hcast := max_cast T
  obtain ⟨hmin, -⟩ := hv
  unfold IntType.min at hmin
  split at hmin
  · refine ⟨‹_›, ?_⟩
    omega
  · omega

/-- On a value of `T` the bound of the loop is never reached. -/
theorem IntType.encodeInt_eq (hv : T.InRange v) : T.encodeInt v = Realm.encodeInt v := by
  -- the loop has one round more than the groups before the last byte need
  have hmax : T.max < 2 ^ (7 * T.maxBytes + 6) :=
    Nat.lt_of_lt_of_le (max_lt_two_pow_maxBytes T) (Nat.pow_le_pow_right (by decide) (by omega))
  unfold IntType.encodeInt Realm.encodeInt
  by_cases hneg : v < 0
  · obtain ⟨hsigned, hm⟩ := signed_of_neg hv hneg
    rw [if_pos ⟨hsigned, hneg⟩, if_pos hneg, encodeIntLoop_eq _ _ _ (by omega)]
  · rw [if_neg (fun h => hneg h.2), if_neg hneg,
      encodeIntLoop_eq _ _ _ (Nat.lt_of_le_of_lt (toNat_le_max hv) hmax)]

/-- `encode_int<T>` writes at most `encode_int_max_bytes<T>()` bytes for a value of `T`. -/
theorem IntType.length_encodeInt_le (hv : T.InRange v) : (T.encodeInt v).length ≤ T.maxBytes := by
  have hmax := max_lt_two_pow_maxBytes T
  have hone := one_le_maxBytes T
  rw [IntType.encodeInt_eq hv]
  unfold Realm.encodeInt
  split
  · have hm := (signed_of_neg hv ‹_›).2
    have := length_encodeMagnitude_le true _ _ (Nat.lt_of_le_of_lt hm hmax)
    omega
  · have := length_encodeMagnitude_le false _ _ (Nat.lt_of_le_of_lt (toNat_le_max hv) hmax)
    omega

/-- The extremes of `int64_t` and `uint64_t` take all ten bytes. -/
example : (IntType.int64.encodeInt (-2 ^ 63)).length = 10 ∧
    (IntType.uint64.encodeInt (2 ^ 64 - 1)).length = 10 := by
  decide

end Bounds

/-! ## The words of a `Bid128`

The encoder and the decoder work on the two words of a `Bid128`; each round of either is a step
of the loop on the value (`encodeBid128Words_eq`, `decodeBid128Words_eq`), so the round trip
of the value holds of the words. -/

section Words

namespace Bid128

/-- Two `Bid128`s are equal when their values are. -/
lemma eq_of_toNat_eq {b b' : Bid128} (h : b.toNat = b'.toNat) : b = b' := by
  have := b.w0.toNat_lt
  have := b'.w0.toNat_lt
  unfold toNat at h
  have h0 : b.w0.toNat = b'.w0.toNat := by omega
  have h1 : b.w1.toNat = b'.w1.toNat := by omega
  cases b
  cases b'
  rw [mk.injEq]
  exact ⟨UInt64.toNat_inj.mp h0, UInt64.toNat_inj.mp h1⟩

/-- Bits put at `k` by `|` into a word below `2^k` add. -/
lemma toNat_or_shiftLeft {a p : UInt64} {k : Nat} (hk : k < 64) (ha : a.toNat < 2 ^ k)
    (hp : p.toNat * 2 ^ k < 2 ^ 64) :
    (a ||| p <<< k.toUInt64).toNat = a.toNat + p.toNat * 2 ^ k := by
  rw [UInt64.toNat_or, UInt64.toNat_shiftLeft, Nat.toUInt64_eq, UInt64.toNat_ofNat',
    Nat.mod_eq_of_lt (show k < 2 ^ 64 by omega), Nat.mod_eq_of_lt hk, Nat.shiftLeft_eq,
    Nat.mod_eq_of_lt hp, or_mul_two_pow ha]

/-- Seven bits at `k` stay in a word up to `k = 57`. -/
lemma mul_two_pow_lt {p k : Nat} (hp : p < 128) (hk : k ≤ 57) : p * 2 ^ k < 2 ^ 64 :=
  calc p * 2 ^ k < 2 ^ 7 * 2 ^ k := Nat.mul_lt_mul_of_pos_right hp (Nat.two_pow_pos k)
    _ = 2 ^ (7 + k) := (Nat.pow_add 2 7 k).symm
    _ ≤ 2 ^ 64 := Nat.pow_le_pow_right (by decide) (by omega)

/-- A value below `2^(7 i)` with `7 i ≤ 64` has no high word. -/
lemma w1_eq_zero {b : Bid128} {i : Nat} (hi : 7 * i ≤ 64) (hb : b.toNat < 2 ^ (7 * i)) :
    b.w1.toNat = 0 := by
  have : 2 ^ (7 * i) ≤ 2 ^ 64 := Nat.pow_le_pow_right (by decide) hi
  unfold toNat at hb
  omega

/-- Below byte `17` the seven bits of byte `i` go to bit `7 i` of the value, above the bits of
the bytes before it. -/
lemma splice_eq {b : Bid128} {i : Nat} {part : UInt64} (hi : i < 17)
    (hb : b.toNat < 2 ^ (7 * i)) (hp : part.toNat < 128) :
    ∃ b', b.splice i part = some b' ∧ b'.toNat = b.toNat + part.toNat * 2 ^ (7 * i) := by
  unfold splice
  by_cases h9 : i < 9
  · -- all in the low word
    have hw1 := w1_eq_zero (by omega) hb
    have hw0 : b.w0.toNat < 2 ^ (7 * i) := by
      unfold toNat at hb
      omega
    refine ⟨_, if_pos h9, ?_⟩
    unfold toNat
    rw [toNat_or_shiftLeft (by omega) hw0 (mul_two_pow_lt hp (by omega)), hw1]
    omega
  rw [if_neg h9]
  by_cases h9' : i = 9
  · -- one bit to the top of the low word, six to the high word
    subst h9'
    have hw1 := w1_eq_zero (by omega) hb
    have hw0 : b.w0.toNat < 2 ^ 63 := by
      unfold toNat at hb
      omega
    refine ⟨_, if_pos rfl, ?_⟩
    have hlow : (b.w0 ||| part <<< 63).toNat = b.w0.toNat + part.toNat % 2 * 2 ^ 63 := by
      rw [UInt64.toNat_or, UInt64.toNat_shiftLeft]
      simp only [UInt64.reduceToNat, Nat.reduceMod]
      rw [Nat.shiftLeft_eq, show part.toNat * 2 ^ 63 % 2 ^ 64 = part.toNat % 2 * 2 ^ 63 by omega,
        or_mul_two_pow hw0]
    have hhigh : (b.w1 ||| part >>> 1).toNat = part.toNat / 2 := by
      rw [UInt64.toNat_or, hw1, Nat.zero_or, UInt64.toNat_shiftRight]
      simp only [UInt64.reduceToNat, Nat.reduceMod]
      rw [Nat.shiftRight_eq_div_pow, Nat.pow_one]
    unfold toNat
    rw [hlow, hhigh, hw1]
    omega
  rw [if_neg h9', if_pos hi]
  -- all in the high word, at bit `7 i - 64`
  have hsplit : 2 ^ (7 * i) = 2 ^ 64 * 2 ^ (7 * i - 64) := by
    rw [← Nat.pow_add]
    congr 1
    omega
  have hw1 : b.w1.toNat < 2 ^ (7 * i - 64) := by
    unfold toNat at hb
    rw [hsplit] at hb
    exact Nat.lt_of_mul_lt_mul_left (Nat.lt_of_le_of_lt (Nat.le_add_left _ _) hb)
  refine ⟨_, rfl, ?_⟩
  unfold toNat
  rw [toNat_or_shiftLeft (by omega) hw1 (mul_two_pow_lt hp (by omega)), hsplit, Nat.mul_add,
    Nat.mul_left_comm, Nat.add_assoc]

/-- Past byte `16` the input has too many bytes. -/
lemma splice_of_le {b : Bid128} {i : Nat} (part : UInt64) (hi : 17 ≤ i) : b.splice i part = none := by
  unfold splice
  rw [if_neg (by omega), if_neg (by omega), if_neg (by omega)]

end Bid128

/-- The byte of seven bits that a round of the encoder writes, read from the low word. -/
lemma groupByte_w0 (b : Bid128) :
    (0x80 ||| (b.w0 &&& 0x7F)).toUInt8 = (0x80 ||| (b.toNat &&& 0x7F)).toUInt8 := by
  apply UInt8.toNat_inj.mp
  -- bit 7 and the seven bits below it add
  have hor : 128 ||| b.w0.toNat % 128 = 128 + b.w0.toNat % 128 :=
    (Nat.two_pow_add_eq_or_of_lt (show b.w0.toNat % 128 < 2 ^ 7 from Nat.mod_lt _ (by decide)) 1).symm
  rw [groupByte_toNat, UInt64.toNat_toUInt8, UInt64.toNat_or, UInt64.toNat_and]
  simp only [UInt64.reduceToNat]
  rw [and_0x7F, hor]
  unfold Bid128.toNat
  omega

/-- The encoder on the two words writes the bytes of the value. -/
theorem encodeBid128Words_eq (b : Bid128) : encodeBid128Words b = encodeBid128 b.toNat := by
  fun_induction encodeBid128Words b with
  | case1 b hloop ih =>
    have h64 := (Bid128.loop_cond_iff b).mp hloop
    rw [ih, Bid128.toNat_shift, encodeBid128, encodeBid128, encodeMagnitude.eq_1 false b.toNat,
      dif_neg (shiftRight_six_ne_zero (by omega)), groupByte_w0,
      show b.toNat >>> 7 = b.toNat / 128 by omega]
  | case2 b hloop =>
    have h64 : b.toNat < 64 := by
      have := (Bid128.loop_cond_iff b).not.mp hloop
      omega
    have hw1 := Bid128.w1_eq_zero (b := b) (i := 9) (by omega)
      (by rw [show 7 * 9 = 63 from rfl]; omega)
    rw [encodeBid128, encodeMagnitude, dif_pos (shiftRight_six_eq_zero h64), if_neg Bool.false_ne_true]
    congr 1
    apply UInt8.toNat_inj.mp
    rw [UInt64.toNat_toUInt8, Nat.toUInt8_eq, UInt8.toNat_ofNat']
    unfold Bid128.toNat
    rw [hw1, Nat.mul_zero, Nat.add_zero]

/-- The decoder's loop on the two words computes the loop on the value, from any byte `i` below
whose position the value so far fits. -/
lemma decodeBid128WordsLoop_eq :
    ∀ (input : List UInt8) (i : Nat) (b : Bid128), b.toNat < 2 ^ (7 * i) →
      (decodeBid128WordsLoop i b input).map (fun r => (r.1.toNat, r.2)) =
        decodeBid128Loop i b.toNat input
  | [], _, _, _ => rfl
  | c :: rest, i, b, hb => by
    by_cases hi : i < 17
    · have hpart : ((c &&& 0x7F).toUInt64).toNat = c.toNat % 128 := by
        rw [UInt8.toNat_toUInt64, UInt8.toNat_and]
        simp only [UInt8.reduceToNat]
        exact and_0x7F _
      obtain ⟨b', hs, hb'⟩ := Bid128.splice_eq hi hb (by rw [hpart]; omega)
      have hacc : b.toNat ||| ((c.toNat &&& 0x7F) <<< (7 * i)) = b'.toNat := by
        rw [Nat.shiftLeft_eq, and_0x7F, or_mul_two_pow hb, hb', hpart]
      have hc : (c &&& 0x80 = 0) ↔ (c.toNat &&& 0x80 = 0) := by
        rw [← UInt8.toNat_inj, UInt8.toNat_and]
        simp only [UInt8.reduceToNat]
      simp only [decodeBid128WordsLoop, hs, decodeBid128Loop, if_pos hi, hacc]
      by_cases hlast : c &&& 0x80 = 0
      · rw [if_pos hlast, if_pos (hc.mp hlast)]
        rfl
      · rw [if_neg hlast, if_neg (mt hc.mpr hlast)]
        -- the next byte goes seven bits up
        refine decodeBid128WordsLoop_eq rest (i + 1) b' ?_
        rw [hb', hpart]
        exact add_mod_mul_lt hb
    · simp only [decodeBid128WordsLoop, Bid128.splice_of_le _ (Nat.le_of_not_lt hi),
        decodeBid128Loop, if_neg hi, Option.map_none]

/-- The decoder on the two words reads the value that the decoder on the value reads. -/
theorem decodeBid128Words_eq (input : List UInt8) :
    (decodeBid128Words input).map (fun r => (r.1.toNat, r.2)) = decodeBid128 input :=
  decodeBid128WordsLoop_eq input 0 ⟨0, 0⟩ (by decide)

/-- A `Bid128` of at most `118` bits reads back from its words, in at most `17` bytes. -/
theorem decodeBid128Words_encodeBid128Words {b : Bid128} (hb : b.toNat < 2 ^ 118)
    (rest : List UInt8) :
    decodeBid128Words (encodeBid128Words b ++ rest) = some (b, rest) ∧
      (encodeBid128Words b).length ≤ 17 := by
  have h := decodeBid128Words_eq (encodeBid128Words b ++ rest)
  rw [encodeBid128Words_eq, decodeBid128_encodeBid128 rest hb, Option.map_eq_some_iff] at h
  obtain ⟨⟨b', rest'⟩, hdec, heq⟩ := h
  obtain ⟨hval, hrest⟩ := (Prod.mk.injEq _ _ _ _).mp heq
  have hb' : b' = b := Bid128.eq_of_toNat_eq hval
  have hrest' : rest' = rest := hrest
  rw [encodeBid128Words_eq, hdec, hb', hrest']
  exact ⟨rfl, length_encodeMagnitude_le false 16 _ hb⟩

end Words

/-! ## The values of the types -/

lemma inRange_uint64_of_lt {n : Nat} (h : n < 2 ^ 64) : IntType.uint64.InRange n := by
  refine ⟨by simp [IntType.min, IntType.uint64], ?_⟩
  simp only [IntType.max, IntType.uint64]
  omega

lemma inRange_uint64 (n : UInt64) : IntType.uint64.InRange n.toNat :=
  inRange_uint64_of_lt n.toNat_lt

lemma inRange_uint32_of_lt {n : Nat} (h : n < 2 ^ 32) : IntType.uint32.InRange n := by
  refine ⟨by simp [IntType.min, IntType.uint32], ?_⟩
  simp only [IntType.max, IntType.uint32]
  omega

lemma inRange_uint32 (n : UInt32) : IntType.uint32.InRange n.toNat :=
  inRange_uint32_of_lt n.toNat_lt

lemma inRange_uint8_of_lt {n : Nat} (h : n < 256) : IntType.uint8.InRange n := by
  refine ⟨by simp [IntType.min, IntType.uint8], ?_⟩
  simp only [IntType.max, IntType.uint8]
  omega

lemma inRange_int64 (n : Int64) : IntType.int64.InRange n.toInt := by
  have := n.le_toInt
  have := n.toInt_lt
  constructor
  · simp only [IntType.min, IntType.int64, if_true]
    omega
  · simp only [IntType.max, IntType.int64]
    omega

lemma inRange_int64_of_int32 (n : Int32) : IntType.int64.InRange n.toInt := by
  have := n.le_toInt
  have := n.toInt_lt
  constructor
  · simp only [IntType.min, IntType.int64, if_true]
    omega
  · simp only [IntType.max, IntType.int64]
    omega

end Realm
