import Mathlib

/-!
# Base64

`base64_encode` (src/realm/util/base64.cpp) cuts its input into groups of three octets, a
missing octet read as `0`, writes the four sextets of each group from the top as characters of
`g_base64_encoding_chars`, and then overwrites the last one or two characters with `'='` as the
input's size is `2` or `1` modulo `3`.  `base64_decode` classifies each input byte with the
table `g_base64_chars`: an alphabet symbol (below `64`) is shifted into a buffer that is flushed
as three bytes at every fourth symbol, `'='` is counted, whitespace is skipped and any other
byte rejects the input, as does a symbol after an `'='`.  At the end the count of `'='` (or,
without any, `4 - size % 4` for a size that is `2` or `3` modulo `4`) decides how many bytes the
buffer still gives.

Decoding the encoding gives the input back (`base64Decode_base64Encode`): a group of three
octets comes back from its four characters (`decodeGroup_encodeTriple`), and the last one or
two from the padded group.  The end of the decoder reads only the count of `'='` and never the
number of symbols left in the buffer, so it also accepts an encoding one `'='` short, and then
gives a byte more than its symbols hold (`base64Decode_dropLast_base64Encode`).
-/

namespace Realm

namespace Base64

/-! ## The model -/

/-- `g_base64_encoding_chars`: the alphabet, a sextet's character at its index. -/
def base64EncodingChars : List Char :=
  ['A', 'B', 'C', 'D', 'E', 'F', 'G', 'H',
   'I', 'J', 'K', 'L', 'M', 'N', 'O', 'P',
   'Q', 'R', 'S', 'T', 'U', 'V', 'W', 'X',
   'Y', 'Z', 'a', 'b', 'c', 'd', 'e', 'f',
   'g', 'h', 'i', 'j', 'k', 'l', 'm', 'n',
   'o', 'p', 'q', 'r', 's', 't', 'u', 'v',
   'w', 'x', 'y', 'z', '0', '1', '2', '3',
   '4', '5', '6', '7', '8', '9', '+', '/']

/-- `g_base64_chars`: for each byte its sextet, or `64` for `'='`, `65` for whitespace and `66`
for a byte outside the alphabet.  Both `'+'` and `'-'` read as `62`, both `'/'` and `'_'` as
`63`. -/
def base64Chars : List Nat :=
  [66, 66, 66, 66, 66, 66, 66, 66, 66, 65, 65, 66, 66, 66, 66, 66,
   66, 66, 66, 66, 66, 66, 66, 66, 66, 66, 66, 66, 66, 66, 66, 66,
   65, 66, 66, 66, 66, 66, 66, 66, 66, 66, 66, 62, 66, 62, 66, 63,
   52, 53, 54, 55, 56, 57, 58, 59, 60, 61, 66, 66, 66, 64, 66, 66,
   66,  0,  1,  2,  3,  4,  5,  6,  7,  8,  9, 10, 11, 12, 13, 14,
   15, 16, 17, 18, 19, 20, 21, 22, 23, 24, 25, 66, 66, 66, 66, 63,
   66, 26, 27, 28, 29, 30, 31, 32, 33, 34, 35, 36, 37, 38, 39, 40,
   41, 42, 43, 44, 45, 46, 47, 48, 49, 50, 51, 66, 66, 66, 66, 66,
   66, 66, 66, 66, 66, 66, 66, 66, 66, 66, 66, 66, 66, 66, 66, 66,
   66, 66, 66, 66, 66, 66, 66, 66, 66, 66, 66, 66, 66, 66, 66, 66,
   66, 66, 66, 66, 66, 66, 66, 66, 66, 66, 66, 66, 66, 66, 66, 66,
   66, 66, 66, 66, 66, 66, 66, 66, 66, 66, 66, 66, 66, 66, 66, 66,
   66, 66, 66, 66, 66, 66, 66, 66, 66, 66, 66, 66, 66, 66, 66, 66,
   66, 66, 66, 66, 66, 66, 66, 66, 66, 66, 66, 66, 66, 66, 66, 66,
   66, 66, 66, 66, 66, 66, 66, 66, 66, 66, 66, 66, 66, 66, 66, 66,
   66, 66, 66, 66, 66, 66, 66, 66, 66, 66, 66, 66, 66, 66, 66, 66]

/-- `index_of_base64_byte(c)`. -/
def indexOfBase64Byte (c : UInt8) : Nat := base64Chars.getD c.toNat 66

/-- The character of a sextet, `g_base64_encoding_chars[i]`. -/
def encodingChar (i : Nat) : UInt8 := (base64EncodingChars.getD i 'A').toUInt8

/-- The padding character `'='`. -/
def equalsChar : UInt8 := '='.toUInt8

/-- One round of the loop of `base64_encode`: `triple = (octet_a << 16) + (octet_b << 8) +
octet_c`, written as its four sextets from the top. -/
def encodeTriple (a b c : Nat) : List UInt8 :=
  let triple := (a <<< 0x10) + (b <<< 0x08) + c
  [encodingChar ((triple >>> (3 * 6)) &&& 0x3F), encodingChar ((triple >>> (2 * 6)) &&& 0x3F),
    encodingChar ((triple >>> (1 * 6)) &&& 0x3F), encodingChar ((triple >>> (0 * 6)) &&& 0x3F)]

/-- The loop of `base64_encode`, three octets at a time; past the end an octet reads as `0`. -/
def encodeGroups : List UInt8 → List UInt8
  | [] => []
  | [a] => encodeTriple a.toNat 0 0
  | [a, b] => encodeTriple a.toNat b.toNat 0
  | a :: b :: c :: rest => encodeTriple a.toNat b.toNat c.toNat ++ encodeGroups rest

/-- `base64_encoded_size(n)`. -/
def base64EncodedSize (n : Nat) : Nat := 4 * ((n + 2) / 3)

/-- `base64_encode(in_buffer, out_buffer)`: the `encoded_size` bytes it writes, the last one or
two overwritten with `'='` as the input's size is `2` or `1` modulo `3`. -/
def base64Encode (input : List UInt8) : List UInt8 :=
  let encodedSize := base64EncodedSize input.length
  let out := encodeGroups input
  match input.length % 3 with
  | 1 => (out.set (encodedSize - 1) equalsChar).set (encodedSize - 2) equalsChar
  | 2 => out.set (encodedSize - 1) equalsChar
  | _ => out

/-- The locals of the loop of `base64_decode`; `bytes_written` is the length of `out`. -/
structure DecodeState where
  buffer : Nat
  bufferSize : Nat
  numTrailingEquals : Nat
  out : List UInt8
deriving DecidableEq, Repr

/-- The state before the first byte. -/
def DecodeState.init : DecodeState := ⟨0, 0, 0, []⟩

/-- One round of the loop of `base64_decode`, on the input byte `c`. -/
def decodeStep (st : DecodeState) (c : UInt8) : Option DecodeState :=
  let x := indexOfBase64Byte c
  if x = 64 then some { st with numTrailingEquals := st.numTrailingEquals + 1 }
  else if x = 65 then some st
  else if x = 66 then none
  -- data after the end-padding
  else if st.numTrailingEquals > 0 then none
  else
    let buffer := st.buffer <<< 6 ||| x
    if st.bufferSize + 1 = 4 then
      some
        { st with
          buffer := 0
          bufferSize := 0
          out := st.out ++ [((buffer >>> 16) &&& 0xff).toUInt8, ((buffer >>> 8) &&& 0xff).toUInt8,
            ((buffer >>> 0) &&& 0xff).toUInt8] }
    else some { st with buffer := buffer, bufferSize := st.bufferSize + 1 }

/-- The bytes that the end of `base64_decode` adds after its loop, or `none` where it returns
`none`. -/
def decodeTail (inputSize : Nat) (st : DecodeState) : Option (List UInt8) :=
  -- no padding
  let extra := inputSize % 4
  let numTrailingEquals :=
    if st.numTrailingEquals = 0 ∧ extra > 1 then 4 - extra else st.numTrailingEquals
  if numTrailingEquals = 0 then
    -- stuff left in the buffer: the input was not sufficiently padded
    if st.bufferSize ≠ 0 then none else some []
  else if numTrailingEquals = 1 then
    some [((st.buffer >>> 10) &&& 0xff).toUInt8, ((st.buffer >>> 2) &&& 0xff).toUInt8]
  else if numTrailingEquals = 2 then some [((st.buffer >>> 4) &&& 0xff).toUInt8]
  else none

/-- `base64_decode(input, out_buffer)`: the bytes it writes, or `none`. -/
def base64Decode (input : List UInt8) : Option (List UInt8) := do
  let st ← input.foldlM decodeStep DecodeState.init
  let tail ← decodeTail input.length st
  return st.out ++ tail

/-- A byte the table maps below `64`: a symbol of the alphabet, `'-'` and `'_'` included. -/
def isSymbol (c : UInt8) : Bool := indexOfBase64Byte c < 64

/-! ## The tables -/

lemma indexOfBase64Byte_encodingChar : ∀ i < 64, indexOfBase64Byte (encodingChar i) = i := by
  with_unfolding_all decide

lemma indexOfBase64Byte_equalsChar : indexOfBase64Byte equalsChar = 64 := by
  decide

set_option maxRecDepth 2000 in
lemma base64Chars_le : ∀ x ∈ base64Chars, x ≤ 66 := by
  decide

lemma indexOfBase64Byte_le : ∀ c : UInt8, indexOfBase64Byte c ≤ 66 := by
  intro c
  -- an entry of the table, or the default `66` past its end
  show base64Chars.getD c.toNat 66 ≤ 66
  rw [List.getD_eq_getElem?_getD]
  cases h : base64Chars[c.toNat]? with
  | none => exact le_refl _
  | some x => exact base64Chars_le x (List.mem_of_getElem? h)

lemma indexOfBase64Byte_sextet (t k : Nat) :
    indexOfBase64Byte (encodingChar (t >>> k &&& 0x3F)) = t / 2 ^ k % 64 := by
  have hmod : t >>> k &&& 0x3F = t / 2 ^ k % 64 := by
    rw [Nat.and_two_pow_sub_one_eq_mod _ 6, Nat.shiftRight_eq_div_pow]
  rw [hmod, indexOfBase64Byte_encodingChar _ (Nat.mod_lt _ (by decide))]

lemma indexOfBase64Byte_sextet_lt (t k : Nat) :
    indexOfBase64Byte (encodingChar (t >>> k &&& 0x3F)) < 64 := by
  rw [indexOfBase64Byte_sextet]
  exact Nat.mod_lt _ (by decide)

lemma isSymbol_sextet (t k : Nat) : isSymbol (encodingChar (t >>> k &&& 0x3F)) = true := by
  simp only [isSymbol, indexOfBase64Byte_sextet_lt, decide_true]

/-! ## One byte of the decoder -/

lemma shiftLeft_six_or (b x : Nat) (hx : x < 64) : b <<< 6 ||| x = b * 64 + x := by
  have h := Nat.two_pow_add_eq_or_of_lt (show x < 2 ^ 6 from hx) b
  calc b <<< 6 ||| x = 2 ^ 6 * b ||| x := by rw [Nat.shiftLeft_eq, Nat.mul_comm]
    _ = b * 64 + x := by rw [← h]; omega

/-- A symbol with fewer than three symbols buffered is shifted into the buffer. -/
lemma decodeStep_shift {c : UInt8} (hc : indexOfBase64Byte c < 64) (b k : Nat) (hk : k ≠ 3)
    (out : List UInt8) :
    decodeStep ⟨b, k, 0, out⟩ c = some ⟨b * 64 + indexOfBase64Byte c, k + 1, 0, out⟩ := by
  have h64 : indexOfBase64Byte c ≠ 64 := by omega
  have h65 : indexOfBase64Byte c ≠ 65 := by omega
  have h66 : indexOfBase64Byte c ≠ 66 := by omega
  have hk4 : k + 1 ≠ 4 := by omega
  simp only [decodeStep, h64, h65, h66, hk4, shiftLeft_six_or _ _ hc, gt_iff_lt, Nat.lt_irrefl,
    if_false]

/-- The fourth symbol flushes the buffer as three bytes. -/
lemma decodeStep_flush {c : UInt8} (hc : indexOfBase64Byte c < 64) (b : Nat)
    (out : List UInt8) :
    decodeStep ⟨b, 3, 0, out⟩ c =
      some ⟨0, 0, 0, out ++ [((b * 64 + indexOfBase64Byte c) / 2 ^ 16 % 256).toUInt8,
        ((b * 64 + indexOfBase64Byte c) / 2 ^ 8 % 256).toUInt8,
        ((b * 64 + indexOfBase64Byte c) % 256).toUInt8]⟩ := by
  have h64 : indexOfBase64Byte c ≠ 64 := by omega
  have h65 : indexOfBase64Byte c ≠ 65 := by omega
  have h66 : indexOfBase64Byte c ≠ 66 := by omega
  simp only [decodeStep, h64, h65, h66, shiftLeft_six_or _ _ hc, gt_iff_lt, Nat.lt_irrefl,
    if_false, if_true, Nat.shiftRight_eq_div_pow, Nat.and_two_pow_sub_one_eq_mod _ 8,
    Nat.pow_zero, Nat.div_one]

/-- An `'='` is counted, at any point. -/
lemma decodeStep_equals (b k e : Nat) (out : List UInt8) :
    decodeStep ⟨b, k, e, out⟩ equalsChar = some ⟨b, k, e + 1, out⟩ := by
  simp only [decodeStep, indexOfBase64Byte_equalsChar, if_true]

/-- With one `'='` the end of the decoder gives two more bytes from the buffer, whatever the
number of symbols in it. -/
lemma decodeTail_one_equals (n b k : Nat) (out : List UInt8) :
    decodeTail n ⟨b, k, 1, out⟩ =
      some [((b >>> 10) &&& 0xff).toUInt8, ((b >>> 2) &&& 0xff).toUInt8] := by
  simp [decodeTail]

/-- With two `'='` the end of the decoder gives one more byte from the buffer. -/
lemma decodeTail_two_equals (n b k : Nat) (out : List UInt8) :
    decodeTail n ⟨b, k, 2, out⟩ = some [((b >>> 4) &&& 0xff).toUInt8] := by
  simp [decodeTail]

/-- Without `'='`, at a size that is a multiple of four and nothing buffered, the end of the
decoder adds nothing. -/
lemma decodeTail_of_empty {n : Nat} (hn : n % 4 = 0) (out : List UInt8) :
    decodeTail n ⟨0, 0, 0, out⟩ = some [] := by
  simp [decodeTail, hn]

lemma toUInt8_eq_of_toNat {n : Nat} {a : UInt8} (h : n = a.toNat) : n.toUInt8 = a := by
  rw [h, Nat.toUInt8_eq, UInt8.ofNat_toNat]

lemma and_0xff (n : Nat) : n &&& 0xff = n % 256 :=
  Nat.and_two_pow_sub_one_eq_mod n 8

/-! ## A group of three octets -/

/-- The four characters of a group give its three octets back. -/
lemma decodeGroup_encodeTriple {a b c : Nat} (ha : a < 256) (hb : b < 256) (hc : c < 256)
    (out : List UInt8) :
    (encodeTriple a b c).foldlM decodeStep ⟨0, 0, 0, out⟩ =
      some ⟨0, 0, 0, out ++ [a.toUInt8, b.toUInt8, c.toUInt8]⟩ := by
  simp only [encodeTriple, List.foldlM_cons, List.foldlM_nil, Option.bind_eq_bind, Option.pure_def]
  rw [decodeStep_shift (indexOfBase64Byte_sextet_lt _ _) 0 0 (by decide), Option.bind_some,
    decodeStep_shift (indexOfBase64Byte_sextet_lt _ _) _ 1 (by decide), Option.bind_some,
    decodeStep_shift (indexOfBase64Byte_sextet_lt _ _) _ 2 (by decide), Option.bind_some,
    decodeStep_flush (indexOfBase64Byte_sextet_lt _ _), Option.bind_some]
  simp only [indexOfBase64Byte_sextet, Nat.shiftLeft_eq]
  -- the four sextets put back together are the triple
  have ht : ∀ t : Nat, t = a * 2 ^ 16 + b * 2 ^ 8 + c →
      ((((0 * 64 + t / 2 ^ (3 * 6) % 64) * 64 + t / 2 ^ (2 * 6) % 64) * 64 +
        t / 2 ^ (1 * 6) % 64) * 64 + t / 2 ^ (0 * 6) % 64) = t := by
    intro t ht
    simp only [Nat.reduceMul, Nat.reducePow, Nat.div_one] at ht ⊢
    omega
  rw [ht _ rfl]
  have h1 : (a * 2 ^ 16 + b * 2 ^ 8 + c) / 2 ^ 16 % 256 = a := by omega
  have h2 : (a * 2 ^ 16 + b * 2 ^ 8 + c) / 2 ^ 8 % 256 = b := by omega
  have h3 : (a * 2 ^ 16 + b * 2 ^ 8 + c) % 256 = c := by omega
  rw [h1, h2, h3]

/-! ## The groups of the encoder -/

lemma encodeGroups_append {s : List UInt8} (hs : s.length % 3 = 0) (t : List UInt8) :
    encodeGroups (s ++ t) = encodeGroups s ++ encodeGroups t := by
  induction s using encodeGroups.induct with
  | case1 => rfl
  | case2 a => simp at hs
  | case3 a b => simp at hs
  | case4 a b c rest ih =>
    have hrest : rest.length % 3 = 0 := by simp at hs; omega
    simp only [List.cons_append, encodeGroups, ih hrest, List.append_assoc]

lemma length_encodeGroups (s : List UInt8) :
    (encodeGroups s).length = base64EncodedSize s.length := by
  induction s using encodeGroups.induct with
  | case1 => rfl
  | case2 a => simp [encodeGroups, encodeTriple, base64EncodedSize]
  | case3 a b => simp [encodeGroups, encodeTriple, base64EncodedSize]
  | case4 a b c rest ih =>
    simp only [encodeGroups, List.length_append, ih, base64EncodedSize, List.length_cons,
      encodeTriple, List.length_nil]
    omega

/-- Every character of the groups is a symbol of the alphabet. -/
lemma isSymbol_of_mem_encodeGroups {s : List UInt8} {x : UInt8} (hx : x ∈ encodeGroups s) :
    isSymbol x = true := by
  -- a character of a group is the character of a sextet
  have htriple : ∀ a b c, ∀ x ∈ encodeTriple a b c, isSymbol x = true := by
    intro a b c x hx
    simp only [encodeTriple, List.mem_cons, List.not_mem_nil, or_false] at hx
    rcases hx with rfl | rfl | rfl | rfl <;> exact isSymbol_sextet _ _
  induction s using encodeGroups.induct with
  | case1 => simp [encodeGroups] at hx
  | case2 a => exact htriple _ _ _ x hx
  | case3 a b => exact htriple _ _ _ x hx
  | case4 a b c rest ih =>
    rw [encodeGroups, List.mem_append] at hx
    rcases hx with hx | hx
    · exact htriple _ _ _ x hx
    · exact ih hx

/-- The groups of whole triples decode to the octets, with nothing left in the buffer. -/
lemma decodeGroups_encodeGroups {s : List UInt8} (hs : s.length % 3 = 0) (out : List UInt8) :
    (encodeGroups s).foldlM decodeStep ⟨0, 0, 0, out⟩ = some ⟨0, 0, 0, out ++ s⟩ := by
  induction s using encodeGroups.induct generalizing out with
  | case1 => simp [encodeGroups]
  | case2 a => simp at hs
  | case3 a b => simp at hs
  | case4 a b c rest ih =>
    have hrest : rest.length % 3 = 0 := by simp at hs; omega
    rw [encodeGroups, List.foldlM_append,
      decodeGroup_encodeTriple a.toNat_lt b.toNat_lt c.toNat_lt, Option.bind_eq_bind,
      Option.bind_some, ih hrest]
    simp only [Nat.toUInt8_eq, UInt8.ofNat_toNat, List.append_assoc, List.cons_append,
      List.nil_append]

/-! ## The padding of the encoder -/

lemma base64Encode_of_mod_zero {s : List UInt8} (hs : s.length % 3 = 0) :
    base64Encode s = encodeGroups s := by
  simp only [base64Encode, hs]

lemma base64Encode_append_one {s : List UInt8} (hs : s.length % 3 = 0) (a : UInt8) :
    base64Encode (s ++ [a]) =
      encodeGroups s ++ ((encodeTriple a.toNat 0 0).take 2 ++ [equalsChar, equalsChar]) := by
  have hmod : (s ++ [a]).length % 3 = 1 := by
    simp only [List.length_append, List.length_singleton]
    omega
  have hsize : base64EncodedSize (s ++ [a]).length = (encodeGroups s).length + 4 := by
    simp only [length_encodeGroups, base64EncodedSize, List.length_append, List.length_singleton]
    omega
  simp only [base64Encode, hmod, hsize]
  rw [encodeGroups_append hs, List.set_append_right _ _ (by omega),
    List.set_append_right _ _ (by omega), show (encodeGroups s).length + 4 - 1 -
      (encodeGroups s).length = 3 by omega, show (encodeGroups s).length + 4 - 2 -
      (encodeGroups s).length = 2 by omega]
  rfl

lemma base64Encode_append_two {s : List UInt8} (hs : s.length % 3 = 0) (a b : UInt8) :
    base64Encode (s ++ [a, b]) =
      encodeGroups s ++ ((encodeTriple a.toNat b.toNat 0).take 3 ++ [equalsChar]) := by
  have hmod : (s ++ [a, b]).length % 3 = 2 := by
    simp only [List.length_append, List.length_cons, List.length_nil]
    omega
  have hsize : base64EncodedSize (s ++ [a, b]).length = (encodeGroups s).length + 4 := by
    simp only [length_encodeGroups, base64EncodedSize, List.length_append, List.length_cons,
      List.length_nil]
    omega
  simp only [base64Encode, hmod, hsize]
  rw [encodeGroups_append hs, List.set_append_right _ _ (by omega),
    show (encodeGroups s).length + 4 - 1 - (encodeGroups s).length = 3 by omega]
  rfl

/-! ## Decoding the encoding -/

lemma base64Decode_append_one {s : List UInt8} (hs : s.length % 3 = 0) (a : UInt8) :
    base64Decode (base64Encode (s ++ [a])) = some (s ++ [a]) := by
  have hlen : (encodeGroups s).length % 4 = 0 := by
    rw [length_encodeGroups, base64EncodedSize]
    omega
  rw [base64Encode_append_one hs]
  simp only [base64Decode, DecodeState.init, List.foldlM_append, Option.bind_eq_bind,
    decodeGroups_encodeGroups hs, Option.bind_some, List.nil_append, encodeTriple, List.take,
    List.cons_append, List.foldlM_cons, List.foldlM_nil, Option.pure_def]
  rw [decodeStep_shift (indexOfBase64Byte_sextet_lt _ _) 0 0 (by decide), Option.bind_some,
    decodeStep_shift (indexOfBase64Byte_sextet_lt _ _) _ 1 (by decide), Option.bind_some,
    decodeStep_equals, Option.bind_some, decodeStep_equals, Option.bind_some, Option.bind_some,
    decodeTail_two_equals, Option.bind_some]
  simp only [indexOfBase64Byte_sextet]
  simp only [Nat.shiftLeft_eq, Nat.shiftRight_eq_div_pow, and_0xff]
  -- the two sextets hold the octet followed by four zero bits
  rw [toUInt8_eq_of_toNat (a := a) (by have := a.toNat_lt; omega)]

lemma base64Decode_append_two {s : List UInt8} (hs : s.length % 3 = 0) (a b : UInt8) :
    base64Decode (base64Encode (s ++ [a, b])) = some (s ++ [a, b]) := by
  rw [base64Encode_append_two hs]
  simp only [base64Decode, DecodeState.init, List.foldlM_append, Option.bind_eq_bind,
    decodeGroups_encodeGroups hs, Option.bind_some, List.nil_append, encodeTriple, List.take,
    List.cons_append, List.foldlM_cons, List.foldlM_nil, Option.pure_def]
  rw [decodeStep_shift (indexOfBase64Byte_sextet_lt _ _) 0 0 (by decide), Option.bind_some,
    decodeStep_shift (indexOfBase64Byte_sextet_lt _ _) _ 1 (by decide), Option.bind_some,
    decodeStep_shift (indexOfBase64Byte_sextet_lt _ _) _ 2 (by decide), Option.bind_some,
    decodeStep_equals, Option.bind_some, Option.bind_some, decodeTail_one_equals,
    Option.bind_some]
  simp only [indexOfBase64Byte_sextet]
  simp only [Nat.shiftLeft_eq, Nat.shiftRight_eq_div_pow, and_0xff]
  -- the three sextets hold the two octets followed by two zero bits
  have ha := a.toNat_lt
  have hb := b.toNat_lt
  rw [toUInt8_eq_of_toNat (a := a) (by omega), toUInt8_eq_of_toNat (a := b) (by omega)]

lemma base64Decode_of_mod_zero {s : List UInt8} (hs : s.length % 3 = 0) :
    base64Decode (base64Encode s) = some s := by
  have hlen : (encodeGroups s).length % 4 = 0 := by
    rw [length_encodeGroups, base64EncodedSize]
    omega
  rw [base64Encode_of_mod_zero hs]
  simp only [base64Decode, DecodeState.init, Option.bind_eq_bind, decodeGroups_encodeGroups hs,
    Option.bind_some, decodeTail_of_empty hlen, List.nil_append, List.append_nil, Option.pure_def]

/-- `base64_decode` gives back what `base64_encode` wrote, for every input. -/
theorem base64Decode_base64Encode (s : List UInt8) : base64Decode (base64Encode s) = some s := by
  -- the whole groups, and the one or two octets after them
  obtain ⟨pre, rest, rfl, hpre, hrest⟩ :
      ∃ pre rest : List UInt8, s = pre ++ rest ∧ pre.length % 3 = 0 ∧ rest.length < 3 :=
    ⟨s.take (3 * (s.length / 3)), s.drop (3 * (s.length / 3)), (List.take_append_drop _ _).symm,
      by simp only [List.length_take]; omega, by simp only [List.length_drop]; omega⟩
  match rest, hrest with
  | [], _ => rw [List.append_nil, base64Decode_of_mod_zero hpre]
  | [a], _ => exact base64Decode_append_one hpre a
  | [a, b], _ => exact base64Decode_append_two hpre a b
  | _ :: _ :: _ :: _, h =>
    simp only [List.length_cons] at h
    omega

/-! ## An encoding one `'='` short -/

/-- Dropping the last `'='` of an encoding whose last group holds one octet `a`: the decoder
takes the size `3` modulo `4` for one `'='`, and gives two bytes from the buffer, `a >> 6` and
`a << 2`, where the two symbols left hold only the one octet.  The `6 d / 8` bytes that the `d`
symbols of the input hold are one fewer than the bytes given. -/
theorem base64Decode_dropLast_base64Encode (s : List UInt8) (a : UInt8) (hs : s.length % 3 = 0) :
    base64Decode (base64Encode (s ++ [a])).dropLast = some (s ++ [a >>> 6, a <<< 2]) ∧
      (base64Encode (s ++ [a])).dropLast.countP isSymbol * 6 / 8 = s.length + 1 := by
  have hlen : (encodeGroups s).length = 4 * (s.length / 3) := by
    rw [length_encodeGroups, base64EncodedSize]
    omega
  have hdrop : (base64Encode (s ++ [a])).dropLast = encodeGroups s ++
      [encodingChar ((a.toNat <<< 0x10 + 0 <<< 0x08 + 0) >>> (3 * 6) &&& 0x3F),
        encodingChar ((a.toNat <<< 0x10 + 0 <<< 0x08 + 0) >>> (2 * 6) &&& 0x3F), equalsChar] := by
    rw [base64Encode_append_one hs, List.dropLast_append_of_ne_nil (by simp)]
    rfl
  rw [hdrop]
  constructor
  · simp only [base64Decode, DecodeState.init, List.foldlM_append, Option.bind_eq_bind,
      decodeGroups_encodeGroups hs, Option.bind_some, List.nil_append, List.foldlM_cons,
      List.foldlM_nil, Option.pure_def]
    rw [decodeStep_shift (indexOfBase64Byte_sextet_lt _ _) 0 0 (by decide), Option.bind_some,
      decodeStep_shift (indexOfBase64Byte_sextet_lt _ _) _ 1 (by decide), Option.bind_some,
      decodeStep_equals, Option.bind_some, Option.bind_some, decodeTail_one_equals,
      Option.bind_some]
    simp only [indexOfBase64Byte_sextet]
    simp only [Nat.shiftLeft_eq, Nat.shiftRight_eq_div_pow, and_0xff]
    -- the buffer holds `a` followed by four zero bits
    have ha := a.toNat_lt
    have hhi : (a >>> 6).toNat = a.toNat / 64 := by
      rw [UInt8.toNat_shiftRight, Nat.shiftRight_eq_div_pow]
      rfl
    have hlo : (a <<< 2).toNat = a.toNat * 4 % 256 := by
      rw [UInt8.toNat_shiftLeft, Nat.shiftLeft_eq]
      rfl
    rw [toUInt8_eq_of_toNat (a := a >>> 6) (by omega), toUInt8_eq_of_toNat (a := a <<< 2) (by omega)]
  · -- the groups are symbols, and so are the two characters before the `'='`
    have hgroups : (encodeGroups s).countP isSymbol = (encodeGroups s).length :=
      List.countP_eq_length.mpr fun x hx => isSymbol_of_mem_encodeGroups hx
    have hequals : isSymbol equalsChar = false := by decide
    simp only [List.countP_append, hgroups, List.countP_cons, List.countP_nil, hequals,
      isSymbol_sextet, if_true, Bool.false_eq_true, if_false]
    omega

/-- `"QQ=="` is the encoding of `"A"`; `"QQ="` decodes to the two bytes `1` and `4`, where its
two symbols hold one byte. -/
theorem base64Decode_dropLast_base64Encode_A :
    ([] : List UInt8).length % 3 = 0 ∧ (base64Encode [0x41]).dropLast = [0x51, 0x51, 0x3D] ∧
      base64Decode [0x51, 0x51, 0x3D] = some [1, 4] ∧
      [(0x51 : UInt8), 0x51, 0x3D].countP isSymbol * 6 / 8 = 1 := by
  have h := base64Decode_dropLast_base64Encode [] 0x41 rfl
  have henc : (base64Encode [0x41]).dropLast = [0x51, 0x51, 0x3D] := by decide
  refine ⟨rfl, henc, ?_, ?_⟩
  · rw [← henc]
    exact h.1.trans (by decide)
  · rw [← henc]
    exact h.2

end Base64

end Realm
