import Mathlib
import RealmCore.Sync.IntegerCodec

/-!
# Sync instructions and changesets

The instructions of the sync protocol (src/realm/sync/instructions.hpp) and the `Changeset`
that holds them (src/realm/sync/changeset.hpp).  An instruction names tables, fields and
string primary keys by `InternString`, an index into the changeset's interned strings, and
holds string and binary payloads as a `StringBufferRange` into the changeset's string buffer.
The types are generic in these two: at `InternString` and `StringBufferRange` they are the
code's, and `Changeset.resolve` replaces each by the bytes it denotes, which is how two
changesets with different buffers are compared.

A `Payload` is its type tag with the data of that tag; a tag without data needs no field.
`Update` holds a union of `is_default` and `prior_size`, of which the path decides the member
in use: the model keeps both as fields, and `resolve` keeps only the one in use.  A float and a
double are their bit patterns, a `Decimal128` its two words.

`Changeset::m_instructions` holds entries, each a single instruction or a vector of them; an
empty vector is a tombstone, which iteration yields as a null pointer.
-/

namespace Realm

namespace Sync

/-- `StringBufferRange`. -/
structure StringBufferRange where
  offset : UInt32
  size : UInt32
deriving DecidableEq, Repr

/-- `InternString`. -/
structure InternString where
  value : UInt32
deriving DecidableEq, Repr

/-- `InternString::npos`, `uint32_t(-1)`. -/
def InternString.npos : InternString := ⟨0xFFFFFFFF⟩

/-- `GlobalKey`. -/
structure GlobalKey where
  hi : UInt64
  lo : UInt64
deriving DecidableEq, Repr

/-- `Timestamp`. -/
structure Timestamp where
  seconds : Int64
  nanoseconds : Int32
deriving DecidableEq, Repr

/-- `Decimal128`, its `Bid128` words `w[0]` and `w[1]`. -/
structure Decimal128 where
  w0 : UInt64
  w1 : UInt64
deriving DecidableEq, Repr

namespace Decimal128

/-- `MASK_COEFF`: the 49 bits of the coefficient in the high word. -/
def maskCoeff : UInt64 := 0x0001FFFFFFFFFFFF

/-- `MASK_EXP`: the 14 bits of the exponent above them. -/
def maskExp : UInt64 := 0x7FFE000000000000

/-- `MASK_SIGN`: the top bit. -/
def maskSign : UInt64 := 0x8000000000000000

/-- `Decimal128::unpack`: the coefficient, its 113 bits as a `Bid128`, the exponent without its
bias of 6176, and the sign. -/
def unpack (d : Decimal128) : (UInt64 × UInt64) × Int × Bool :=
  ((d.w0, d.w1 &&& maskCoeff), ((d.w1 &&& maskExp) >>> 49).toNat - 6176, d.w1 &&& maskSign ≠ 0)

/-- `Decimal128(Bid128 coefficient, int exponent, bool sign)`: the coefficient with the biased
exponent and the sign or-ed into its high word. -/
def ofBid128 (coefficient : UInt64 × UInt64) (exponent : Int) (sign : Bool) : Decimal128 :=
  let signX : UInt64 := if sign then maskSign else 0
  let tmp : UInt64 := UInt64.ofInt (exponent + 6176)
  ⟨coefficient.1, coefficient.2 ||| (signX ||| (tmp <<< 49))⟩

lemma and_maskCoeff_toNat (w : UInt64) : (w &&& maskCoeff).toNat = w.toNat % 2 ^ 49 := by
  rw [UInt64.toNat_and, show maskCoeff.toNat = 2 ^ 49 - 1 from rfl,
    Nat.and_two_pow_sub_one_eq_mod]

lemma and_maskExp_toNat (w : UInt64) :
    ((w &&& maskExp) >>> 49).toNat = w.toNat / 2 ^ 49 % 2 ^ 14 := by
  rw [UInt64.toNat_shiftRight, UInt64.toNat_and, Nat.shiftRight_and_distrib,
    show maskExp.toNat >>> ((49 : UInt64).toNat % 64) = 2 ^ 14 - 1 from rfl,
    Nat.and_two_pow_sub_one_eq_mod, show (49 : UInt64).toNat % 64 = 49 from rfl,
    Nat.shiftRight_eq_div_pow]

lemma and_maskSign_ne_zero (w : UInt64) : w &&& maskSign ≠ 0 ↔ 2 ^ 63 ≤ w.toNat := by
  rw [ne_eq, ← UInt64.toNat_inj, UInt64.toNat_and, show maskSign.toNat = 2 ^ 63 from rfl,
    Nat.and_two_pow, Nat.testBit_eq_decide_div_mod_eq]
  have := w.toNat_lt
  by_cases h : 2 ^ 63 ≤ w.toNat
  · simp
    omega
  · simp
    omega

/-- The sign word that `Decimal128(Bid128, int, bool)` or-s in is the top bit of `w`. -/
lemma signX_toNat (w : UInt64) :
    (if w &&& maskSign ≠ 0 then maskSign else 0).toNat = w.toNat / 2 ^ 63 * 2 ^ 63 := by
  have := w.toNat_lt
  split_ifs with h
  · rw [and_maskSign_ne_zero] at h
    rw [show w.toNat / 2 ^ 63 = 1 by omega]
    rfl
  · rw [and_maskSign_ne_zero] at h
    rw [show w.toNat / 2 ^ 63 = 0 by omega]
    rfl

lemma ofInt_natCast_toNat (n : Nat) : (UInt64.ofInt n).toNat = n % 2 ^ 64 := by
  unfold UInt64.ofInt
  rw [UInt64.toNat_ofNat']
  omega

/-- Packing what `unpack` answers gives back the same `Decimal128`: the coefficient's 49 bits,
the 14 bits of the exponent and the sign are the whole high word. -/
theorem ofBid128_unpack (d : Decimal128) : ofBid128 d.unpack.1 d.unpack.2.1 d.unpack.2.2 = d := by
  obtain ⟨w0, w1⟩ := d
  simp only [unpack, ofBid128, mk.injEq, true_and, decide_eq_true_eq]
  rw [Int.sub_add_cancel, ← UInt64.toNat_inj, UInt64.toNat_or, UInt64.toNat_or,
    and_maskCoeff_toNat, signX_toNat, UInt64.toNat_shiftLeft, ofInt_natCast_toNat,
    and_maskExp_toNat, show (49 : UInt64).toNat % 64 = 49 from rfl, Nat.shiftLeft_eq]
  have hw := w1.toNat_lt
  have hexp : w1.toNat / 2 ^ 49 % 2 ^ 14 * 2 ^ 49 < 2 ^ 63 := by omega
  -- the high word is its coefficient bits, then the exponent from bit 49, then the sign
  rw [Nat.mod_eq_of_lt (show w1.toNat / 2 ^ 49 % 2 ^ 14 < 2 ^ 64 by omega),
    Nat.mod_eq_of_lt (show w1.toNat / 2 ^ 49 % 2 ^ 14 * 2 ^ 49 < 2 ^ 64 by omega),
    Nat.or_comm (w1.toNat / 2 ^ 63 * 2 ^ 63), or_mul_two_pow hexp,
    show w1.toNat / 2 ^ 49 % 2 ^ 14 * 2 ^ 49 + w1.toNat / 2 ^ 63 * 2 ^ 63 =
      (w1.toNat / 2 ^ 49 % 2 ^ 14 + w1.toNat / 2 ^ 63 * 2 ^ 14) * 2 ^ 49 by omega,
    or_mul_two_pow (by omega)]
  omega

end Decimal128

/-- `Instruction::Payload::Type`. -/
inductive PayloadType where
  | set | list | erased | dictionary | objectValue | globalKey | null
  | int | bool | string | binary | timestamp | float | double | decimal | link | objectId | uuid
deriving DecidableEq, Repr

namespace PayloadType

/-- The value of the enumerator. -/
def toInt : PayloadType → Int
  | .set => -6 | .list => -5 | .erased => -4 | .dictionary => -3 | .objectValue => -2
  | .globalKey => -1 | .null => 0 | .int => 1 | .bool => 2 | .string => 3 | .binary => 4
  | .timestamp => 5 | .float => 6 | .double => 7 | .decimal => 8 | .link => 9
  | .objectId => 10 | .uuid => 11

/-- The enumerator of a value, as the `switch` of `read_payload_type` validates it. -/
def ofInt? : Int → Option PayloadType
  | -6 => some .set | -5 => some .list | -4 => some .erased | -3 => some .dictionary
  | -2 => some .objectValue | -1 => some .globalKey | 0 => some .null | 1 => some .int
  | 2 => some .bool | 3 => some .string | 4 => some .binary | 5 => some .timestamp
  | 6 => some .float | 7 => some .double | 8 => some .decimal | 9 => some .link
  | 10 => some .objectId | 11 => some .uuid | _ => none

@[simp] lemma ofInt?_toInt (t : PayloadType) : ofInt? t.toInt = some t := by
  cases t <;> rfl

lemma toInt_inRange_int64 (t : PayloadType) : IntType.int64.InRange t.toInt := by
  cases t <;> decide

/-- `is_valid_key_type`. -/
def isValidKeyType : PayloadType → Bool
  | .int | .string | .objectId | .uuid | .globalKey => true
  | _ => false

end PayloadType

/-- `Instruction::CollectionType`. -/
inductive CollectionType where
  | single | list | dictionary | set
deriving DecidableEq, Repr

namespace CollectionType

/-- The value of the enumerator. -/
def toNat : CollectionType → Nat
  | .single => 0 | .list => 1 | .dictionary => 2 | .set => 3

/-- The enumerator of a value, as the `switch` of `read_collection_type` validates it. -/
def ofNat? : Nat → Option CollectionType
  | 0 => some .single | 1 => some .list | 2 => some .dictionary | 3 => some .set | _ => none

@[simp] lemma ofNat?_toNat (t : CollectionType) : ofNat? t.toNat = some t := by
  cases t <;> rfl

end CollectionType

/-- `Instruction::PrimaryKey`: `mpark::monostate`, `int64_t`, `GlobalKey`, `InternString`,
`ObjectId` or `UUID`. -/
inductive PrimaryKey (S : Type) where
  | null
  | int (v : Int64)
  | globalKey (k : GlobalKey)
  | string (s : S)
  | objectId (id : Vector UInt8 12)
  | uuid (id : Vector UInt8 16)
deriving DecidableEq, Repr

/-- `Instruction::Payload`. -/
inductive Payload (S R : Type) where
  | set | list | erased | dictionary | objectValue
  | globalKey (k : GlobalKey)
  | null
  | int (v : Int64)
  | bool (v : Bool)
  | string (r : R)
  | binary (r : R)
  | timestamp (t : Timestamp)
  | float (bits : UInt32)
  | double (bits : UInt64)
  | decimal (d : Decimal128)
  | link (targetTable : S) (target : PrimaryKey S)
  | objectId (id : Vector UInt8 12)
  | uuid (id : Vector UInt8 16)
deriving DecidableEq, Repr

/-- The type tag of a payload. -/
def Payload.type {S R : Type} : Payload S R → PayloadType
  | .set => .set | .list => .list | .erased => .erased | .dictionary => .dictionary
  | .objectValue => .objectValue | .globalKey _ => .globalKey | .null => .null | .int _ => .int
  | .bool _ => .bool | .string _ => .string | .binary _ => .binary | .timestamp _ => .timestamp
  | .float _ => .float | .double _ => .double | .decimal _ => .decimal | .link _ _ => .link
  | .objectId _ => .objectId | .uuid _ => .uuid

/-- `Path::Element`: an `InternString` field name or a `uint32_t` index. -/
inductive PathElement (S : Type) where
  | field (name : S)
  | index (i : UInt32)
deriving DecidableEq, Repr

/-- `Path::is_array_index()`: the last element is an index. -/
def isArrayIndex {S : Type} (path : List (PathElement S)) : Bool :=
  match path.getLast? with
  | some (.index _) => true
  | _ => false

/-- The fields of a `PathInstruction`. -/
structure PathInstr (S : Type) where
  table : S
  object : PrimaryKey S
  field : S
  path : List (PathElement S)
deriving DecidableEq, Repr

/-- `AddTable::type`: a `TopLevelTable` with its primary key, or an `EmbeddedTable`. -/
inductive AddTableType (S : Type) where
  | topLevel (pkField : S) (pkType : PayloadType) (pkNullable isAsymmetric : Bool)
  | embedded
deriving DecidableEq, Repr

/-- `Instruction`, one constructor an instruction type. -/
inductive Instruction (S R : Type) where
  | addTable (table : S) (type : AddTableType S)
  | eraseTable (table : S)
  | addColumn (table field : S) (type keyType : PayloadType) (nullable : Bool)
      (collectionType : CollectionType) (linkTargetTable : S)
  | eraseColumn (table field : S)
  | createObject (table : S) (object : PrimaryKey S)
  | eraseObject (table : S) (object : PrimaryKey S)
  | update (p : PathInstr S) (value : Payload S R) (isDefault : Bool) (priorSize : UInt32)
  | addInteger (p : PathInstr S) (value : Int64)
  | arrayInsert (p : PathInstr S) (value : Payload S R) (priorSize : UInt32)
  | arrayMove (p : PathInstr S) (ndx2 priorSize : UInt32)
  | arrayErase (p : PathInstr S) (priorSize : UInt32)
  | clear (p : PathInstr S) (collectionType : CollectionType)
  | setInsert (p : PathInstr S) (value : Payload S R)
  | setErase (p : PathInstr S) (value : Payload S R)
deriving DecidableEq, Repr

/-- An instruction as the code holds it. -/
abbrev Instr := Instruction InternString StringBufferRange

namespace Instruction

variable {S R : Type}

/-- `Instruction::Type`, the value of an instruction's type. -/
def type : Instruction S R → Nat
  | .addTable .. => 0 | .eraseTable .. => 1 | .createObject .. => 2 | .eraseObject .. => 3
  | .update .. => 4 | .addInteger .. => 5 | .addColumn .. => 6 | .eraseColumn .. => 7
  | .arrayInsert .. => 8 | .arrayMove .. => 9 | .arrayErase .. => 10 | .clear .. => 11
  | .setInsert .. => 12 | .setErase .. => 13

/-- The fields of a path instruction, of an instruction that is one. -/
def pathInstr? : Instruction S R → Option (PathInstr S)
  | .update p .. | .addInteger p .. | .arrayInsert p .. | .arrayMove p .. | .arrayErase p ..
  | .clear p .. | .setInsert p .. | .setErase p .. => some p
  | _ => none

/-- The payload of an `Update`, `ArrayInsert`, `SetInsert` or `SetErase`. -/
def payload? : Instruction S R → Option (Payload S R)
  | .update _ v _ _ | .arrayInsert _ v _ | .setInsert _ v | .setErase _ v => some v
  | _ => none

end Instruction

/-- `InstrTypeInternString`: the type of the metainstruction that interns a string. -/
def instrTypeInternString : Nat := 0x3f

/-- The string ranges of a payload: of a `String` or a `Binary`. -/
def Payload.ranges {S R : Type} : Payload S R → List R
  | .string r | .binary r => [r]
  | _ => []

/-- The string ranges of an instruction, those of its payload. -/
def Instruction.ranges {S R : Type} (instr : Instruction S R) : List R :=
  (instr.payload?.map Payload.ranges).getD []

/-- `Changeset`: its entries, its interned strings and its string buffer. -/
structure Changeset where
  instructions : List (List Instr)
  strings : List StringBufferRange
  stringBuffer : List UInt8
deriving DecidableEq, Repr

namespace Changeset

/-- A `Changeset` as constructed. -/
def empty : Changeset := ⟨[], [], []⟩

/-- `for (auto instr : log)`: each instruction of each entry, and a null pointer for a
tombstone. -/
def iter (log : Changeset) : List (Option Instr) :=
  log.instructions.flatMap fun entry =>
    match entry with
    | [] => [none]
    | _ => entry.map some

/-- `Changeset::empty()`: `size() == 0`, no entry holds an instruction. -/
def isEmpty (log : Changeset) : Bool :=
  (log.instructions.map List.length).sum == 0

/-- `Changeset::push_back`: an entry of one instruction at the end. -/
def pushBack (log : Changeset) (instr : Instr) : Changeset :=
  { log with instructions := log.instructions ++ [[instr]] }

/-- The instructions that are not tombstones, in order. -/
def instrs (log : Changeset) : List Instr :=
  log.instructions.flatten

/-- `Changeset::append_string`: the bytes appended to the buffer, and their range, whose offset
is the buffer's size as a `uint32_t`. -/
def appendString (log : Changeset) (bytes : List UInt8) : StringBufferRange × Changeset :=
  (⟨log.stringBuffer.length.toUInt32, bytes.length.toUInt32⟩,
    { log with stringBuffer := log.stringBuffer ++ bytes })

/-- The bytes a range denotes, when it lies inside the buffer. -/
def denote (log : Changeset) (r : StringBufferRange) : Option (List UInt8) :=
  if r.offset.toNat + r.size.toNat ≤ log.stringBuffer.length then
    some ((log.stringBuffer.drop r.offset.toNat).take r.size.toNat)
  else none

/-- The bytes an interned string denotes. -/
def denoteIntern (log : Changeset) (s : InternString) : Option (List UInt8) :=
  (log.strings[s.value.toNat]?).bind log.denote

end Changeset

/-! ## Replacing strings by what they denote -/

/-- A primary key with its strings replaced. -/
def PrimaryKey.map {S S' : Type} (f : S → S') : PrimaryKey S → PrimaryKey S'
  | .null => .null
  | .int v => .int v
  | .globalKey k => .globalKey k
  | .string s => .string (f s)
  | .objectId id => .objectId id
  | .uuid id => .uuid id

/-- A payload with its strings replaced. -/
def Payload.map {S R S' R' : Type} (f : S → S') (g : R → R') : Payload S R → Payload S' R'
  | .set => .set | .list => .list | .erased => .erased | .dictionary => .dictionary
  | .objectValue => .objectValue | .globalKey k => .globalKey k | .null => .null
  | .int v => .int v | .bool v => .bool v | .string r => .string (g r)
  | .binary r => .binary (g r) | .timestamp t => .timestamp t | .float b => .float b
  | .double b => .double b | .decimal d => .decimal d
  | .link t k => .link (f t) (k.map f) | .objectId id => .objectId id | .uuid id => .uuid id

/-- A path element with its string replaced. -/
def PathElement.map {S S' : Type} (f : S → S') : PathElement S → PathElement S'
  | .field s => .field (f s)
  | .index i => .index i

/-- The fields of a path instruction with their strings replaced. -/
def PathInstr.map {S S' : Type} (f : S → S') (p : PathInstr S) : PathInstr S' :=
  ⟨f p.table, p.object.map f, f p.field, p.path.map (PathElement.map f)⟩

/-- The type of a table with its string replaced. -/
def AddTableType.map {S S' : Type} (f : S → S') : AddTableType S → AddTableType S'
  | .topLevel pk t n a => .topLevel (f pk) t n a
  | .embedded => .embedded

/-- An instruction with its strings replaced, and of the union in an `Update` only the member
the path selects, the other at the value of a default-constructed `Update`. -/
def Instruction.resolveWith {S R S' R' : Type} (f : S → S') (g : R → R') :
    Instruction S R → Instruction S' R'
  | .addTable t ty => .addTable (f t) (ty.map f)
  | .eraseTable t => .eraseTable (f t)
  | .addColumn t fl ty kt n ct lt => .addColumn (f t) (f fl) ty kt n ct (f lt)
  | .eraseColumn t fl => .eraseColumn (f t) (f fl)
  | .createObject t o => .createObject (f t) (o.map f)
  | .eraseObject t o => .eraseObject (f t) (o.map f)
  | .update p v d s =>
    if isArrayIndex p.path then .update (p.map f) (v.map f g) false s
    else .update (p.map f) (v.map f g) d 0
  | .addInteger p v => .addInteger (p.map f) v
  | .arrayInsert p v s => .arrayInsert (p.map f) (v.map f g) s
  | .arrayMove p n s => .arrayMove (p.map f) n s
  | .arrayErase p s => .arrayErase (p.map f) s
  | .clear p ct => .clear (p.map f) ct
  | .setInsert p v => .setInsert (p.map f) (v.map f g)
  | .setErase p v => .setErase (p.map f) (v.map f g)

/-- An instruction of `log` with every string replaced by the bytes it denotes. -/
def Changeset.resolve (log : Changeset) (instr : Instr) :
    Instruction (Option (List UInt8)) (Option (List UInt8)) :=
  instr.resolveWith log.denoteIntern log.denote

/-- Replacing ranges that denote alike leaves a payload's image the same. -/
lemma Payload.map_congr {S R S' R' : Type} {f : S → S'} {g g' : R → R'} {v : Payload S R}
    (hg : ∀ r ∈ v.ranges, g r = g' r) : v.map f g = v.map f g' := by
  cases v <;> simp_all [Payload.map, Payload.ranges]

/-- Replacing ranges that denote alike leaves an instruction's image the same. -/
lemma Instruction.resolveWith_congr {S R S' R' : Type} {f : S → S'} {g g' : R → R'}
    {instr : Instruction S R} (hg : ∀ r ∈ instr.ranges, g r = g' r) :
    instr.resolveWith f g = instr.resolveWith f g' := by
  cases instr
  case update p v d s => simp only [Instruction.resolveWith, Payload.map_congr (f := f) hg]
  case arrayInsert p v s => simp only [Instruction.resolveWith, Payload.map_congr (f := f) hg]
  case setInsert p v => simp only [Instruction.resolveWith, Payload.map_congr (f := f) hg]
  case setErase p v => simp only [Instruction.resolveWith, Payload.map_congr (f := f) hg]
  -- the other instructions have no payload
  all_goals rfl

end Sync

end Realm
