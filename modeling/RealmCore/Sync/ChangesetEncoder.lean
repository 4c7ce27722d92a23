import Mathlib
import RealmCore.Mixed
import RealmCore.Sync.Instruction

/-!
# The changeset encoder

`ChangesetEncoder` (src/realm/sync/changeset_encoder.cpp) writes a changeset as a string of
bytes.  Every integer goes through `encode_int`, whatever type it has in the code: a `bool`, a
`uint8_t` and a `uint32_t` are widened to `uint64_t` first, and a payload type to `int64_t`,
so each is written as the value it has.  A float, a double, an `ObjectId` and a `UUID` are
their bytes in memory, a `Decimal128` its coefficient in the 128-bit form of `encode_int`
followed by the exponent and the sign, and a string its size followed by its bytes.

`encode_single` writes the interned strings first, each as a metainstruction of type
`InstrTypeInternString`, and then the instructions that are not tombstones.  The encoder's
buffer only grows, so the model is the function that answers the bytes it appends.

`append_string` reads the string from `m_string_range`, which `encode_single` sets to the
changeset's string buffer; it asserts that the range lies inside it, and the model takes the
bytes of the range that do.  `append_value(InternString)` asserts that the string is not
`npos`, which the model does not check.
-/

namespace Realm

namespace Sync

namespace ChangesetEncoder

/-- `append_int(integer)`, which the `append_value` of every integer type comes to. -/
def appendInt (v : Int) : List UInt8 :=
  encodeInt v

/-- `append_value(bool)`, as a `uint8_t`. -/
def appendBool (b : Bool) : List UInt8 :=
  appendInt b.toNat

/-- `append_value(InternString)`: its `uint32_t` value. -/
def appendInternString (str : InternString) : List UInt8 :=
  appendInt str.value.toNat

/-- `append_value(Instruction::Payload::Type)`, as an `int64_t`. -/
def appendPayloadType (type : PayloadType) : List UInt8 :=
  appendInt type.toInt

/-- `append_value(Instruction::CollectionType)`, as a `uint8_t`. -/
def appendCollectionType (type : CollectionType) : List UInt8 :=
  appendInt type.toNat

/-- `append_value(GlobalKey)`: `hi` and `lo`. -/
def appendGlobalKey (oid : GlobalKey) : List UInt8 :=
  appendInt oid.hi.toNat ++ appendInt oid.lo.toNat

/-- `append_value(Timestamp)`: the seconds, then the nanoseconds as an `int64_t`. -/
def appendTimestamp (timestamp : Timestamp) : List UInt8 :=
  appendInt timestamp.seconds.toInt ++ appendInt timestamp.nanoseconds.toInt

/-- `append_value(float)`: its four bytes. -/
def appendFloat (number : UInt32) : List UInt8 :=
  leBytes 4 number.toNat

/-- `append_value(double)`: its eight bytes. -/
def appendDouble (number : UInt64) : List UInt8 :=
  leBytes 8 number.toNat

/-- `append_value(Decimal128)`: the coefficient that `unpack` answers, as the 128-bit value of
its two words, then the exponent as an `int64_t` and the sign. -/
def appendDecimal (id : Decimal128) : List UInt8 :=
  let (cx, exp, sign) := id.unpack
  encodeBid128 (cx.1.toNat + cx.2.toNat * 2 ^ 64) ++ appendInt exp ++ appendBool sign

/-- `append_string(str)`: the size as a `uint64_t`, then the bytes of the range of
`m_string_range`. -/
def appendString (stringRange : List UInt8) (str : StringBufferRange) : List UInt8 :=
  appendInt str.size.toNat ++ (stringRange.drop str.offset.toNat).take str.size.toNat

/-- `append_value(const Instruction::PrimaryKey&)`: the type, then the key.  A string key is an
`InternString` here, where in a payload `String` means a string range. -/
def appendPrimaryKey : PrimaryKey InternString → List UInt8
  | .null => appendPayloadType .null
  | .int value => appendPayloadType .int ++ appendInt value.toInt
  | .string str => appendPayloadType .string ++ appendInternString str
  | .globalKey key => appendPayloadType .globalKey ++ appendGlobalKey key
  | .objectId id => appendPayloadType .objectId ++ id.toList
  | .uuid uuid => appendPayloadType .uuid ++ uuid.toList

/-- `append_value(const Instruction::Payload&)`: the type, then the data of that type; the
types without data write nothing more. -/
def appendPayload (stringRange : List UInt8)
    (payload : Payload InternString StringBufferRange) : List UInt8 :=
  appendPayloadType payload.type ++
    match payload with
    | .globalKey key => appendGlobalKey key
    | .int integer => appendInt integer.toInt
    | .bool boolean => appendBool boolean
    | .string str => appendString stringRange str
    | .binary binary => appendString stringRange binary
    | .timestamp timestamp => appendTimestamp timestamp
    | .float fnum => appendFloat fnum
    | .double dnum => appendDouble dnum
    | .decimal decimal => appendDecimal decimal
    | .objectId id => id.toList
    | .uuid uuid => uuid.toList
    -- `append_value(const Instruction::Payload::Link&)`
    | .link targetTable target => appendInternString targetTable ++ appendPrimaryKey target
    | .erased | .set | .list | .dictionary | .objectValue | .null => []

/-- A path element: an index as its value, a field name as `-1` and the `InternString`. -/
def appendPathElement : PathElement InternString → List UInt8
  | .index index => appendInt index.toNat
  | .field name => appendInt (-1) ++ appendInternString name

/-- `append_value(const Instruction::Path&)`: the size as a `uint32_t`, then the elements. -/
def appendPath (path : List (PathElement InternString)) : List UInt8 :=
  appendInt (path.length % 2 ^ 32 : Nat) ++ path.flatMap appendPathElement

/-- The fields that `append_path_instr` writes after the type. -/
def appendPathInstr (instr : PathInstr InternString) : List UInt8 :=
  appendInternString instr.table ++ appendPrimaryKey instr.object ++
    appendInternString instr.field ++ appendPath instr.path

/-- `Table::Type` of an `AddTable`: `TopLevel`, `Embedded` or `TopLevelAsymmetric`. -/
def tableType {S : Type} : AddTableType S → Nat
  | .topLevel _ _ _ isAsymmetric => if isAsymmetric then 2 else 0
  | .embedded => 1

/-- `operator()(const Instruction&)`: `append` and `append_path_instr` both write the type
first, as a `uint8_t`, and then the fields of the instruction. -/
def encodeInstr (stringRange : List UInt8) (instr : Instr) : List UInt8 :=
  appendInt instr.type ++
    match instr with
    | .addTable table type =>
      appendInternString table ++ appendInt (tableType type) ++
        match type with
        | .topLevel pkField pkType pkNullable _ =>
          appendInternString pkField ++ appendPayloadType pkType ++ appendBool pkNullable
        | .embedded => []
    | .eraseTable table => appendInternString table
    | .createObject table object => appendInternString table ++ appendPrimaryKey object
    | .eraseObject table object => appendInternString table ++ appendPrimaryKey object
    | .update p value isDefault priorSize =>
      -- `is_array_update()` decides which member of the union is written
      appendPathInstr p ++ appendPayload stringRange value ++
        if isArrayIndex p.path then appendInt priorSize.toNat else appendBool isDefault
    | .addInteger p value => appendPathInstr p ++ appendInt value.toInt
    | .addColumn table field type keyType nullable collectionType linkTargetTable =>
      appendInternString table ++ appendInternString field ++ appendPayloadType type ++
        appendBool nullable ++ appendCollectionType collectionType ++
        (if type = .link then appendInternString linkTargetTable else []) ++
        (if collectionType = .dictionary then appendPayloadType keyType else [])
    | .eraseColumn table field => appendInternString table ++ appendInternString field
    | .arrayInsert p value priorSize =>
      appendPathInstr p ++ appendPayload stringRange value ++ appendInt priorSize.toNat
    | .arrayMove p ndx2 priorSize =>
      appendPathInstr p ++ appendInt ndx2.toNat ++ appendInt priorSize.toNat
    | .arrayErase p priorSize => appendPathInstr p ++ appendInt priorSize.toNat
    | .clear p collectionType => appendPathInstr p ++ appendCollectionType collectionType
    | .setInsert p value => appendPathInstr p ++ appendPayload stringRange value
    | .setErase p value => appendPathInstr p ++ appendPayload stringRange value

/-- `set_intern_string(index, range)`: the metainstruction, its index and the string. -/
def setInternString (stringRange : List UInt8) (index : Nat) (range : StringBufferRange) :
    List UInt8 :=
  appendInt instrTypeInternString ++ appendInt index ++ appendString stringRange range

/-- `encode_single(log)`: nothing for an empty changeset; otherwise the interned strings, at
their indices as `uint32_t`, and the instructions that are not tombstones. -/
def encodeSingle (log : Changeset) : List UInt8 :=
  if log.isEmpty then []
  else
    (log.strings.zipIdx.flatMap fun p => setInternString log.stringBuffer (p.2 % 2 ^ 32) p.1) ++
      (log.iter.filterMap id).flatMap (encodeInstr log.stringBuffer)

end ChangesetEncoder

end Sync

end Realm
