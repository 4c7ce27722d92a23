import Mathlib
import RealmCore.Lib.Decoder
import RealmCore.Sync.Instruction

/-!
# The changeset parser

`parse_changeset` (src/realm/sync/changeset_parser.cpp) reads the bytes that the encoder
writes back into a `Changeset`.  Its `State` reads integers with `decode_int` at the type each
field has in the code, which fails on a premature end, on too many bytes and on a value out of
range, and it validates every enumeration, every `InternString` against the strings interned
so far and every string's size; each failure throws a `BadChangesetError` with a complaint of
its own.  The readers are `Parser`s, decoders of bytes that fail with a `ParserError`.

`InstructionBuilder`, the handler, copies every string it is given to the end of the
changeset's buffer (`add_string_range`), pushes every instruction as an entry of its own, and
records the range of each interned string.  In the model the readers of a payload and of a
whole instruction take the changeset being built and answer it with what they read.

The casts of the code are the model's: a payload type is read as an `int64_t` and converted to
the `int8_t` of the enumeration, an instruction type as a `uint64_t` and converted to the
`uint8_t` of `Instruction::Type`, and an index of a path as an `int64_t` converted to a
`uint32_t`.  The checks that a size fits a `size_t` never fail where `size_t` has 64 bits, and
the model leaves them out.
-/

namespace Realm

namespace Sync

namespace ChangesetParser

/-- The `BadChangesetError`s that `parser_error` throws, one a complaint. -/
inductive ParserError where
  | integerDecoding
  | decimalDecoding
  | truncatedInput
  | invalidInternedString
  | unsupportedDataType
  | unsupportedCollectionType
  | unsupportedPayloadDataType
  | unsupportedObjectKeyType
  | stringTooLong
  | timestampOutOfRange
  | unexpectedInternIndex (index : UInt32)
  | unexpectedInternString (str : List UInt8)
  | unknownTableType (tableType : UInt8)
  | invalidPrimaryKeyType (pkType : UInt8)
  | arrayInsertWithoutIndex
  | arrayMoveWithoutIndex
  | arrayEraseWithoutIndex
  | unknownInstructionType (t : UInt64)
deriving DecidableEq, Repr

/-- The text of a complaint; `util::format` puts the value in place of `%1`, a string as its
bytes. -/
def ParserError.message : ParserError → String
  | .integerDecoding => "bad changeset - integer decoding failure"
  | .decimalDecoding => "bad changeset - decimal decoding failure"
  | .truncatedInput => "truncated input"
  | .invalidInternedString => "Invalid interned string"
  | .unsupportedDataType => "Unsupported data type"
  | .unsupportedCollectionType => "Unsupported collection type"
  | .unsupportedPayloadDataType => "Unsupported payload data type"
  | .unsupportedObjectKeyType => "Unsupported object key type"
  | .stringTooLong => "string too long"
  | .timestampOutOfRange => "timestamp out of range"
  | .unexpectedInternIndex index => "Unexpected intern index: " ++ toString index
  | .unexpectedInternString str =>
    "Unexpected intern string: " ++ String.ofList (str.map fun b => Char.ofNat b.toNat)
  | .unknownTableType tableType => "AddTable: unknown table type: " ++ toString tableType
  | .invalidPrimaryKeyType pkType => "Invalid primary key type in AddTable: " ++ toString pkType
  | .arrayInsertWithoutIndex => "ArrayInsert without an index"
  | .arrayMoveWithoutIndex => "ArrayMove without an index"
  | .arrayEraseWithoutIndex => "ArrayErase without an index"
  | .unknownInstructionType t => "Unknown instruction type: " ++ toString t

/-- A reader of the bytes of a changeset. -/
abbrev Parser (α : Type) := Decoder UInt8 ParserError α

/-- `Table::max_string_size`, `0xFFFFF8 - Array::header_size - 1`. -/
def maxStringSize : Nat := 0xFFFFEF

/-- `read_int<T>()`. -/
def readInt (T : IntType) : Parser Int := fun input =>
  match decodeInt T input with
  | some (value, rest) => .ok (value, rest)
  | none => .error .integerDecoding

/-- `read_bytes(data, size)`, and `read_buffer(size)`. -/
def readBytes (size : Nat) : Parser (List UInt8) :=
  Decoder.take size .truncatedInput

/-- `read_bool()`: a `uint8_t`, true when it is not zero. -/
def readBool : Parser Bool := do
  let value ← readInt .uint8
  pure (value ≠ 0)

/-- The value of bytes in memory, least significant first. -/
def ofLeBytes (bytes : List UInt8) : Nat :=
  bytes.foldr (fun b acc => b.toNat + 256 * acc) 0

/-- `read_float()`: four bytes. -/
def readFloat : Parser UInt32 := do
  let bytes ← readBytes 4
  pure (ofLeBytes bytes).toUInt32

/-- `read_double()`: eight bytes. -/
def readDouble : Parser UInt64 := do
  let bytes ← readBytes 8
  pure (ofLeBytes bytes).toUInt64

/-- `read_intern_string()`: a `uint32_t` index below the number `count` of strings interned
so far. -/
def readInternString (count : Nat) : Parser InternString := do
  let index ← readInt .uint32
  if count ≤ index.toNat then throw .invalidInternedString
  pure ⟨index.toNat.toUInt32⟩

/-- `read_global_key()`: `hi` and `lo`, each a `uint64_t`. -/
def readGlobalKey : Parser GlobalKey := do
  let hi ← readInt .uint64
  let lo ← readInt .uint64
  pure ⟨hi.toNat.toUInt64, lo.toNat.toUInt64⟩

/-- `read_timestamp()`: the seconds and the nanoseconds, each an `int64_t`; the nanoseconds
must not exceed the largest `int32_t`. -/
def readTimestamp : Parser Timestamp := do
  let seconds ← readInt .int64
  let nanoseconds ← readInt .int64
  if nanoseconds > 2 ^ 31 - 1 then throw .timestampOutOfRange
  pure ⟨Int64.ofInt seconds, Int32.ofInt nanoseconds⟩

/-- `read_object_id()`: its twelve bytes. -/
def readObjectId : Parser (Vector UInt8 12) :=
  Decoder.takeVector 12 .truncatedInput

/-- `read_uuid()`: its sixteen bytes. -/
def readUuid : Parser (Vector UInt8 16) :=
  Decoder.takeVector 16 .truncatedInput

/-- `decode_int(*this, cx)` of a `Bid128`. -/
def readBid128 : Parser Nat := fun input =>
  match decodeBid128 input with
  | some (value, rest) => .ok (value, rest)
  | none => .error .decimalDecoding

/-- `read_decimal()`: the coefficient, whose two words are copied into a `Decimal128::Bid128`,
then the exponent and the sign, each an `int`. -/
def readDecimal : Parser Decimal128 := do
  let cx ← readBid128
  let exp ← readInt .int32
  let sign ← readInt .int32
  pure (Decimal128.ofBid128 (cx.toUInt64, (cx / 2 ^ 64).toUInt64) exp (sign ≠ 0))

/-- `read_string()`: a `uint64_t` size of at most `max_string_size`, then the bytes. -/
def readString : Parser (List UInt8) := do
  let size ← readInt .uint64
  if maxStringSize < size then throw .stringTooLong
  readBytes size.toNat

/-- `read_binary()`: a `uint64_t` size, then the bytes. -/
def readBinary : Parser (List UInt8) := do
  let size ← readInt .uint64
  readBytes size.toNat

/-- `read_payload_type()`: an `int64_t` as the `int8_t` of `Instruction::Payload::Type`, which
must be one of its enumerators. -/
def readPayloadType : Parser PayloadType := do
  let value ← readInt .int64
  match PayloadType.ofInt? (Int8.ofInt value).toInt with
  | some type => pure type
  | none => throw .unsupportedDataType

/-- `read_collection_type()`: a `uint8_t` that must be one of the enumerators. -/
def readCollectionType : Parser CollectionType := do
  let value ← readInt .uint8
  match CollectionType.ofNat? value.toNat with
  | some type => pure type
  | none => throw .unsupportedCollectionType

/-- `read_object_key()`: a payload type, then the key of that type. -/
def readObjectKey (count : Nat) : Parser (PrimaryKey InternString) := do
  let type ← readPayloadType
  match type with
  | .null => pure .null
  | .int => do
    let value ← readInt .int64
    pure (.int (Int64.ofInt value))
  | .string => .string <$> readInternString count
  | .globalKey => .globalKey <$> readGlobalKey
  | .objectId => .objectId <$> readObjectId
  | .uuid => .uuid <$> readUuid
  | _ => throw .unsupportedObjectKeyType

/-- `read_link()`: the target table, then the key of the target. -/
def readLink (count : Nat) : Parser (InternString × PrimaryKey InternString) := do
  let targetClass ← readInternString count
  let key ← readObjectKey count
  pure (targetClass, key)

/-- `read_payload()`: the type, then the data of that type.  A string or a binary goes to the
end of the buffer of `log` (`add_string_range`), and the payload holds its range there. -/
def readPayload (count : Nat) (log : Changeset) :
    Parser (Payload InternString StringBufferRange × Changeset) := do
  let type ← readPayloadType
  match type with
  | .globalKey => throw .unsupportedPayloadDataType
  | .int => do
    let integer ← readInt .int64
    pure (.int (Int64.ofInt integer), log)
  | .bool => do
    let boolean ← readBool
    pure (.bool boolean, log)
  | .float => do
    let fnum ← readFloat
    pure (.float fnum, log)
  | .double => do
    let dnum ← readDouble
    pure (.double dnum, log)
  | .string => do
    let value ← readString
    let (str, log) := log.appendString value
    pure (.string str, log)
  | .binary => do
    let value ← readBinary
    let (binary, log) := log.appendString value
    pure (.binary binary, log)
  | .timestamp => do
    let timestamp ← readTimestamp
    pure (.timestamp timestamp, log)
  | .objectId => do
    let id ← readObjectId
    pure (.objectId id, log)
  | .decimal => do
    let decimal ← readDecimal
    pure (.decimal decimal, log)
  | .uuid => do
    let uuid ← readUuid
    pure (.uuid uuid, log)
  | .link => do
    let (targetTable, target) ← readLink count
    pure (.link targetTable target, log)
  | .null => pure (.null, log)
  | .set => pure (.set, log)
  | .list => pure (.list, log)
  | .dictionary => pure (.dictionary, log)
  | .erased => pure (.erased, log)
  | .objectValue => pure (.objectValue, log)

/-- An element of a path: an `int64_t`, an index as a `uint32_t` when it is not negative, and
otherwise followed by a field name. -/
def readPathElement (count : Nat) : Parser (PathElement InternString) := do
  let element ← readInt .int64
  if 0 ≤ element then pure (.index (UInt32.ofInt element))
  else .field <$> readInternString count

/-- `read_path()`: a `uint32_t` length, then the elements. -/
def readPath (count : Nat) : Parser (List (PathElement InternString)) := do
  let pathLen ← readInt .uint32
  Decoder.replicate (readPathElement count) pathLen.toNat

/-- `read_path_instr(instr)`: the table, the object, the field and the path. -/
def readPathInstr (count : Nat) : Parser (PathInstr InternString) := do
  let table ← readInternString count
  let object ← readObjectKey count
  let field ← readInternString count
  let path ← readPath count
  pure ⟨table, object, field, path⟩

/-- `spec` of a `TopLevelTable`: the primary key's field, its type, which must be a valid key
type, and whether it is nullable. -/
def readTopLevelTable (count : Nat) (isAsymmetric : Bool) :
    Parser (AddTableType InternString) := do
  let pkField ← readInternString count
  let pkType ← readPayloadType
  if !pkType.isValidKeyType then throw (.invalidPrimaryKeyType (Int8.ofInt pkType.toInt).toUInt8)
  let pkNullable ← readBool
  pure (.topLevel pkField pkType pkNullable isAsymmetric)

/-- The state of a parse: the strings interned so far (`m_intern_strings`), and the changeset
that `InstructionBuilder` builds. -/
structure State where
  internStrings : List (List UInt8)
  log : Changeset

/-- An interned string: `add_string_range` copies it to the buffer, `set_intern_string` records
its range, and the parser remembers it. -/
def State.intern (st : State) (str : List UInt8) : State :=
  let (range, log) := st.log.appendString str
  ⟨st.internStrings ++ [str], { log with strings := log.strings ++ [range] }⟩

/-- `m_handler(instr)`: `InstructionBuilder` pushes the instruction. -/
def State.push (st : State) (log : Changeset) (instr : Instr) : State :=
  ⟨st.internStrings, log.pushBack instr⟩

/-- `parse_one()`: an interned string, or an instruction of the type read first. -/
def parseOne (st : State) : Parser State := do
  let t ← readInt .uint64
  if t = instrTypeInternString then
    let index ← readInt .uint32
    if index ≠ st.internStrings.length then throw (.unexpectedInternIndex index.toNat.toUInt32)
    let str ← readString
    if str ∈ st.internStrings then throw (.unexpectedInternString str)
    pure (st.intern str)
  else
    let count := st.internStrings.length
    match t.toNat % 256 with
    | 0 => do
      let table ← readInternString count
      let tableType ← readInt .uint8
      let type ← match tableType.toNat with
        | 0 => readTopLevelTable count false
        | 2 => readTopLevelTable count true
        | 1 => pure .embedded
        | _ => throw (.unknownTableType tableType.toNat.toUInt8)
      pure (st.push st.log (.addTable table type))
    | 1 => do
      let table ← readInternString count
      pure (st.push st.log (.eraseTable table))
    | 2 => do
      let table ← readInternString count
      let object ← readObjectKey count
      pure (st.push st.log (.createObject table object))
    | 3 => do
      let table ← readInternString count
      let object ← readObjectKey count
      pure (st.push st.log (.eraseObject table object))
    | 4 => do
      let p ← readPathInstr count
      let (value, log) ← readPayload count st.log
      -- the last path element decides which member of the union is read
      if isArrayIndex p.path then
        let priorSize ← readInt .uint32
        pure (st.push log (.update p value false priorSize.toNat.toUInt32))
      else
        let isDefault ← readBool
        pure (st.push log (.update p value isDefault 0))
    | 5 => do
      let p ← readPathInstr count
      let value ← readInt .int64
      pure (st.push st.log (.addInteger p (Int64.ofInt value)))
    | 6 => do
      let table ← readInternString count
      let field ← readInternString count
      let type ← readPayloadType
      let nullable ← readBool
      let collectionType ← readCollectionType
      -- `link_target_table` keeps its default, `npos`, unless the column is a link
      let linkTargetTable ←
        if type = .link then readInternString count else pure InternString.npos
      let keyType ← if collectionType = .dictionary then readPayloadType else pure .null
      pure (st.push st.log
        (.addColumn table field type keyType nullable collectionType linkTargetTable))
    | 7 => do
      let table ← readInternString count
      let field ← readInternString count
      pure (st.push st.log (.eraseColumn table field))
    | 8 => do
      let p ← readPathInstr count
      if !isArrayIndex p.path then throw .arrayInsertWithoutIndex
      let (value, log) ← readPayload count st.log
      let priorSize ← readInt .uint32
      pure (st.push log (.arrayInsert p value priorSize.toNat.toUInt32))
    | 9 => do
      let p ← readPathInstr count
      if !isArrayIndex p.path then throw .arrayMoveWithoutIndex
      let ndx2 ← readInt .uint32
      let priorSize ← readInt .uint32
      pure (st.push st.log (.arrayMove p ndx2.toNat.toUInt32 priorSize.toNat.toUInt32))
    | 10 => do
      let p ← readPathInstr count
      if !isArrayIndex p.path then throw .arrayEraseWithoutIndex
      let priorSize ← readInt .uint32
      pure (st.push st.log (.arrayErase p priorSize.toNat.toUInt32))
    | 11 => do
      let p ← readPathInstr count
      let collectionType ← readCollectionType
      pure (st.push st.log (.clear p collectionType))
    | 12 => do
      let p ← readPathInstr count
      let (value, log) ← readPayload count st.log
      pure (st.push log (.setInsert p value))
    | 13 => do
      let p ← readPathInstr count
      let (value, log) ← readPayload count st.log
      pure (st.push log (.setErase p value))
    | _ => throw (.unknownInstructionType t.toNat.toUInt64)

/-- `parse_changeset(input, out_log)`: `InstructionBuilder` clears the interned strings of
`out_log`, and `parse_one` runs while there is input. -/
def parseChangeset (input : List UInt8) (outLog : Changeset) : Except ParserError Changeset :=
  State.log <$> Decoder.loop parseOne ⟨[], { outLog with strings := [] }⟩ input

end ChangesetParser

end Sync

end Realm
