import Mathlib
import RealmCore.ObjKey
import RealmCore.Sync.ChangesetParser

/-!
# The transaction log

A write transaction records what it changes in a transaction log
(src/realm/impl/transact_log.hpp, src/realm/impl/transact_log.cpp): `TransactLogEncoder`
appends one instruction for each change, and `TransactLogParser::parse` reads the log back and
calls, for each instruction, the method of the same name of an `InstructionHandler`.  An
instruction is its code, below `64` so that it takes one byte, followed by integers in the
encoding of `encode_int` (see `IntegerCodec`).  The bytes of an integer do not depend on the
type it is written at, and the parser reads each at a type of its own.

A handler is a step function on a state of its own, which answers `none` where the method
returns `false`; the parser then fails, as it does on a log it cannot read.
`select_collection` writes, after the column and the object, the number of elements of the
path below the column and their salts; the parser rebuilds the first element from the column.
-/

namespace Realm

/-- `TableKey`. -/
structure TableKey where
  value : UInt32
deriving DecidableEq, Repr

/-- `ColKey`: the index of the column in the low 16 bits, its attributes from bit 22. -/
structure ColKey where
  value : Int64
deriving DecidableEq, Repr

namespace ColKey

/-- `get_index().val`. -/
def index (colKey : ColKey) : UInt32 :=
  colKey.value.toUInt64.toUInt32 &&& 0xFFFF

/-- `is_collection()`: one of the attributes `List`, `Dictionary` and `Set`, of mask
`col_attr_Collection = 0xE0`. -/
def isCollection (colKey : ColKey) : Bool :=
  (colKey.value.toUInt64.toUInt32 >>> 22) &&& 0xFF &&& 0xE0 != 0

end ColKey

/-- `StableIndex`: a column, by its index, or a collection nested in another, by its salt. -/
structure StableIndex where
  isColumn : Bool
  isCollection : Bool
  colIndex : Int16
  salt : Int32
deriving DecidableEq, Repr

namespace StableIndex

/-- `StableIndex(col_key, salt)`. -/
def ofColKey (colKey : ColKey) (salt : Int64) : StableIndex :=
  ⟨true, colKey.isCollection, colKey.index.toUInt16.toInt16, salt.toInt32⟩

/-- `StableIndex(salt)`. -/
def ofSalt (salt : Int64) : StableIndex :=
  ⟨false, false, 0, salt.toInt32⟩

/-- `get_salt()`. -/
def getSalt (index : StableIndex) : Int64 :=
  index.salt.toInt64

end StableIndex

/-- `StablePath`: from the column of the object down to the collection. -/
abbrev StablePath := List StableIndex

namespace Impl

/-- `_impl::Instruction`, the codes of the instructions of the transaction log. -/
inductive Instruction where
  | insertGroupLevelTable | eraseGroupLevelTable | renameGroupLevelTable
  | selectTable | createObject | removeObject | set | setDefault
  | insertColumn | eraseColumn | renameColumn
  | selectCollection | collectionInsert | collectionSet | collectionMove | collectionErase
  | collectionClear | dictionaryInsert | dictionarySet | dictionaryErase
  | setInsert | setErase | setClear | typedLinkChange | dictionaryClear | selectCollectionByPath
deriving DecidableEq, Repr

namespace Instruction

/-- The value of an instruction's code. -/
def code : Instruction → Nat
  | .insertGroupLevelTable => 1 | .eraseGroupLevelTable => 2 | .renameGroupLevelTable => 3
  | .selectTable => 10 | .createObject => 11 | .removeObject => 12 | .set => 13
  | .setDefault => 14 | .insertColumn => 20 | .eraseColumn => 21 | .renameColumn => 22
  | .selectCollection => 30 | .collectionInsert => 31 | .collectionSet => 32
  | .collectionMove => 33 | .collectionErase => 35 | .collectionClear => 36
  | .dictionaryInsert => 37 | .dictionarySet => 38 | .dictionaryErase => 39
  | .setInsert => 40 | .setErase => 41 | .setClear => 42 | .typedLinkChange => 43
  | .dictionaryClear => 44 | .selectCollectionByPath => 45

/-- `Instruction(instr_ch)`, for the cases of the switch of `parse_one`. -/
def ofCode? : Nat → Option Instruction
  | 1 => some .insertGroupLevelTable | 2 => some .eraseGroupLevelTable
  | 3 => some .renameGroupLevelTable | 10 => some .selectTable | 11 => some .createObject
  | 12 => some .removeObject | 13 => some .set | 14 => some .setDefault
  | 20 => some .insertColumn | 21 => some .eraseColumn | 22 => some .renameColumn
  | 30 => some .selectCollection | 31 => some .collectionInsert | 32 => some .collectionSet
  | 33 => some .collectionMove | 35 => some .collectionErase | 36 => some .collectionClear
  | 37 => some .dictionaryInsert | 38 => some .dictionarySet | 39 => some .dictionaryErase
  | 40 => some .setInsert | 41 => some .setErase | 42 => some .setClear
  | 43 => some .typedLinkChange | 44 => some .dictionaryClear
  | 45 => some .selectCollectionByPath
  | _ => none

end Instruction

/-- A call of a method of an `InstructionHandler`, with its arguments. -/
inductive HandlerCall where
  | selectTable (key : TableKey)
  | insertGroupLevelTable (tableKey : TableKey)
  | eraseClass (tableKey : TableKey)
  | renameClass (tableKey : TableKey)
  | createObject (key : ObjKey)
  | removeObject (key : ObjKey)
  | modifyObject (colKey : ColKey) (key : ObjKey)
  | insertColumn (colKey : ColKey)
  | eraseColumn (colKey : ColKey)
  | renameColumn (colKey : ColKey)
  | selectCollection (colKey : ColKey) (key : ObjKey) (path : StablePath)
  | collectionSet (collectionNdx : UInt64)
  | collectionInsert (ndx : UInt64)
  | collectionMove (fromNdx toNdx : UInt64)
  | collectionErase (collectionNdx : UInt64)
  | collectionClear (oldSize : UInt64)
  | typedLinkChange (col : ColKey) (dest : TableKey)
deriving DecidableEq, Repr

/-! ## The encoder -/

namespace TransactLogEncoder

/-- `append_simple_instr(numbers...)`: each number as `encode_int` writes it. -/
def appendSimpleInstr (numbers : List Int) : List UInt8 :=
  numbers.flatMap encodeInt

/-- `select_table(key)`: no levels, and the key. -/
def selectTable (key : TableKey) : List UInt8 :=
  appendSimpleInstr [Instruction.selectTable.code, 0, key.value.toNat]

/-- `insert_group_level_table(table_key)`. -/
def insertGroupLevelTable (tableKey : TableKey) : List UInt8 :=
  appendSimpleInstr [Instruction.insertGroupLevelTable.code, tableKey.value.toNat]

/-- `erase_class(table_key)`. -/
def eraseClass (tableKey : TableKey) : List UInt8 :=
  appendSimpleInstr [Instruction.eraseGroupLevelTable.code, tableKey.value.toNat]

/-- `rename_class(table_key)`. -/
def renameClass (tableKey : TableKey) : List UInt8 :=
  appendSimpleInstr [Instruction.renameGroupLevelTable.code, tableKey.value.toNat]

/-- `create_object(key)`. -/
def createObject (key : ObjKey) : List UInt8 :=
  appendSimpleInstr [Instruction.createObject.code, key.value.toInt]

/-- `remove_object(key)`. -/
def removeObject (key : ObjKey) : List UInt8 :=
  appendSimpleInstr [Instruction.removeObject.code, key.value.toInt]

/-- `modify_object(col_key, key)`. -/
def modifyObject (colKey : ColKey) (key : ObjKey) : List UInt8 :=
  appendSimpleInstr [Instruction.set.code, colKey.value.toInt, key.value.toInt]

/-- `insert_column(col_key)`. -/
def insertColumn (colKey : ColKey) : List UInt8 :=
  appendSimpleInstr [Instruction.insertColumn.code, colKey.value.toInt]

/-- `erase_column(col_key)`. -/
def eraseColumn (colKey : ColKey) : List UInt8 :=
  appendSimpleInstr [Instruction.eraseColumn.code, colKey.value.toInt]

/-- `rename_column(col_key)`. -/
def renameColumn (colKey : ColKey) : List UInt8 :=
  appendSimpleInstr [Instruction.renameColumn.code, colKey.value.toInt]

/-- `select_collection(col_key, key, path)`: below the column, the number of elements of the
path and the salt of each. -/
def selectCollection (colKey : ColKey) (key : ObjKey) (path : StablePath) : List UInt8 :=
  if 1 < path.length then
    appendSimpleInstr [Instruction.selectCollectionByPath.code, colKey.value.toInt,
        key.value.toInt] ++
      appendSimpleInstr [(path.length - 1 : Nat)] ++
      (path.drop 1).flatMap fun index => appendSimpleInstr [index.getSalt.toInt]
  else appendSimpleInstr [Instruction.selectCollection.code, colKey.value.toInt, key.value.toInt]

/-- `collection_set(ndx)`. -/
def collectionSet (ndx : UInt64) : List UInt8 :=
  appendSimpleInstr [Instruction.collectionSet.code, ndx.toNat]

/-- `collection_insert(ndx)`. -/
def collectionInsert (ndx : UInt64) : List UInt8 :=
  appendSimpleInstr [Instruction.collectionInsert.code, ndx.toNat]

/-- `collection_move(from_ndx, to_ndx)`: nothing for a move to where the entry is. -/
def collectionMove (fromNdx toNdx : UInt64) : List UInt8 :=
  if fromNdx ≠ toNdx then
    appendSimpleInstr [Instruction.collectionMove.code, fromNdx.toNat, toNdx.toNat]
  else []

/-- `collection_erase(ndx)`. -/
def collectionErase (ndx : UInt64) : List UInt8 :=
  appendSimpleInstr [Instruction.collectionErase.code, ndx.toNat]

/-- `collection_clear(old_size)`. -/
def collectionClear (oldSize : UInt64) : List UInt8 :=
  appendSimpleInstr [Instruction.collectionClear.code, oldSize.toNat]

/-- `typed_link_change(col, dest)`. -/
def typedLinkChange (col : ColKey) (dest : TableKey) : List UInt8 :=
  appendSimpleInstr [Instruction.typedLinkChange.code, col.value.toInt, dest.value.toNat]

/-- The encoder as an `InstructionHandler`: what each call appends to the log. -/
def call : HandlerCall → List UInt8
  | .selectTable key => selectTable key
  | .insertGroupLevelTable tableKey => insertGroupLevelTable tableKey
  | .eraseClass tableKey => eraseClass tableKey
  | .renameClass tableKey => renameClass tableKey
  | .createObject key => createObject key
  | .removeObject key => removeObject key
  | .modifyObject colKey key => modifyObject colKey key
  | .insertColumn colKey => insertColumn colKey
  | .eraseColumn colKey => eraseColumn colKey
  | .renameColumn colKey => renameColumn colKey
  | .selectCollection colKey key path => selectCollection colKey key path
  | .collectionSet ndx => collectionSet ndx
  | .collectionInsert ndx => collectionInsert ndx
  | .collectionMove fromNdx toNdx => collectionMove fromNdx toNdx
  | .collectionErase ndx => collectionErase ndx
  | .collectionClear oldSize => collectionClear oldSize
  | .typedLinkChange col dest => typedLinkChange col dest

/-- `max_enc_bytes_per_int`: the bytes an instruction reserves for each of its numbers. -/
def maxEncBytesPerInt : Nat := 10

/-- `TransactLogEncoder::encode_int<T>(ptr, value)`: the loop of `_impl::encode_int<T>` with its
bound, the sign taken from `value < 0` at every `T`. -/
def encodeInt (T : IntType) (v : Int) : List UInt8 :=
  if v < 0 then encodeIntLoop true T.maxBytes (-(v + 1)).toNat
  else encodeIntLoop false T.maxBytes v.toNat

end TransactLogEncoder

/-! ## The parser -/

namespace TransactLogParser

/-- How parsing stops: `parser_error()`, which throws `"Bad transaction log"`, or a
`REALM_ASSERT` that fails. -/
inductive ParseError where
  | badTransactionLog
  | assertionFailed
deriving DecidableEq, Repr

/-- A reader of the transaction log. -/
abbrev Parser (α : Type) := Decoder UInt8 ParseError α

/-- `read_char(c)`, where the end of the input is an error. -/
def readChar : Parser UInt8 :=
  Decoder.next .badTransactionLog

/-- `read_int<T>()`. -/
def readInt (T : IntType) : Parser Int := fun input =>
  match decodeInt T input with
  | some (value, rest) => .ok (value, rest)
  | none => .error .badTransactionLog

/-- `read_string(buf)`: a `size_t` size of at most `Table::max_string_size`, then the bytes. -/
def readString : Parser (List UInt8) := do
  let size ← readInt .uint64
  if Sync.ChangesetParser.maxStringSize < size then throw .badTransactionLog
  Decoder.take size.toNat .badTransactionLog

/-- `ColKey(read_int<int64_t>())`. -/
def readColKey : Parser ColKey := do
  return ⟨Int64.ofInt (← readInt .int64)⟩

/-- `ObjKey(read_int<int64_t>())`. -/
def readObjKey : Parser ObjKey := do
  return ⟨Int64.ofInt (← readInt .int64)⟩

/-- `TableKey(read_int<uint32_t>())`. -/
def readTableKey : Parser TableKey := do
  return ⟨(← readInt .uint32).toNat.toUInt32⟩

/-- `read_int<size_t>()`. -/
def readSize : Parser UInt64 := do
  return (← readInt .uint64).toNat.toUInt64

/-- The key of an instruction on a dictionary of an older file format: its type, which must be
`type_String`, and the string, which the parser skips. -/
def readDictionaryKey : Parser Unit := do
  let type ← readInt .int32
  if type ≠ 2 then throw .assertionFailed
  discard readString

/-- `select_collection`: the column, the object, and for `instr_SelectCollectionByPath` the
number of collections below the column and their salts.  The path starts again at the column,
as `StableIndex(col_key, 0)`. -/
def readSelectCollection (byPath : Bool) : Parser HandlerCall := do
  let colKey ← readColKey
  let key ← readObjKey
  let nestingLevel ← (if byPath then (·.toNat) <$> readInt .uint32 else pure 0)
  let salts ← Decoder.replicate (readInt .int64) nestingLevel
  return .selectCollection colKey key
    (StableIndex.ofColKey colKey 0 :: salts.map fun salt => StableIndex.ofSalt (Int64.ofInt salt))

/-- The cases of the switch of `parse_one`: the arguments of an instruction, as the call of the
handler it makes. -/
def readArguments : Instruction → Parser HandlerCall
  | .set => return .modifyObject (← readColKey) (← readObjKey)
  -- should not appear in the transaction log
  | .setDefault => throw .badTransactionLog
  | .createObject => return .createObject (← readObjKey)
  | .removeObject => return .removeObject (← readObjKey)
  | .selectTable => do
    let levels ← readInt .int32
    if levels ≠ 0 then throw .assertionFailed
    return .selectTable (← readTableKey)
  | .collectionSet => return .collectionSet (← readSize)
  | .setInsert | .collectionInsert => return .collectionInsert (← readSize)
  | .collectionMove => do
    let fromNdx ← readSize
    let toNdx ← readSize
    return .collectionMove fromNdx toNdx
  | .setErase | .collectionErase => return .collectionErase (← readSize)
  | .setClear | .dictionaryClear | .collectionClear => return .collectionClear (← readSize)
  | .dictionaryInsert => do
    readDictionaryKey
    return .collectionInsert (← readSize)
  | .dictionarySet => do
    readDictionaryKey
    return .collectionSet (← readSize)
  | .dictionaryErase => do
    readDictionaryKey
    return .collectionErase (← readSize)
  | .selectCollection => readSelectCollection false
  | .selectCollectionByPath => readSelectCollection true
  | .insertColumn => return .insertColumn (← readColKey)
  | .eraseColumn => return .eraseColumn (← readColKey)
  | .renameColumn => return .renameColumn (← readColKey)
  | .insertGroupLevelTable => return .insertGroupLevelTable (← readTableKey)
  | .eraseGroupLevelTable => return .eraseClass (← readTableKey)
  | .renameGroupLevelTable => return .renameClass (← readTableKey)
  | .typedLinkChange => return .typedLinkChange (← readColKey) (← readTableKey)

/-- The instruction that `parse_one` reads, as the call of the handler it makes: its code, and
then its arguments; a code of no case is a parser error. -/
def readCall : Parser HandlerCall := do
  let instrCh ← readChar
  match Instruction.ofCode? instrCh.toNat with
  | some instr => readArguments instr
  | none => throw .badTransactionLog

variable {σ : Type}

/-- A call of the handler: the state it leaves, or a parser error where it answers `false`. -/
def deliver (handler : σ → HandlerCall → Option σ) (s : σ) (call : HandlerCall) :
    Except ParseError σ :=
  match handler s call with
  | some s => .ok s
  | none => .error .badTransactionLog

/-- `parse_one(handler)`: the next instruction, and the call of the handler it asks for. -/
def parseOne (handler : σ → HandlerCall → Option σ) (s : σ) : Parser σ := do
  let call ← readCall
  StateT.lift (deliver handler s call)

/-- `parse(in, handler)`: `parse_one` while there is input. -/
def parse (handler : σ → HandlerCall → Option σ) (s : σ) (input : List UInt8) :
    Except ParseError σ :=
  Decoder.loop (parseOne handler) s input

/-- `parse_transact_log(is, handler)`: `parse`, and then `parse_complete()`. -/
def parseTransactLog (handler : σ → HandlerCall → Option σ) (parseComplete : σ → σ) (s : σ)
    (input : List UInt8) : Except ParseError σ :=
  parseComplete <$> parse handler s input

end TransactLogParser

end Impl

end Realm
