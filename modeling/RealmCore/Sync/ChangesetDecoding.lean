import Mathlib
import RealmCore.Sync.ChangesetEncoder
import RealmCore.Sync.ChangesetParser

/-!
# Decoding what the encoder writes

The parser reads back, field by field, what the encoder writes: each reader of
`ChangesetParser` decodes the bytes of the matching writer of `ChangesetEncoder`
(`readPayload_appendPayload`, `readPathInstr_appendPathInstr`, ...), under the conditions that
the parser checks and the encoder does not: references below the number of interned strings,
ranges inside the buffer and no longer than `max_string_size`, no `GlobalKey` payload, a valid
primary key type, the key type of a column that is not a dictionary `Null`, and an index at the
end of the path of an array instruction (`Changeset.wellFormed`).

Two things the parser builds differ from what was encoded.  It copies every string it reads to
the end of the changeset it builds, so a payload's range points there (`Payload.relocate`); and
the encoder writes the link target table of a link column only, so that of any other column
comes back as `npos` (`State.reparse`).  `parseChangeset_encodeSingle_eq` says what the whole
parse of an encoded changeset builds: its interned strings, then its instructions, read one
record at a time by `Decoder.loop_flatMap_append`.
-/

namespace Realm

namespace Sync

open ChangesetEncoder ChangesetParser Decoder

/-! ## Bytes in memory -/

lemma leBytes_succ (n v : Nat) : leBytes (n + 1) v = v.toUInt8 :: leBytes n (v >>> 8) := by
  simp only [leBytes, List.range_succ_eq_map, List.map_cons, List.map_map, Nat.mul_zero,
    Nat.shiftRight_zero, List.cons.injEq, true_and]
  refine List.map_congr_left fun j _ => ?_
  simp only [Function.comp, Nat.shiftRight_add, Nat.mul_succ, Nat.add_comm]

lemma ofLeBytes_leBytes : ∀ (n v : Nat), ofLeBytes (leBytes n v) = v % 2 ^ (8 * n)
  | 0, v => by simp [ofLeBytes, leBytes, Nat.mod_one]
  | n + 1, v => by
    rw [leBytes_succ, ofLeBytes, List.foldr_cons, ← ofLeBytes, ofLeBytes_leBytes n,
      Nat.shiftRight_eq_div_pow, Nat.toUInt8_eq, UInt8.toNat_ofNat', Nat.mul_succ, Nat.pow_add,
      Nat.mul_comm (2 ^ (8 * n)), Nat.mod_mul]

lemma length_leBytes (n v : Nat) : (leBytes n v).length = n := by
  simp [leBytes]

/-- The instructions that iteration yields, without the null pointers of the tombstones. -/
lemma Changeset.iter_filterMap (log : Changeset) : log.iter.filterMap id = log.instrs := by
  obtain ⟨instructions, strings, stringBuffer⟩ := log
  simp only [Changeset.iter, Changeset.instrs]
  induction instructions with
  | nil => rfl
  | cons entry entries ih =>
    rw [List.flatMap_cons, List.filterMap_append, ih, List.flatten_cons]
    cases entry with
    | nil => rfl
    | cons instr entry => simp [List.filterMap_map]

/-! ## What the parser builds -/

/-- The bytes of `stringRange` in a range, which `append_string` copies. -/
def slice (stringRange : List UInt8) (r : StringBufferRange) : List UInt8 :=
  (stringRange.drop r.offset.toNat).take r.size.toNat

/-- The payload that `read_payload` builds from the bytes `append_value` wrote of `v`, and the
changeset after it: a string or a binary is copied to the end of `log`. -/
def Payload.relocate (stringRange : List UInt8) (log : Changeset) :
    Payload InternString StringBufferRange → Payload InternString StringBufferRange × Changeset
  | .string r =>
    let (r', log) := log.appendString (slice stringRange r)
    (.string r', log)
  | .binary r =>
    let (r', log) := log.appendString (slice stringRange r)
    (.binary r', log)
  | v => (v, log)

namespace ChangesetParser

/-- The state after `parse_one` reads the bytes that `encodeInstr` wrote of `instr`: the payload
relocated, of the union in an `Update` the member the path selects, and the link target of a
column that is not a link left at `npos`. -/
def State.reparse (stringRange : List UInt8) (st : State) : Instr → State
  | .update p v d s =>
    let (v', log) := v.relocate stringRange st.log
    st.push log (if isArrayIndex p.path then .update p v' false s else .update p v' d 0)
  | .arrayInsert p v s =>
    let (v', log) := v.relocate stringRange st.log
    st.push log (.arrayInsert p v' s)
  | .setInsert p v =>
    let (v', log) := v.relocate stringRange st.log
    st.push log (.setInsert p v')
  | .setErase p v =>
    let (v', log) := v.relocate stringRange st.log
    st.push log (.setErase p v')
  | .addColumn t f ty kt n ct lt =>
    st.push st.log (.addColumn t f ty kt n ct (if ty = .link then lt else InternString.npos))
  | instr => st.push st.log instr

end ChangesetParser

/-! ## Well-formed changesets -/

namespace Changeset

/-- An `InternString` below the number of interned strings. -/
def validRef (log : Changeset) (s : InternString) : Bool :=
  s.value.toNat < log.strings.length

/-- A range inside the string buffer, of at most `max_string_size` bytes. -/
def validRange (log : Changeset) (r : StringBufferRange) : Bool :=
  r.offset.toNat + r.size.toNat ≤ log.stringBuffer.length && r.size.toNat ≤ maxStringSize

end Changeset

/-- A primary key whose string is a valid reference. -/
def PrimaryKey.wellFormed (log : Changeset) : PrimaryKey InternString → Bool
  | .string s => log.validRef s
  | _ => true

/-- A payload of a type other than `GlobalKey`, whose references and ranges are valid. -/
def Payload.wellFormed (log : Changeset) : Payload InternString StringBufferRange → Bool
  | .globalKey _ => false
  | .string r | .binary r => log.validRange r
  | .link targetTable target => log.validRef targetTable && target.wellFormed log
  | _ => true

/-- A path element whose field name is a valid reference. -/
def PathElement.wellFormed (log : Changeset) : PathElement InternString → Bool
  | .field name => log.validRef name
  | .index _ => true

/-- A path instruction whose references are valid. -/
def PathInstr.wellFormed (log : Changeset) (p : PathInstr InternString) : Bool :=
  log.validRef p.table && p.object.wellFormed log && log.validRef p.field &&
    p.path.all (PathElement.wellFormed log)

/-- An instruction whose references and payload are valid; a primary key of a valid key type;
the key type of a column that is not a dictionary `Null`; and an array instruction's path ending
in an index.  The link target table of a column names a table only in a link column. -/
def Instruction.wellFormed (log : Changeset) : Instr → Bool
  | .addTable table type =>
    log.validRef table &&
      match type with
      | .topLevel pkField pkType _ _ => log.validRef pkField && pkType.isValidKeyType
      | .embedded => true
  | .eraseTable table => log.validRef table
  | .addColumn table field type keyType _ collectionType linkTargetTable =>
    log.validRef table && log.validRef field && (type != .link || log.validRef linkTargetTable) &&
      (collectionType == .dictionary || keyType == .null)
  | .eraseColumn table field => log.validRef table && log.validRef field
  | .createObject table object | .eraseObject table object =>
    log.validRef table && object.wellFormed log
  | .update p value _ _ => p.wellFormed log && value.wellFormed log
  | .addInteger p _ => p.wellFormed log
  | .arrayInsert p value _ => p.wellFormed log && isArrayIndex p.path && value.wellFormed log
  | .arrayMove p _ _ | .arrayErase p _ => p.wellFormed log && isArrayIndex p.path
  | .clear p _ => p.wellFormed log
  | .setInsert p value | .setErase p value => p.wellFormed log && value.wellFormed log

/-- The link target table of a column that is not a link is `npos`. -/
def Instruction.linkTargetUnset : Instr → Bool
  | .addColumn _ _ type _ _ _ linkTargetTable =>
    type == .link || linkTargetTable == InternString.npos
  | _ => true

/-- A changeset whose interned strings are valid ranges that denote distinct strings, and
whose instructions are well formed. -/
def Changeset.wellFormed (log : Changeset) : Bool :=
  log.strings.all log.validRange && decide (log.strings.map log.denote).Nodup &&
    log.instrs.all (Instruction.wellFormed log)

/-! ## Each reader reads back what its writer wrote -/

namespace ChangesetParser

lemma readInt_appendInt (T : IntType) {v : Int} (hv : T.InRange v) :
    Decodes (readInt T) (appendInt v) v := by
  intro rest
  simp only [StateT.run, readInt, appendInt, decodeInt_encodeInt T rest hv]

lemma readBool_appendBool (b : Bool) : Decodes readBool (appendBool b) b := by
  unfold readBool appendBool
  refine Decodes.of_eq
    ((readInt_appendInt .uint8 (inRange_uint8_of_lt (by cases b <;> decide))).bind
      (Decodes.pure _)) (List.append_nil _) ?_
  cases b <;> rfl

lemma readBytes_of_length {bs : List UInt8} {n : Nat} (h : bs.length = n) :
    Decodes (readBytes n) bs bs := by
  subst h
  exact Decodes.take _

/-- A payload type survives the conversion to the `int8_t` of the enumeration. -/
lemma PayloadType.int8_toInt (t : PayloadType) : (Int8.ofInt t.toInt).toInt = t.toInt := by
  cases t <;> decide

lemma readPayloadType_appendPayloadType (t : PayloadType) :
    Decodes readPayloadType (appendPayloadType t) t := by
  unfold readPayloadType
  refine Decodes.of_eq ((readInt_appendInt .int64 t.toInt_inRange_int64).bind ?_)
    (List.append_nil _) rfl
  simp only [PayloadType.int8_toInt, PayloadType.ofInt?_toInt]
  exact Decodes.pure t

lemma readCollectionType_appendCollectionType (t : CollectionType) :
    Decodes readCollectionType (appendCollectionType t) t := by
  unfold readCollectionType
  refine Decodes.of_eq ((readInt_appendInt .uint8 (inRange_uint8_of_lt ?_)).bind ?_)
    (List.append_nil _) rfl
  · cases t <;> decide
  · simp only [Int.toNat_natCast, CollectionType.ofNat?_toNat]
    exact Decodes.pure t

lemma readGlobalKey_appendGlobalKey (oid : GlobalKey) :
    Decodes readGlobalKey (appendGlobalKey oid) oid := by
  unfold readGlobalKey appendGlobalKey
  refine Decodes.of_eq ((readInt_appendInt .uint64 (inRange_uint64 oid.hi)).bind
    ((readInt_appendInt .uint64 (inRange_uint64 oid.lo)).bind (Decodes.pure _))) (by simp) ?_
  simp [UInt64.ofNat_toNat]

lemma readTimestamp_appendTimestamp (timestamp : Timestamp) :
    Decodes readTimestamp (appendTimestamp timestamp) timestamp := by
  unfold readTimestamp appendTimestamp
  refine Decodes.of_eq ((readInt_appendInt .int64 (inRange_int64 timestamp.seconds)).bind
    ((readInt_appendInt .int64 (inRange_int64_of_int32 timestamp.nanoseconds)).bind
      (?_ : Decodes _ [] _))) (by simp) rfl
  -- the nanoseconds of an `int32_t` pass the range check
  have := timestamp.nanoseconds.toInt_lt
  rw [if_neg (by omega), Int64.ofInt_toInt, Int32.ofInt_toInt]
  exact Decodes.pure _

lemma readFloat_appendFloat (fnum : UInt32) : Decodes readFloat (appendFloat fnum) fnum := by
  unfold readFloat appendFloat
  refine Decodes.of_eq ((readBytes_of_length (length_leBytes 4 _)).bind (Decodes.pure _))
    (List.append_nil _) ?_
  rw [ofLeBytes_leBytes, Nat.mod_eq_of_lt fnum.toNat_lt]
  simp

lemma readDouble_appendDouble (dnum : UInt64) : Decodes readDouble (appendDouble dnum) dnum := by
  unfold readDouble appendDouble
  refine Decodes.of_eq ((readBytes_of_length (length_leBytes 8 _)).bind (Decodes.pure _))
    (List.append_nil _) ?_
  rw [ofLeBytes_leBytes, Nat.mod_eq_of_lt dnum.toNat_lt]
  simp

lemma readBid128_encodeBid128 {v : Nat} (hv : v < 2 ^ 118) :
    Decodes readBid128 (encodeBid128 v) v := by
  intro rest
  simp only [StateT.run, readBid128, decodeBid128_encodeBid128 rest hv]

lemma inRange_int32_of_bool (b : Bool) : IntType.int32.InRange (b.toNat : Int) := by
  cases b <;> decide

lemma readDecimal_appendDecimal (d : Decimal128) : Decodes readDecimal (appendDecimal d) d := by
  obtain ⟨w0, w1⟩ := d
  have hw0 := w0.toNat_lt
  have hcx : w0.toNat + (w1 &&& Decimal128.maskCoeff).toNat * 2 ^ 64 < 2 ^ 118 := by
    rw [Decimal128.and_maskCoeff_toNat]
    omega
  have hexp : IntType.int32.InRange
      (((w1 &&& Decimal128.maskExp) >>> 49).toNat - 6176 : Int) := by
    rw [Decimal128.and_maskExp_toNat]
    constructor
    · simp only [IntType.min, IntType.int32, if_true]
      omega
    · simp only [IntType.max, IntType.int32]
      omega
  unfold readDecimal appendDecimal
  refine Decodes.of_eq ((readBid128_encodeBid128 hcx).bind ((readInt_appendInt .int32 hexp).bind
    ((readInt_appendInt .int32
      (inRange_int32_of_bool (decide (w1 &&& Decimal128.maskSign ≠ 0)))).bind (Decodes.pure _))))
    (by simp [appendBool, Decimal128.unpack]) ?_
  -- the two words of the coefficient come back from its 128-bit value
  have hc := (w1 &&& Decimal128.maskCoeff).toNat_lt
  have hlo : (w0.toNat + (w1 &&& Decimal128.maskCoeff).toNat * 2 ^ 64).toUInt64 = w0 := by
    apply UInt64.toNat_inj.mp
    rw [Nat.toUInt64_eq, UInt64.toNat_ofNat']
    omega
  have hhi : ((w0.toNat + (w1 &&& Decimal128.maskCoeff).toNat * 2 ^ 64) / 2 ^ 64).toUInt64 =
      w1 &&& Decimal128.maskCoeff := by
    apply UInt64.toNat_inj.mp
    rw [Nat.toUInt64_eq, UInt64.toNat_ofNat']
    omega
  have hsign (b : Bool) : decide ((b.toNat : Int) ≠ 0) = b := by
    cases b <;> rfl
  rw [hlo, hhi, hsign]
  exact Decimal128.ofBid128_unpack ⟨w0, w1⟩

lemma length_slice {stringRange : List UInt8} {r : StringBufferRange}
    (h : r.offset.toNat + r.size.toNat ≤ stringRange.length) :
    (slice stringRange r).length = r.size.toNat := by
  simp only [slice, List.length_take, List.length_drop]
  omega

lemma readString_appendString {stringRange : List UInt8} {r : StringBufferRange}
    (h : r.offset.toNat + r.size.toNat ≤ stringRange.length) (hmax : r.size.toNat ≤ maxStringSize) :
    Decodes readString (appendString stringRange r) (slice stringRange r) := by
  have hsize := r.size.toNat_lt
  unfold readString appendString
  refine (readInt_appendInt .uint64 (inRange_uint64_of_lt (by omega))).bind ?_
  simp only [Int.ofNat_lt, if_neg (Nat.not_lt.mpr hmax), Int.toNat_natCast]
  exact readBytes_of_length (length_slice h)

lemma readBinary_appendString {stringRange : List UInt8} {r : StringBufferRange}
    (h : r.offset.toNat + r.size.toNat ≤ stringRange.length) :
    Decodes readBinary (appendString stringRange r) (slice stringRange r) := by
  have hsize := r.size.toNat_lt
  unfold readBinary appendString
  refine (readInt_appendInt .uint64 (inRange_uint64_of_lt (by omega))).bind ?_
  simp only [Int.toNat_natCast]
  exact readBytes_of_length (length_slice h)

section References

variable {log : Changeset}

lemma readInternString_appendInternString {s : InternString} (h : log.validRef s) :
    Decodes (readInternString log.strings.length) (appendInternString s) s := by
  unfold readInternString
  refine Decodes.of_eq ((readInt_appendInt .uint32 (inRange_uint32 s.value)).bind ?_)
    (List.append_nil _) rfl
  have h : s.value.toNat < log.strings.length := by simpa [Changeset.validRef] using h
  simp only [Int.toNat_natCast, if_neg (Nat.not_le.mpr h)]
  exact Decodes.of_eq (Decodes.pure _) rfl (by simp)

lemma readObjectKey_appendPrimaryKey {k : PrimaryKey InternString} (hk : k.wellFormed log) :
    Decodes (readObjectKey log.strings.length) (appendPrimaryKey k) k := by
  unfold readObjectKey
  cases k with
  | null =>
    exact Decodes.of_eq ((readPayloadType_appendPayloadType .null).bind
      (Decodes.pure PrimaryKey.null)) (List.append_nil _) rfl
  | int v =>
    refine (readPayloadType_appendPayloadType .int).bind
      (Decodes.of_eq ((readInt_appendInt .int64 (inRange_int64 v)).bind (Decodes.pure _))
        (List.append_nil _) ?_)
    rw [Int64.ofInt_toInt]
  | string s =>
    exact (readPayloadType_appendPayloadType .string).bind
      ((readInternString_appendInternString hk).map _)
  | globalKey key =>
    exact (readPayloadType_appendPayloadType .globalKey).bind
      ((readGlobalKey_appendGlobalKey key).map _)
  | objectId id =>
    exact (readPayloadType_appendPayloadType .objectId).bind ((Decodes.takeVector _ id).map _)
  | uuid id =>
    exact (readPayloadType_appendPayloadType .uuid).bind ((Decodes.takeVector _ id).map _)

lemma readLink_appendLink {targetTable : InternString} {target : PrimaryKey InternString}
    (ht : log.validRef targetTable) (hk : target.wellFormed log) :
    Decodes (readLink log.strings.length)
      (appendInternString targetTable ++ appendPrimaryKey target) (targetTable, target) :=
  Decodes.of_eq ((readInternString_appendInternString ht).bind
    ((readObjectKey_appendPrimaryKey hk).bind (Decodes.pure _))) (by simp) rfl

/-- `read_payload` reads back what `append_value` wrote of a well-formed payload, copying a
string or a binary to the end of the changeset `out` being built. -/
lemma readPayload_appendPayload {v : Payload InternString StringBufferRange}
    (hv : v.wellFormed log) (out : Changeset) :
    Decodes (readPayload log.strings.length out) (appendPayload log.stringBuffer v)
      (v.relocate log.stringBuffer out) := by
  unfold readPayload appendPayload
  refine (readPayloadType_appendPayloadType v.type).bind ?_
  cases v with
  | globalKey key => simp [Payload.wellFormed] at hv
  | int integer =>
    refine Decodes.of_eq ((readInt_appendInt .int64 (inRange_int64 integer)).bind
      (Decodes.pure _)) (List.append_nil _) ?_
    rw [Int64.ofInt_toInt]
    rfl
  | bool boolean =>
    exact Decodes.of_eq ((readBool_appendBool boolean).bind (Decodes.pure _))
      (List.append_nil _) rfl
  | float fnum =>
    exact Decodes.of_eq ((readFloat_appendFloat fnum).bind (Decodes.pure _))
      (List.append_nil _) rfl
  | double dnum =>
    exact Decodes.of_eq ((readDouble_appendDouble dnum).bind (Decodes.pure _))
      (List.append_nil _) rfl
  | string r =>
    simp only [Payload.wellFormed, Changeset.validRange, Bool.and_eq_true,
      decide_eq_true_eq] at hv
    exact Decodes.of_eq ((readString_appendString hv.1 hv.2).bind (Decodes.pure _))
      (List.append_nil _) rfl
  | binary r =>
    simp only [Payload.wellFormed, Changeset.validRange, Bool.and_eq_true,
      decide_eq_true_eq] at hv
    exact Decodes.of_eq ((readBinary_appendString hv.1).bind (Decodes.pure _))
      (List.append_nil _) rfl
  | timestamp timestamp =>
    exact Decodes.of_eq ((readTimestamp_appendTimestamp timestamp).bind (Decodes.pure _))
      (List.append_nil _) rfl
  | decimal decimal =>
    exact Decodes.of_eq ((readDecimal_appendDecimal decimal).bind (Decodes.pure _))
      (List.append_nil _) rfl
  | objectId id =>
    exact Decodes.of_eq ((Decodes.takeVector _ id).bind (Decodes.pure _))
      (List.append_nil _) rfl
  | uuid id =>
    exact Decodes.of_eq ((Decodes.takeVector _ id).bind (Decodes.pure _))
      (List.append_nil _) rfl
  | link targetTable target =>
    simp only [Payload.wellFormed, Bool.and_eq_true] at hv
    exact Decodes.of_eq ((readLink_appendLink hv.1 hv.2).bind (Decodes.pure _))
      (List.append_nil _) rfl
  | null => exact Decodes.pure _
  | set => exact Decodes.pure _
  | list => exact Decodes.pure _
  | dictionary => exact Decodes.pure _
  | erased => exact Decodes.pure _
  | objectValue => exact Decodes.pure _

lemma readPathElement_appendPathElement {e : PathElement InternString}
    (he : e.wellFormed log) :
    Decodes (readPathElement log.strings.length) (appendPathElement e) e := by
  unfold readPathElement appendPathElement
  cases e with
  | index i =>
    have hi := i.toNat_lt
    refine Decodes.of_eq ((readInt_appendInt .int64 ⟨?_, ?_⟩).bind (?_ : Decodes _ [] _))
      (List.append_nil _) rfl
    · simp [IntType.min, IntType.int64]
    · simp only [IntType.max, IntType.int64]
      omega
    · rw [if_pos (Int.natCast_nonneg _)]
      refine Decodes.of_eq (Decodes.pure _) rfl ?_
      apply congrArg PathElement.index
      apply UInt32.toNat_inj.mp
      simp only [UInt32.ofInt, UInt32.toNat_ofNat']
      omega
  | field name =>
    refine (readInt_appendInt .int64 (by decide)).bind ?_
    rw [if_neg (by decide)]
    exact (readInternString_appendInternString he).map _

lemma readPath_appendPath {path : List (PathElement InternString)}
    (hp : path.all (PathElement.wellFormed log)) (hlen : path.length < 2 ^ 32) :
    Decodes (readPath log.strings.length) (appendPath path) path := by
  unfold readPath appendPath
  rw [Nat.mod_eq_of_lt hlen]
  refine (readInt_appendInt .uint32 (inRange_uint32_of_lt hlen)).bind ?_
  rw [Int.toNat_natCast]
  refine Decodes.replicate fun e he => readPathElement_appendPathElement ?_
  exact List.all_eq_true.mp hp e he

lemma readPathInstr_appendPathInstr {p : PathInstr InternString} (hp : p.wellFormed log)
    (hlen : p.path.length < 2 ^ 32) :
    Decodes (readPathInstr log.strings.length) (appendPathInstr p) p := by
  simp only [PathInstr.wellFormed, Bool.and_eq_true] at hp
  obtain ⟨⟨⟨htable, hobject⟩, hfield⟩, hpath⟩ := hp
  exact Decodes.of_eq ((readInternString_appendInternString htable).bind
    ((readObjectKey_appendPrimaryKey hobject).bind
    ((readInternString_appendInternString hfield).bind
    ((readPath_appendPath hpath hlen).bind (Decodes.pure _))))) (by simp [appendPathInstr]) rfl

lemma readTopLevelTable_append {pkField : InternString} {pkType : PayloadType}
    (hpk : log.validRef pkField) (htype : pkType.isValidKeyType) (pkNullable isAsymmetric : Bool) :
    Decodes (readTopLevelTable log.strings.length isAsymmetric)
      (appendInternString pkField ++ appendPayloadType pkType ++ appendBool pkNullable)
      (.topLevel pkField pkType pkNullable isAsymmetric) := by
  unfold readTopLevelTable
  refine Decodes.of_eq ((readInternString_appendInternString hpk).bind
    ((readPayloadType_appendPayloadType pkType).bind (?_ : Decodes _ (appendBool pkNullable) _)))
    (by simp) rfl
  simp only [htype, Bool.not_true, Bool.false_eq_true, if_false]
  exact Decodes.of_eq ((readBool_appendBool pkNullable).bind (Decodes.pure _))
    (List.append_nil _) rfl

end References

/-- `parse_one` reads back the metainstruction that interns the string of `r`, at the index
the parser expects, when no string interned before is the same. -/
theorem parseOne_setInternString {stringRange : List UInt8} {st : State}
    {r : StringBufferRange} (hr : r.offset.toNat + r.size.toNat ≤ stringRange.length)
    (hmax : r.size.toNat ≤ maxStringSize) (hlen : st.internStrings.length < 2 ^ 32)
    (hnew : slice stringRange r ∉ st.internStrings) :
    Decodes (parseOne st) (setInternString stringRange st.internStrings.length r)
      (st.intern (slice stringRange r)) := by
  unfold parseOne setInternString
  rw [List.append_assoc]
  refine (readInt_appendInt .uint64
    (inRange_uint64_of_lt (show instrTypeInternString < 2 ^ 64 by decide))).bind ?_
  rw [if_pos rfl]
  refine (readInt_appendInt .uint32 (inRange_uint32_of_lt hlen)).bind ?_
  simp only [ne_eq, not_true_eq_false, if_false]
  refine Decodes.of_eq ((readString_appendString hr hmax).bind ?_) (List.append_nil _) rfl
  rw [if_neg hnew]
  exact Decodes.pure _

lemma type_lt (instr : Instr) : instr.type < 14 := by
  cases instr <;> simp [Instruction.type]

theorem parseOne_encodeInstr {log : Changeset} {st : State}
    (hcount : st.internStrings.length = log.strings.length) {instr : Instr}
    (hwf : instr.wellFormed log) (hfit : ∀ p ∈ instr.pathInstr?, p.path.length < 2 ^ 32) :
    Decodes (parseOne st) (encodeInstr log.stringBuffer instr)
      (st.reparse log.stringBuffer instr) := by
  unfold parseOne encodeInstr
  have htype := type_lt instr
  refine (readInt_appendInt .uint64 (inRange_uint64_of_lt (by omega))).bind ?_
  rw [if_neg (by simp only [instrTypeInternString]; omega), hcount]
  cases instr with
  | addTable table type =>
    simp only [Instruction.type, Int.toNat_natCast, Nat.zero_mod, List.append_assoc]
    simp only [Instruction.wellFormed, Bool.and_eq_true] at hwf
    refine (readInternString_appendInternString hwf.1).bind ?_
    cases type with
    | topLevel pkField pkType pkNullable isAsymmetric =>
      simp only [Bool.and_eq_true] at hwf
      cases isAsymmetric <;> simp only [tableType, Bool.false_eq_true, if_false, if_true] <;>
        refine (readInt_appendInt .uint8 (by decide)).bind ?_ <;>
        simp only [Int.toNat_natCast] <;>
        exact Decodes.of_eq ((readTopLevelTable_append hwf.2.1 hwf.2.2 pkNullable _).bind
          (Decodes.pure _)) (by simp) rfl
    | embedded =>
      simp only [tableType]
      refine (readInt_appendInt .uint8 (by decide)).bind ?_
      simp only [Int.toNat_natCast]
      exact (Decodes.pure _).bind (Decodes.pure _)
  | eraseTable table =>
    simp only [Instruction.type, Int.toNat_natCast, Nat.reduceMod]
    simp only [Instruction.wellFormed] at hwf
    exact Decodes.of_eq ((readInternString_appendInternString hwf).bind (Decodes.pure _))
      (List.append_nil _) rfl
  | createObject table object =>
    simp only [Instruction.type, Int.toNat_natCast, Nat.reduceMod]
    simp only [Instruction.wellFormed, Bool.and_eq_true] at hwf
    exact Decodes.of_eq ((readInternString_appendInternString hwf.1).bind
      ((readObjectKey_appendPrimaryKey hwf.2).bind (Decodes.pure _))) (by simp) rfl
  | eraseObject table object =>
    simp only [Instruction.type, Int.toNat_natCast, Nat.reduceMod]
    simp only [Instruction.wellFormed, Bool.and_eq_true] at hwf
    exact Decodes.of_eq ((readInternString_appendInternString hwf.1).bind
      ((readObjectKey_appendPrimaryKey hwf.2).bind (Decodes.pure _))) (by simp) rfl
  | update p value isDefault priorSize =>
    simp only [Instruction.type, Int.toNat_natCast, Nat.reduceMod, List.append_assoc]
    simp only [Instruction.wellFormed, Bool.and_eq_true] at hwf
    refine (readPathInstr_appendPathInstr hwf.1 (hfit p rfl)).bind ?_
    rcases hrel : value.relocate log.stringBuffer st.log with ⟨value', out⟩
    refine (hrel ▸ readPayload_appendPayload hwf.2 st.log).bind ?_
    simp only [State.reparse, hrel]
    by_cases harr : isArrayIndex p.path = true
    · simp only [harr, if_true]
      exact Decodes.of_eq ((readInt_appendInt .uint32 (inRange_uint32 priorSize)).bind
        (Decodes.pure _)) (List.append_nil _) (by simp)
    · simp only [harr, Bool.false_eq_true, if_false]
      exact Decodes.of_eq ((readBool_appendBool isDefault).bind (Decodes.pure _))
        (List.append_nil _) rfl
  | addInteger p value =>
    simp only [Instruction.type, Int.toNat_natCast, Nat.reduceMod]
    simp only [Instruction.wellFormed] at hwf
    refine Decodes.of_eq ((readPathInstr_appendPathInstr hwf (hfit p rfl)).bind
      ((readInt_appendInt .int64 (inRange_int64 value)).bind (Decodes.pure _))) (by simp) ?_
    rw [Int64.ofInt_toInt]
    rfl
  | addColumn table field type keyType nullable collectionType linkTargetTable =>
    simp only [Instruction.type, Int.toNat_natCast, Nat.reduceMod, List.append_assoc]
    simp only [Instruction.wellFormed, Bool.and_eq_true, Bool.or_eq_true, bne_iff_ne, ne_eq,
      beq_iff_eq] at hwf
    obtain ⟨⟨⟨htable, hfield⟩, hlink⟩, hkey⟩ := hwf
    refine (readInternString_appendInternString htable).bind
      ((readInternString_appendInternString hfield).bind
      ((readPayloadType_appendPayloadType type).bind
      ((readBool_appendBool nullable).bind
      ((readCollectionType_appendCollectionType collectionType).bind ?_))))
    -- the link target table is read for a link column only, the key type for a dictionary
    by_cases hl : type = .link
    · subst hl
      have hlt := readInternString_appendInternString (hlink.resolve_left (not_not.mpr rfl))
      by_cases hd : collectionType = .dictionary
      · subst hd
        simp only [if_true]
        exact Decodes.of_eq (hlt.bind ((readPayloadType_appendPayloadType keyType).bind
          (Decodes.pure _))) (by simp) rfl
      · rw [hkey.resolve_left hd]
        simp only [hd, if_true, if_false, List.append_nil]
        exact Decodes.of_eq (hlt.bind ((Decodes.pure _).bind (Decodes.pure _))) (by simp) rfl
    · by_cases hd : collectionType = .dictionary
      · subst hd
        simp only [hl, if_true, if_false, List.nil_append]
        exact Decodes.of_eq ((Decodes.pure _).bind ((readPayloadType_appendPayloadType keyType).bind
          (Decodes.pure _))) (by simp) (by simp [State.reparse, hl])
      · rw [hkey.resolve_left hd]
        simp only [hl, hd, if_false, List.append_nil]
        exact Decodes.of_eq ((Decodes.pure _).bind ((Decodes.pure _).bind (Decodes.pure _))) rfl
          (by simp [State.reparse, hl])
  | eraseColumn table field =>
    simp only [Instruction.type, Int.toNat_natCast, Nat.reduceMod]
    simp only [Instruction.wellFormed, Bool.and_eq_true] at hwf
    exact Decodes.of_eq ((readInternString_appendInternString hwf.1).bind
      ((readInternString_appendInternString hwf.2).bind (Decodes.pure _))) (by simp) rfl
  | arrayInsert p value priorSize =>
    simp only [Instruction.type, Int.toNat_natCast, Nat.reduceMod, List.append_assoc]
    simp only [Instruction.wellFormed, Bool.and_eq_true] at hwf
    obtain ⟨⟨hp, harr⟩, hv⟩ := hwf
    refine (readPathInstr_appendPathInstr hp (hfit p rfl)).bind ?_
    simp only [harr, Bool.not_true, Bool.false_eq_true, if_false]
    rcases hrel : value.relocate log.stringBuffer st.log with ⟨value', out⟩
    refine (hrel ▸ readPayload_appendPayload hv st.log).bind ?_
    exact Decodes.of_eq ((readInt_appendInt .uint32 (inRange_uint32 priorSize)).bind
      (Decodes.pure _)) (List.append_nil _) (by simp [State.reparse, hrel])
  | arrayMove p ndx2 priorSize =>
    simp only [Instruction.type, Int.toNat_natCast, Nat.reduceMod, List.append_assoc]
    simp only [Instruction.wellFormed, Bool.and_eq_true] at hwf
    refine (readPathInstr_appendPathInstr hwf.1 (hfit p rfl)).bind ?_
    simp only [hwf.2, Bool.not_true, Bool.false_eq_true, if_false]
    exact Decodes.of_eq ((readInt_appendInt .uint32 (inRange_uint32 ndx2)).bind
      ((readInt_appendInt .uint32 (inRange_uint32 priorSize)).bind (Decodes.pure _)))
      (by simp) (by simp [State.reparse])
  | arrayErase p priorSize =>
    simp only [Instruction.type, Int.toNat_natCast, Nat.reduceMod]
    simp only [Instruction.wellFormed, Bool.and_eq_true] at hwf
    refine (readPathInstr_appendPathInstr hwf.1 (hfit p rfl)).bind ?_
    simp only [hwf.2, Bool.not_true, Bool.false_eq_true, if_false]
    exact Decodes.of_eq ((readInt_appendInt .uint32 (inRange_uint32 priorSize)).bind
      (Decodes.pure _)) (List.append_nil _) (by simp [State.reparse])
  | clear p collectionType =>
    simp only [Instruction.type, Int.toNat_natCast, Nat.reduceMod]
    simp only [Instruction.wellFormed] at hwf
    exact Decodes.of_eq ((readPathInstr_appendPathInstr hwf (hfit p rfl)).bind
      ((readCollectionType_appendCollectionType collectionType).bind (Decodes.pure _)))
      (by simp) rfl
  | setInsert p value =>
    simp only [Instruction.type, Int.toNat_natCast, Nat.reduceMod]
    simp only [Instruction.wellFormed, Bool.and_eq_true] at hwf
    refine (readPathInstr_appendPathInstr hwf.1 (hfit p rfl)).bind ?_
    rcases hrel : value.relocate log.stringBuffer st.log with ⟨value', out⟩
    exact Decodes.of_eq ((hrel ▸ readPayload_appendPayload hwf.2 st.log).bind (Decodes.pure _))
      (List.append_nil _) (by simp [State.reparse, hrel])
  | setErase p value =>
    simp only [Instruction.type, Int.toNat_natCast, Nat.reduceMod]
    simp only [Instruction.wellFormed, Bool.and_eq_true] at hwf
    refine (readPathInstr_appendPathInstr hwf.1 (hfit p rfl)).bind ?_
    rcases hrel : value.relocate log.stringBuffer st.log with ⟨value', out⟩
    exact Decodes.of_eq ((hrel ▸ readPayload_appendPayload hwf.2 st.log).bind (Decodes.pure _))
      (List.append_nil _) (by simp [State.reparse, hrel])

lemma reparse_internStrings (stringRange : List UInt8) (st : State) (instr : Instr) :
    (st.reparse stringRange instr).internStrings = st.internStrings := by
  cases instr <;> rfl

lemma setInternString_ne_nil (stringRange : List UInt8) (index : Nat) (r : StringBufferRange) :
    setInternString stringRange index r ≠ [] := by
  simp [setInternString, appendInt, encodeInt_ne_nil]

lemma encodeInstr_ne_nil (stringRange : List UInt8) (instr : Instr) :
    encodeInstr stringRange instr ≠ [] := by
  simp [encodeInstr, appendInt, encodeInt_ne_nil]

/-- The interned strings of `post`, from index `st.internStrings.length` on, read back one by
one, when all the strings are distinct and their indices fit a `uint32_t`. -/
lemma steps_setInternString {stringRange : List UInt8} :
    ∀ (post : List StringBufferRange) (st : State),
      (∀ r ∈ post, r.offset.toNat + r.size.toNat ≤ stringRange.length ∧
        r.size.toNat ≤ maxStringSize) →
      st.internStrings.length + post.length ≤ 2 ^ 32 →
      (st.internStrings ++ post.map (slice stringRange)).Nodup →
      Steps parseOne (fun p => setInternString stringRange (p.2 % 2 ^ 32) p.1)
        (fun st p => st.intern (slice stringRange p.1)) st
        (post.zipIdx st.internStrings.length)
  | [], _, _, _, _ => trivial
  | r :: post, st, hvalid, hlen, hnodup => by
    rw [List.zipIdx_cons]
    have hr := hvalid r List.mem_cons_self
    have hlt : st.internStrings.length < 2 ^ 32 := by
      simp only [List.length_cons] at hlen
      omega
    have hnew : slice stringRange r ∉ st.internStrings := by
      intro hmem
      simp only [List.map_cons] at hnodup
      exact (List.nodup_append.mp hnodup).2.2 _ hmem _ List.mem_cons_self rfl
    refine ⟨setInternString_ne_nil _ _ _, ?_, ?_⟩
    · show Decodes _ (setInternString stringRange (st.internStrings.length % 2 ^ 32) r) _
      rw [Nat.mod_eq_of_lt hlt]
      exact parseOne_setInternString hr.1 hr.2 hlt hnew
    · have hnext : (st.intern (slice stringRange r)).internStrings.length =
          st.internStrings.length + 1 := by
        simp [State.intern]
      rw [← hnext]
      refine steps_setInternString post _ (fun r' hr' => hvalid r' (List.mem_cons_of_mem r hr'))
        (by simp [State.intern] at hlen ⊢; omega) ?_
      simpa [State.intern] using hnodup

/-- The instructions read back one by one, each to the state that `reparse` describes. -/
lemma steps_encodeInstr {log : Changeset}
    (hwf : ∀ instr ∈ instrs, instr.wellFormed log)
    (hfit : ∀ instr ∈ instrs, ∀ p ∈ instr.pathInstr?, p.path.length < 2 ^ 32) :
    ∀ (st : State), st.internStrings.length = log.strings.length →
      Steps parseOne (encodeInstr log.stringBuffer) (State.reparse log.stringBuffer) st instrs := by
  induction instrs with
  | nil => exact fun _ _ => trivial
  | cons instr instrs ih =>
    intro st hcount
    refine ⟨encodeInstr_ne_nil _ _, parseOne_encodeInstr hcount (hwf instr List.mem_cons_self)
      (hfit instr List.mem_cons_self), ?_⟩
    exact ih (fun i hi => hwf i (List.mem_cons_of_mem _ hi))
      (fun i hi => hfit i (List.mem_cons_of_mem _ hi)) _
      (by rw [reparse_internStrings, hcount])

lemma length_foldl_intern (stringRange : List UInt8) :
    ∀ (strings : List StringBufferRange) (st : State),
      (strings.foldl (fun st r => st.intern (slice stringRange r)) st).internStrings.length =
        st.internStrings.length + strings.length
  | [], _ => rfl
  | r :: strings, st => by
    rw [List.foldl_cons, length_foldl_intern stringRange strings]
    simp [State.intern]
    omega

lemma foldl_intern_zipIdx {stringRange : List UInt8} {strings : List StringBufferRange}
    {st : State} {k : Nat} :
    (strings.zipIdx k).foldl (fun st p => st.intern (slice stringRange p.1)) st =
      strings.foldl (fun st r => st.intern (slice stringRange r)) st := by
  calc _ = ((strings.zipIdx k).map Prod.fst).foldl
          (fun st r => st.intern (slice stringRange r)) st := (List.foldl_map ..).symm
    _ = _ := by rw [List.zipIdx_map_fst]

/-- The changeset that the parser builds from the bytes of a changeset that is not empty: its
interned strings copied one after the other, and its instructions as `reparse` describes them. -/
theorem parseChangeset_encodeSingle_eq {log : Changeset} (hne : log.isEmpty = false)
    (hstrings : ∀ r ∈ log.strings, r.offset.toNat + r.size.toNat ≤ log.stringBuffer.length ∧
      r.size.toNat ≤ maxStringSize)
    (hnodup : (log.strings.map (slice log.stringBuffer)).Nodup)
    (hcount : log.strings.length ≤ 2 ^ 32)
    (hwf : ∀ instr ∈ log.instrs, instr.wellFormed log)
    (hfit : ∀ instr ∈ log.instrs, ∀ p ∈ instr.pathInstr?, p.path.length < 2 ^ 32)
    (outLog : Changeset) :
    parseChangeset (encodeSingle log) outLog =
      .ok (log.instrs.foldl (State.reparse log.stringBuffer)
        (log.strings.foldl (fun st r => st.intern (slice log.stringBuffer r))
          ⟨[], { outLog with strings := [] }⟩)).log := by
  have h1 := steps_setInternString log.strings ⟨[], { outLog with strings := [] }⟩ hstrings
    (by simpa using hcount) (by simpa using hnodup)
  have h2 := steps_encodeInstr hwf hfit
    (log.strings.foldl (fun st r => st.intern (slice log.stringBuffer r))
      ⟨[], { outLog with strings := [] }⟩) (by simp [length_foldl_intern])
  dsimp only [List.length_nil] at h1
  unfold parseChangeset encodeSingle
  rw [if_neg (by simp [hne]), Changeset.iter_filterMap, Decoder.loop_flatMap_append _ _ _ h1,
    ← List.append_nil (List.flatMap _ log.instrs), foldl_intern_zipIdx,
    Decoder.loop_flatMap_append _ _ _ h2, Decoder.loop_nil]
  rfl

end ChangesetParser

end Sync

end Realm
