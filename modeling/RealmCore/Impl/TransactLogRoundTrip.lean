import Mathlib
import RealmCore.Impl.TransactLog

/-!
# Reading back the transaction log

`TransactLogParser::parse` reads what `TransactLogEncoder` wrote and calls the handler with the
calls made of the encoder, in their order (`parse_call`), except in two places.  A
`collection_move` to where the entry already is writes nothing, so the handler does not see it.
And the path of `select_collection` is written as its salts below the column: the parser
rebuilds the first element as `StableIndex(col_key, 0)`, and each other as `StableIndex(salt)`
(`HandlerCall.reparsed`).

A path that the code builds for a collection starts at the column and goes on with one salt
for each collection below it, at most `100` of them (`CollectionParent::s_max_level`).  For
such paths the handler sees the calls as they were made, with the first element of each path
rebuilt from the column (`parse_encode`).  An empty path comes back as a path of one element.

Each integer is read back at a type that holds it (`decodeInt_encodeInt`): keys of tables are
`uint32_t` values written as `int64_t`, and the number of collections below the column, which
the parser reads as a `uint32_t`, must be below `2^32`.  At a type that does not hold it,
`read_int` fails, except that an unsigned type reads a negative value whose magnitude it holds
modulo `2^digits` (`readInt_run_encodeInt`), which the comment on `encode_int` rules out.

Both encoders of integers keep within what their callers reserve: `encode_int_max_bytes<T>()`
for `_impl::encode_int<T>`, and `max_enc_bytes_per_int` for the encoder of the log, which the
`static_assert` of each type allows.
-/

namespace Realm

namespace Impl

open Decoder TransactLogEncoder TransactLogParser

/-! ## Integers and keys -/

lemma readInt_encodeInt (T : IntType) {v : Int} (hv : T.InRange v) :
    Decodes (readInt T) (encodeInt v) v := by
  intro rest
  delta readInt
  simp only [StateT.run, decodeInt_encodeInt T rest hv]

/-- `read_int<T>` on the encoding of any integer reads what `decode_int<T>` reads
(`decodeInt_encodeInt_eq`), and fails where it fails. -/
lemma readInt_run_encodeInt (T : IntType) (v : Int) (rest : List UInt8) :
    (readInt T).run (encodeInt v ++ rest) =
      match T.readBack v with
      | some w => .ok (w, rest)
      | none => .error .badTransactionLog := by
  delta readInt
  simp only [StateT.run, decodeInt_encodeInt_eq T rest v]
  cases T.readBack v <;> rfl

/-- An `int8_t` of `-2` read back as a `uint8_t`: the magnitude `1` fits, the negation wraps to
`255` and subtracting one does not overflow, so both readers answer `254` and consume the whole
encoding, although `uint8_t` does not hold `-2`. -/
theorem readInt_uint8_of_int8_negative :
    IntType.int8.InRange (-2) ∧ ¬IntType.uint8.InRange (-2) ∧
      (readInt .uint8).run (encodeInt (-2)) = .ok (254, []) ∧
      decodeInt .uint8 (encodeInt (-2)) = some (254, []) := by
  with_unfolding_all decide

/-- A code below `64` takes one byte. -/
lemma encodeInt_of_lt {n : Nat} (hn : n < 64) : encodeInt n = [n.toUInt8] := by
  have h6 : n >>> 6 = 0 := by
    rw [Nat.shiftRight_eq_div_pow]
    exact Nat.div_eq_of_lt (by simpa using hn)
  have hneg : ¬ ((n : Int) < 0) := by omega
  rw [Realm.encodeInt, if_neg hneg, Int.toNat_natCast, encodeMagnitude, dif_pos h6]
  rfl

lemma code_lt (instr : Instruction) : instr.code < 64 := by
  cases instr <;> decide

lemma ofCode?_code (instr : Instruction) : Instruction.ofCode? instr.code.toUInt8.toNat = some instr := by
  cases instr <;> rfl

lemma readColKey_encodeInt (colKey : ColKey) :
    Decodes readColKey (encodeInt colKey.value.toInt) colKey := by
  refine Decodes.of_eq ((readInt_encodeInt .int64 (inRange_int64 colKey.value)).bind
    (Decodes.pure _)) (List.append_nil _) ?_
  simp

lemma readObjKey_encodeInt (key : ObjKey) : Decodes readObjKey (encodeInt key.value.toInt) key := by
  refine Decodes.of_eq ((readInt_encodeInt .int64 (inRange_int64 key.value)).bind
    (Decodes.pure _)) (List.append_nil _) ?_
  simp

lemma readTableKey_encodeInt (tableKey : TableKey) :
    Decodes readTableKey (encodeInt tableKey.value.toNat) tableKey := by
  refine Decodes.of_eq ((readInt_encodeInt .uint32 (inRange_uint32 tableKey.value)).bind
    (Decodes.pure _)) (List.append_nil _) ?_
  simp

lemma readSize_encodeInt (n : UInt64) : Decodes readSize (encodeInt n.toNat) n := by
  refine Decodes.of_eq ((readInt_encodeInt .uint64 (inRange_uint64 n)).bind
    (Decodes.pure _)) (List.append_nil _) ?_
  simp

/-! ## One instruction -/

/-- Whether the encoder writes a call: all but a move to where the entry is. -/
def HandlerCall.isWritten : HandlerCall → Bool
  | .collectionMove fromNdx toNdx => fromNdx != toNdx
  | _ => true

/-- The path of a `select_collection` has at most `2^32` elements. -/
def HandlerCall.pathFits : HandlerCall → Bool
  | .selectCollection _ _ path => path.length ≤ 2 ^ 32
  | _ => true

/-- The call the parser makes of a call that the encoder wrote: the path of a
`select_collection` rebuilt from the column key and the salts. -/
def HandlerCall.reparsed : HandlerCall → HandlerCall
  | .selectCollection colKey key path =>
    .selectCollection colKey key
      (StableIndex.ofColKey colKey 0 :: (path.drop 1).map fun index =>
        StableIndex.ofSalt index.getSalt)
  | call => call

lemma appendSimpleInstr_eq_flatMap (numbers : List Int) :
    appendSimpleInstr numbers = numbers.flatMap encodeInt :=
  rfl

lemma appendSimpleInstr_cons (n : Int) (numbers : List Int) :
    appendSimpleInstr (n :: numbers) = encodeInt n ++ appendSimpleInstr numbers :=
  List.flatMap_cons

/-- An instruction is its code, and then its arguments. -/
lemma readCall_of_readArguments (instr : Instruction) {bs : List UInt8} {call : HandlerCall}
    (h : Decodes (readArguments instr) bs call) :
    Decodes readCall (encodeInt instr.code ++ bs) call := by
  rw [encodeInt_of_lt (code_lt instr)]
  refine (Decodes.next _ _).bind ?_
  simp only [ofCode?_code]
  exact h

/-- The arguments of a `select_collection`: the column, the object, the number of salts
(read by `read_level`) and the salts. -/
lemma readSelectCollection_decodes (byPath : Bool) (colKey : ColKey) (key : ObjKey)
    {bsLevel : List UInt8} {salts : List Int}
    (hlevel : Decodes (if byPath then (·.toNat) <$> readInt .uint32 else pure 0) bsLevel
      salts.length)
    (hsalts : ∀ salt ∈ salts, IntType.int64.InRange salt) :
    Decodes (readSelectCollection byPath)
      (encodeInt colKey.value.toInt ++ encodeInt key.value.toInt ++ bsLevel ++
        salts.flatMap encodeInt)
      (.selectCollection colKey key
        (StableIndex.ofColKey colKey 0 :: salts.map fun salt => StableIndex.ofSalt (Int64.ofInt salt))) := by
  have hread : Decodes (Decoder.replicate (readInt .int64) salts.length) (salts.flatMap encodeInt)
      salts :=
    Decodes.replicate fun salt hsalt => readInt_encodeInt .int64 (hsalts salt hsalt)
  refine Decodes.of_eq ((readColKey_encodeInt colKey).bind ((readObjKey_encodeInt key).bind
    (hlevel.bind (hread.bind (Decodes.pure _))))) ?_ rfl
  simp only [List.append_nil, List.append_assoc]

/-- A `select_collection` reads back, with the path rebuilt. -/
lemma readCall_selectCollection (colKey : ColKey) (key : ObjKey) (path : StablePath)
    (hfit : path.length ≤ 2 ^ 32) :
    Decodes readCall (selectCollection colKey key path)
      (HandlerCall.reparsed (.selectCollection colKey key path)) := by
  have hsalts : ∀ salt ∈ (path.drop 1).map (fun index => index.getSalt.toInt),
      IntType.int64.InRange salt := by
    intro salt hsalt
    obtain ⟨index, -, rfl⟩ := List.mem_map.mp hsalt
    exact inRange_int64 _
  have hcall : HandlerCall.reparsed (.selectCollection colKey key path) =
      .selectCollection colKey key (StableIndex.ofColKey colKey 0 ::
        ((path.drop 1).map fun index => index.getSalt.toInt).map fun salt =>
          StableIndex.ofSalt (Int64.ofInt salt)) := by
    delta HandlerCall.reparsed
    simp [Function.comp_def, Int64.ofInt_toInt]
  rw [hcall]
  unfold selectCollection
  split_ifs with hlen
  · -- nested below the column: the number of salts, and the salts
    have hlevel : Decodes (if true then (·.toNat) <$> readInt .uint32 else pure 0)
        (encodeInt (path.length - 1 : Nat))
        ((path.drop 1).map fun index => index.getSalt.toInt).length := by
      rw [if_pos rfl]
      refine (Decodes.map (·.toNat) (readInt_encodeInt .uint32
        (inRange_uint32_of_lt (show path.length - 1 < 2 ^ 32 by omega)))).of_eq rfl ?_
      simp
    refine Decodes.of_eq (readCall_of_readArguments .selectCollectionByPath
      (readSelectCollection_decodes true colKey key hlevel hsalts)) ?_ rfl
    simp only [appendSimpleInstr_eq_flatMap, List.flatMap_cons, List.flatMap_nil, List.append_nil,
      List.append_assoc, List.flatMap_map]
  · -- the column alone: no salts
    have hdrop : path.drop 1 = [] := List.drop_eq_nil_of_le (by omega)
    simp only [hdrop, List.map_nil] at hsalts ⊢
    refine Decodes.of_eq (readCall_of_readArguments .selectCollection
      (readSelectCollection_decodes false colKey key (Decodes.pure 0) hsalts)) ?_ rfl
    simp [appendSimpleInstr_eq_flatMap]

/-- An instruction of the encoder reads back as the call that wrote it, the path of a
`select_collection` rebuilt. -/
lemma readCall_call (call : HandlerCall) (hw : call.isWritten) (hfit : call.pathFits) :
    Decodes readCall (TransactLogEncoder.call call) call.reparsed := by
  cases call with
  | selectTable key =>
    -- no levels: `read_int<int>()` reads the `0` and the assertion holds
    have hzero : IntType.int32.InRange 0 := ⟨by decide, by decide⟩
    refine Decodes.of_eq (readCall_of_readArguments .selectTable
      ((readInt_encodeInt .int32 hzero).bind
        ((readTableKey_encodeInt key).bind (Decodes.pure _)))) ?_ rfl
    simp [TransactLogEncoder.call, TransactLogEncoder.selectTable, appendSimpleInstr_eq_flatMap]
  | insertGroupLevelTable tableKey =>
    exact Decodes.of_eq (readCall_of_readArguments .insertGroupLevelTable
      ((readTableKey_encodeInt tableKey).bind (Decodes.pure _))) (by simp [TransactLogEncoder.call,
        TransactLogEncoder.insertGroupLevelTable, appendSimpleInstr_eq_flatMap]) rfl
  | eraseClass tableKey =>
    exact Decodes.of_eq (readCall_of_readArguments .eraseGroupLevelTable
      ((readTableKey_encodeInt tableKey).bind (Decodes.pure _))) (by simp [TransactLogEncoder.call,
        TransactLogEncoder.eraseClass, appendSimpleInstr_eq_flatMap]) rfl
  | renameClass tableKey =>
    exact Decodes.of_eq (readCall_of_readArguments .renameGroupLevelTable
      ((readTableKey_encodeInt tableKey).bind (Decodes.pure _))) (by simp [TransactLogEncoder.call,
        TransactLogEncoder.renameClass, appendSimpleInstr_eq_flatMap]) rfl
  | createObject key =>
    exact Decodes.of_eq (readCall_of_readArguments .createObject
      ((readObjKey_encodeInt key).bind (Decodes.pure _))) (by simp [TransactLogEncoder.call,
        TransactLogEncoder.createObject, appendSimpleInstr_eq_flatMap]) rfl
  | removeObject key =>
    exact Decodes.of_eq (readCall_of_readArguments .removeObject
      ((readObjKey_encodeInt key).bind (Decodes.pure _))) (by simp [TransactLogEncoder.call,
        TransactLogEncoder.removeObject, appendSimpleInstr_eq_flatMap]) rfl
  | modifyObject colKey key =>
    exact Decodes.of_eq (readCall_of_readArguments .set
      ((readColKey_encodeInt colKey).bind ((readObjKey_encodeInt key).bind (Decodes.pure _))))
      (by simp [TransactLogEncoder.call, TransactLogEncoder.modifyObject, appendSimpleInstr_eq_flatMap]) rfl
  | insertColumn colKey =>
    exact Decodes.of_eq (readCall_of_readArguments .insertColumn
      ((readColKey_encodeInt colKey).bind (Decodes.pure _))) (by simp [TransactLogEncoder.call,
        TransactLogEncoder.insertColumn, appendSimpleInstr_eq_flatMap]) rfl
  | eraseColumn colKey =>
    exact Decodes.of_eq (readCall_of_readArguments .eraseColumn
      ((readColKey_encodeInt colKey).bind (Decodes.pure _))) (by simp [TransactLogEncoder.call,
        TransactLogEncoder.eraseColumn, appendSimpleInstr_eq_flatMap]) rfl
  | renameColumn colKey =>
    exact Decodes.of_eq (readCall_of_readArguments .renameColumn
      ((readColKey_encodeInt colKey).bind (Decodes.pure _))) (by simp [TransactLogEncoder.call,
        TransactLogEncoder.renameColumn, appendSimpleInstr_eq_flatMap]) rfl
  | selectCollection colKey key path =>
    exact readCall_selectCollection colKey key path (of_decide_eq_true hfit)
  | collectionSet ndx =>
    exact Decodes.of_eq (readCall_of_readArguments .collectionSet
      ((readSize_encodeInt ndx).bind (Decodes.pure _))) (by simp [TransactLogEncoder.call,
        TransactLogEncoder.collectionSet, appendSimpleInstr_eq_flatMap]) rfl
  | collectionInsert ndx =>
    exact Decodes.of_eq (readCall_of_readArguments .collectionInsert
      ((readSize_encodeInt ndx).bind (Decodes.pure _))) (by simp [TransactLogEncoder.call,
        TransactLogEncoder.collectionInsert, appendSimpleInstr_eq_flatMap]) rfl
  | collectionMove fromNdx toNdx =>
    -- a move that is written is one to another place
    have hne : fromNdx ≠ toNdx := bne_iff_ne.mp hw
    exact Decodes.of_eq (readCall_of_readArguments .collectionMove
      ((readSize_encodeInt fromNdx).bind ((readSize_encodeInt toNdx).bind (Decodes.pure _))))
      (by simp [TransactLogEncoder.call, TransactLogEncoder.collectionMove, hne, appendSimpleInstr_eq_flatMap])
      rfl
  | collectionErase ndx =>
    exact Decodes.of_eq (readCall_of_readArguments .collectionErase
      ((readSize_encodeInt ndx).bind (Decodes.pure _))) (by simp [TransactLogEncoder.call,
        TransactLogEncoder.collectionErase, appendSimpleInstr_eq_flatMap]) rfl
  | collectionClear oldSize =>
    exact Decodes.of_eq (readCall_of_readArguments .collectionClear
      ((readSize_encodeInt oldSize).bind (Decodes.pure _))) (by simp [TransactLogEncoder.call,
        TransactLogEncoder.collectionClear, appendSimpleInstr_eq_flatMap]) rfl
  | typedLinkChange col dest =>
    exact Decodes.of_eq (readCall_of_readArguments .typedLinkChange
      ((readColKey_encodeInt col).bind ((readTableKey_encodeInt dest).bind (Decodes.pure _))))
      (by simp [TransactLogEncoder.call, TransactLogEncoder.typedLinkChange, appendSimpleInstr_eq_flatMap]) rfl

/-- Only a move to where the entry is writes nothing. -/
lemma call_eq_nil_of_not_isWritten {call : HandlerCall} (hw : call.isWritten = false) :
    TransactLogEncoder.call call = [] := by
  cases call with
  | collectionMove fromNdx toNdx =>
    have heq : fromNdx = toNdx := bne_eq_false_iff_eq.mp hw
    delta TransactLogEncoder.call TransactLogEncoder.collectionMove
    simp [heq]
  | _ => cases hw

/-- What `read_char` reads is never nothing. -/
lemma ne_nil_of_decodes_readCall {bs : List UInt8} {call : HandlerCall}
    (h : Decodes readCall bs call) : bs ≠ [] := by
  rintro rfl
  have hrun := h []
  simp [readCall, readChar, Decoder.next, StateT.run, bind, StateT.bind, Except.bind] at hrun

lemma flatMap_call_filter_isWritten (calls : List HandlerCall) :
    (calls.filter HandlerCall.isWritten).flatMap TransactLogEncoder.call =
      calls.flatMap TransactLogEncoder.call := by
  induction calls with
  | nil => rfl
  | cons call calls ih =>
    by_cases hw : call.isWritten = true
    · simp [hw, ih]
    · simp [hw, ih, call_eq_nil_of_not_isWritten (Bool.eq_false_iff.mpr hw)]

/-! ## The whole log -/

section Parse

variable {σ : Type} (handler : σ → HandlerCall → Option σ)

/-- `parse_one` on an instruction that reads back as `call` hands `call` to the handler. -/
lemma parseOne_run {bs : List UInt8} {call : HandlerCall} (h : Decodes readCall bs call) (s : σ)
    (rest : List UInt8) :
    (parseOne handler s).run (bs ++ rest) = (deliver handler s call).map (·, rest) := by
  rw [parseOne, StateT.run_bind, h rest]
  show (StateT.lift (deliver handler s call)).run rest = _
  rw [StateT.run_lift]
  cases deliver handler s call <;> rfl

/-- The parser calls the handler with the calls the encoder was given, in their order: all but
the moves to where the entry is, each path rebuilt from its column and its salts. -/
theorem parse_call (calls : List HandlerCall) (s : σ)
    (hfit : ∀ call ∈ calls, call.pathFits) :
    parse handler s (calls.flatMap TransactLogEncoder.call) =
      ((calls.filter HandlerCall.isWritten).map HandlerCall.reparsed).foldlM (deliver handler) s := by
  rw [← flatMap_call_filter_isWritten, List.foldlM_map, parse]
  refine Decoder.loop_flatMap_eq_foldlM _ s fun call hcall => ?_
  obtain ⟨hmem, hw⟩ := List.mem_filter.mp hcall
  have hread := readCall_call call hw (hfit call hmem)
  exact ⟨ne_nil_of_decodes_readCall hread, fun s rest => parseOne_run handler hread s rest⟩

/-- The calls a handler that records them has seen. -/
def recordCalls (log : List HandlerCall) (call : HandlerCall) : Option (List HandlerCall) :=
  some (log ++ [call])

/-- A `select_collection` on the column itself, with an empty path, comes back with a path of
one element, `StableIndex(col_key, 0)`. -/
theorem parse_selectCollection_empty_path :
    parse recordCalls [] (TransactLogEncoder.call (.selectCollection ⟨5⟩ ⟨7⟩ [])) =
      .ok [.selectCollection ⟨5⟩ ⟨7⟩ [StableIndex.ofColKey ⟨5⟩ 0]] := by
  with_unfolding_all decide

/-- The path of a `select_collection` as the code builds it: the column, and below it at most
`2^32 - 1` collections, each by its salt. -/
def HandlerCall.pathNested : HandlerCall → Bool
  | .selectCollection _ _ path =>
    !path.isEmpty && decide (path.length ≤ 2 ^ 32) &&
      (path.drop 1).all fun index => index == StableIndex.ofSalt index.getSalt
  | _ => true

/-- The call with the first element of its path rebuilt from the column. -/
def HandlerCall.withColumnRebuilt : HandlerCall → HandlerCall
  | .selectCollection colKey key path =>
    .selectCollection colKey key (StableIndex.ofColKey colKey 0 :: path.drop 1)
  | call => call

lemma pathFits_of_pathNested {call : HandlerCall} (h : call.pathNested) : call.pathFits := by
  cases call with
  | selectCollection colKey key path =>
    delta HandlerCall.pathNested at h
    simp only [Bool.and_eq_true, decide_eq_true_eq] at h
    exact decide_eq_true h.1.2
  | _ => rfl

/-- On a path of salts below the column, the parser rebuilds exactly the first element. -/
lemma reparsed_eq_withColumnRebuilt {call : HandlerCall} (h : call.pathNested) :
    call.reparsed = call.withColumnRebuilt := by
  cases call with
  | selectCollection colKey key path =>
    delta HandlerCall.pathNested at h
    simp only [Bool.and_eq_true, List.all_eq_true, beq_iff_eq] at h
    delta HandlerCall.reparsed HandlerCall.withColumnRebuilt
    simp only [HandlerCall.selectCollection.injEq, List.cons.injEq, true_and]
    conv_rhs => rw [← List.map_id (path.drop 1)]
    exact List.map_congr_left fun index hindex => (h.2 index hindex).symm
  | _ => rfl

/-- For paths that go down from the column by salts, the handler sees the calls as they were
made, with the first element of each path rebuilt from the column, and without the moves to
where the entry is. -/
theorem parse_encode (calls : List HandlerCall) (s : σ)
    (hnested : ∀ call ∈ calls, call.pathNested) :
    parse handler s (calls.flatMap TransactLogEncoder.call) =
      ((calls.filter HandlerCall.isWritten).map HandlerCall.withColumnRebuilt).foldlM
        (deliver handler) s := by
  rw [parse_call handler calls s fun call hcall => pathFits_of_pathNested (hnested call hcall)]
  congr 1
  refine List.map_congr_left fun call hcall => reparsed_eq_withColumnRebuilt ?_
  exact hnested call (List.mem_filter.mp hcall).1

/-- A table, an object, a list nested in a list of the object, a move that writes nothing and
a move that does. -/
theorem parse_encode_sample :
    (∀ call ∈ [.selectTable ⟨3⟩, .createObject ⟨-2⟩,
        .selectCollection ⟨0x400001⟩ ⟨-2⟩ [StableIndex.ofColKey ⟨0x400001⟩ 0, StableIndex.ofSalt 17],
        .collectionMove 1 1, .collectionMove 0 2], HandlerCall.pathNested call) ∧
      parse recordCalls [] ([.selectTable ⟨3⟩, .createObject ⟨-2⟩,
        .selectCollection ⟨0x400001⟩ ⟨-2⟩ [StableIndex.ofColKey ⟨0x400001⟩ 0, StableIndex.ofSalt 17],
        .collectionMove 1 1, .collectionMove 0 2].flatMap TransactLogEncoder.call) =
      (([.selectTable ⟨3⟩, .createObject ⟨-2⟩,
        .selectCollection ⟨0x400001⟩ ⟨-2⟩ [StableIndex.ofColKey ⟨0x400001⟩ 0, StableIndex.ofSalt 17],
        .collectionMove 1 1, .collectionMove 0 2].filter HandlerCall.isWritten).map
          HandlerCall.withColumnRebuilt).foldlM (deliver recordCalls) [] :=
  ⟨by decide, parse_encode recordCalls _ [] (by decide)⟩

end Parse

/-! ## The bytes reserved for an integer -/

section Reserved

variable {T : IntType} {v : Int}

/-- The encoder of the log writes a value of `T` as `_impl::encode_int<T>` does: a negative value
is one of a signed `T`. -/
lemma TransactLogEncoder.encodeInt_eq (hv : T.InRange v) :
    TransactLogEncoder.encodeInt T v = T.encodeInt v := by
  unfold TransactLogEncoder.encodeInt IntType.encodeInt
  by_cases hneg : v < 0
  · rw [if_pos hneg, if_pos ⟨(signed_of_neg hv hneg).1, hneg⟩]
  · rw [if_neg hneg, if_neg (fun h => hneg h.2)]

/-- The `static_assert(max_bytes <= max_enc_bytes_per_int)` of every type the codecs use. -/
lemma maxBytes_le_maxEncBytesPerInt :
    ∀ T ∈ IntType.codecTypes, T.maxBytes ≤ TransactLogEncoder.maxEncBytesPerInt := by
  decide

theorem encodeInt_reserved_bytes_bid128_roundTrip :
    (∀ T ∈ IntType.codecTypes, ∀ v : Int, T.InRange v →
      (T.encodeInt v).length ≤ T.maxBytes ∧
        (TransactLogEncoder.encodeInt T v).length ≤ TransactLogEncoder.maxEncBytesPerInt) ∧
    ∀ b : Bid128, b.toNat < 2 ^ 113 → ∀ rest : List UInt8,
      decodeBid128Words (encodeBid128Words b ++ rest) = some (b, rest) ∧
        (encodeBid128Words b).length ≤ 17 := by
  refine ⟨fun T hT v hv => ?_, fun b hb rest => ?_⟩
  · have hlen := IntType.length_encodeInt_le hv
    refine ⟨hlen, ?_⟩
    rw [TransactLogEncoder.encodeInt_eq hv]
    exact Nat.le_trans hlen (maxBytes_le_maxEncBytesPerInt T hT)
  · -- the decoder has room for `118` bits, more than the `113` of a coefficient
    have h118 : b.toNat < 2 ^ 118 :=
      Nat.lt_of_lt_of_le hb (Nat.pow_le_pow_right (by decide) (by decide))
    exact decodeBid128Words_encodeBid128Words h118 rest

end Reserved

end Impl

end Realm
