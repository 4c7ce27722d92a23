import Mathlib
import RealmCore.Sync.ClientHistory
import RealmCore.Sync.ChangesetEncoder
import RealmCore.Sync.ChangesetParser

/-!
# Assigning the client file ident to the stored changesets

Until the server assigns the client its file ident, an object the client creates in a table
whose primary key is a `GlobalKey` is named by a key with `hi = 0`.  When the ident arrives,
`ClientHistory::set_client_file_ident` (src/realm/sync/noinst/client_history_impl.cpp) calls
`fix_up_client_file_ident_in_stored_changesets`, which parses each stored changeset of local
origin, gives each such key in it the ident as its `hi` (`promote_global_key`), and writes the
changeset back, encoded again, when it was modified.

The loop over the instructions visits the object of each `ObjectInstruction`, and the link
target of the payload of an `Update` or an `ArrayInsert`; it promotes every key it visits
(`fixUpChangeset_eq`, with `Instruction.promote`).  The link targets of `SetInsert` and
`SetErase` are not visited.  The flag `did_modify` is assigned, not or-ed, at each visit of a
`GlobalKey`, so it ends with the answer of the last visit (`fixUpChangeset_didModify`): a
changeset whose last visited key was not provisional is left as it was stored, provisional
keys and all (`fixUpStoredChangeset_eq_none`).

Over the whole history the loop rewrites each entry of local origin whose flag ends set, and
adds to `uploadable_bytes`, in `uint64_t` arithmetic, the new size less the old
(`fixUpClientFileIdentInStoredChangesets_eq_ok`).  The changesets are stored as they are (see
`ClientHistory`), so decompressing one succeeds; `get_table_for_class` only caches a table
that nothing reads.
-/

namespace Realm

namespace Sync

open ChangesetEncoder ChangesetParser

variable {S R : Type}

/-! ## Promoting a key -/

/-- `promote_global_key(oid)`: a key with `hi = 0` takes the client file ident as its `hi`,
and the answer says whether it did. -/
def promoteGlobalKey (clientFileIdent : UInt64) (oid : GlobalKey) : GlobalKey × Bool :=
  if oid.hi = 0 then (⟨clientFileIdent, oid.lo⟩, true) else (oid, false)

/-- `did_modify = promote_global_key(global_key)` on a primary key that holds a `GlobalKey`;
a key of another type leaves both as they are. -/
def promotePrimaryKey (clientFileIdent : UInt64) : PrimaryKey S → StateM Bool (PrimaryKey S)
  | .globalKey k => do
    let (k, promoted) := promoteGlobalKey clientFileIdent k
    MonadState.set promoted
    return .globalKey k
  | pk => return pk

/-- The same on the target of a `Link` payload. -/
def promotePayload (clientFileIdent : UInt64) : Payload S R → StateM Bool (Payload S R)
  | .link table target => do return .link table (← promotePrimaryKey clientFileIdent target)
  | v => return v

/-- The object of a path instruction, promoted. -/
def promotePathInstr (clientFileIdent : UInt64) (p : PathInstr S) : StateM Bool (PathInstr S) :=
  do return { p with object := ← promotePrimaryKey clientFileIdent p.object }

/-- The body of the loop `for (auto instr : log)` on an instruction that is not a tombstone:
the object of an `ObjectInstruction`, and then the payload of an `Update` or an
`ArrayInsert`. -/
def fixUpInstruction (clientFileIdent : UInt64) :
    Instruction S R → StateM Bool (Instruction S R)
  | .createObject table object => do
    return .createObject table (← promotePrimaryKey clientFileIdent object)
  | .eraseObject table object => do
    return .eraseObject table (← promotePrimaryKey clientFileIdent object)
  | .update p value isDefault priorSize => do
    let p ← promotePathInstr clientFileIdent p
    return .update p (← promotePayload clientFileIdent value) isDefault priorSize
  | .addInteger p value => do return .addInteger (← promotePathInstr clientFileIdent p) value
  | .arrayInsert p value priorSize => do
    let p ← promotePathInstr clientFileIdent p
    return .arrayInsert p (← promotePayload clientFileIdent value) priorSize
  | .arrayMove p ndx2 priorSize => do
    return .arrayMove (← promotePathInstr clientFileIdent p) ndx2 priorSize
  | .arrayErase p priorSize => do
    return .arrayErase (← promotePathInstr clientFileIdent p) priorSize
  | .clear p collectionType => do
    return .clear (← promotePathInstr clientFileIdent p) collectionType
  -- the payload of a set instruction is not fixed up
  | .setInsert p value => do return .setInsert (← promotePathInstr clientFileIdent p) value
  | .setErase p value => do return .setErase (← promotePathInstr clientFileIdent p) value
  -- not an `ObjectInstruction`
  | instr => return instr

/-! ## What the loop does to an instruction -/

/-- A provisional key, with `hi = 0`, with the client file ident as its `hi`; any other key as
it is. -/
def GlobalKey.promote (clientFileIdent : UInt64) (k : GlobalKey) : GlobalKey :=
  if k.hi = 0 then ⟨clientFileIdent, k.lo⟩ else k

/-- A primary key with its `GlobalKey` promoted. -/
def PrimaryKey.promote (clientFileIdent : UInt64) : PrimaryKey S → PrimaryKey S
  | .globalKey k => .globalKey (k.promote clientFileIdent)
  | pk => pk

/-- The `GlobalKey` a primary key holds. -/
def PrimaryKey.globalKey? : PrimaryKey S → Option GlobalKey
  | .globalKey k => some k
  | _ => none

/-- A payload with the `GlobalKey` target of a link promoted. -/
def Payload.promote (clientFileIdent : UInt64) : Payload S R → Payload S R
  | .link table target => .link table (target.promote clientFileIdent)
  | v => v

/-- The `GlobalKey` target of a link. -/
def Payload.linkKey? : Payload S R → Option GlobalKey
  | .link _ target => target.globalKey?
  | _ => none

/-- The fields of a path instruction with the object promoted. -/
def PathInstr.promote (clientFileIdent : UInt64) (p : PathInstr S) : PathInstr S :=
  { p with object := p.object.promote clientFileIdent }

/-- An instruction with the keys the loop visits promoted. -/
def Instruction.promote (clientFileIdent : UInt64) : Instruction S R → Instruction S R
  | .createObject table object => .createObject table (object.promote clientFileIdent)
  | .eraseObject table object => .eraseObject table (object.promote clientFileIdent)
  | .update p value isDefault priorSize =>
    .update (p.promote clientFileIdent) (value.promote clientFileIdent) isDefault priorSize
  | .addInteger p value => .addInteger (p.promote clientFileIdent) value
  | .arrayInsert p value priorSize =>
    .arrayInsert (p.promote clientFileIdent) (value.promote clientFileIdent) priorSize
  | .arrayMove p ndx2 priorSize => .arrayMove (p.promote clientFileIdent) ndx2 priorSize
  | .arrayErase p priorSize => .arrayErase (p.promote clientFileIdent) priorSize
  | .clear p collectionType => .clear (p.promote clientFileIdent) collectionType
  | .setInsert p value => .setInsert (p.promote clientFileIdent) value
  | .setErase p value => .setErase (p.promote clientFileIdent) value
  | instr => instr

/-- The `GlobalKey`s the loop visits in an instruction, in the order it visits them. -/
def Instruction.visitedKeys : Instruction S R → List GlobalKey
  | .createObject _ object | .eraseObject _ object => object.globalKey?.toList
  | .update p value _ _ | .arrayInsert p value _ =>
    p.object.globalKey?.toList ++ value.linkKey?.toList
  | instr => (instr.pathInstr?.bind fun p => p.object.globalKey?).toList

/-- What `did_modify` holds after visits that answered `flags`, from `b`. -/
def lastFlag (flags : List Bool) (b : Bool) : Bool :=
  flags.getLast?.getD b

/-- The answers of `promote_global_key` to the keys `ks`. -/
def promotedFlags (ks : List GlobalKey) : List Bool :=
  ks.map fun k => decide (k.hi = 0)

lemma lastFlag_append (flags flags' : List Bool) (b : Bool) :
    lastFlag (flags ++ flags') b = lastFlag flags' (lastFlag flags b) := by
  unfold lastFlag
  rw [List.getLast?_append]
  cases flags'.getLast? <;> simp

@[simp] lemma lastFlag_nil (b : Bool) : lastFlag [] b = b := rfl

/-- `promote_global_key` promotes the key, and answers whether it was provisional. -/
lemma promoteGlobalKey_eq (f : UInt64) (k : GlobalKey) :
    promoteGlobalKey f k = (k.promote f, decide (k.hi = 0)) := by
  unfold promoteGlobalKey GlobalKey.promote
  split_ifs with hk <;> simp [hk]

lemma promotePrimaryKey_run (f : UInt64) (object : PrimaryKey S) (b : Bool) :
    (promotePrimaryKey f object).run b =
      (object.promote f, lastFlag (promotedFlags object.globalKey?.toList) b) := by
  -- what is left is `pure` of the pair in `Id`
  cases object <;>
    simp [promotePrimaryKey, PrimaryKey.promote, PrimaryKey.globalKey?, promoteGlobalKey_eq,
      lastFlag, promotedFlags] <;> rfl

lemma promotePayload_run (f : UInt64) (v : Payload S R) (b : Bool) :
    (promotePayload f v).run b = (v.promote f, lastFlag (promotedFlags v.linkKey?.toList) b) := by
  cases v
  case link table target =>
    simp only [promotePayload, Payload.promote, Payload.linkKey?, StateT.run_bind,
      promotePrimaryKey_run]
    rfl
  all_goals rfl

lemma promotePathInstr_run (f : UInt64) (p : PathInstr S) (b : Bool) :
    (promotePathInstr f p).run b =
      (p.promote f, lastFlag (promotedFlags p.object.globalKey?.toList) b) := by
  simp only [promotePathInstr, PathInstr.promote, StateT.run_bind, promotePrimaryKey_run]
  rfl

/-- The body of the loop promotes the keys of the instruction, and leaves in `did_modify` the
answer of its last visit. -/
theorem fixUpInstruction_run (f : UInt64) (instr : Instruction S R) (b : Bool) :
    (fixUpInstruction f instr).run b =
      (instr.promote f, lastFlag (promotedFlags instr.visitedKeys) b) := by
  -- the object first, then the payload; what is left is the same pair in `Id`
  cases instr
  case update p v d s =>
    simp only [fixUpInstruction, Instruction.promote, Instruction.visitedKeys, StateT.run_bind,
      promotePathInstr_run, promotePayload_run, promotedFlags, List.map_append, lastFlag_append]
    rfl
  case arrayInsert p v s =>
    simp only [fixUpInstruction, Instruction.promote, Instruction.visitedKeys, StateT.run_bind,
      promotePathInstr_run, promotePayload_run, promotedFlags, List.map_append, lastFlag_append]
    rfl
  all_goals
    simp only [fixUpInstruction, Instruction.promote, Instruction.visitedKeys,
      Instruction.pathInstr?, Option.bind, StateT.run_bind, promotePathInstr_run,
      promotePrimaryKey_run]
    rfl

/-! ### What promotion changes -/

lemma GlobalKey.hi_promote_ne_zero {f : UInt64} (hf : f ≠ 0) (k : GlobalKey) :
    (k.promote f).hi ≠ 0 := by
  unfold GlobalKey.promote
  split_ifs with hk
  · exact hf
  · exact hk

lemma GlobalKey.promote_of_hi_ne_zero (f : UInt64) {k : GlobalKey} (hk : k.hi ≠ 0) :
    k.promote f = k := by
  simp [GlobalKey.promote, hk]

lemma PrimaryKey.globalKey?_promote (f : UInt64) (object : PrimaryKey S) :
    (object.promote f).globalKey? = object.globalKey?.map (GlobalKey.promote f) := by
  cases object <;> rfl

lemma PrimaryKey.promote_eq_self (f : UInt64) {object : PrimaryKey S}
    (h : ∀ k ∈ object.globalKey?, k.hi ≠ 0) : object.promote f = object := by
  cases object
  case globalKey k => simp [PrimaryKey.promote, GlobalKey.promote_of_hi_ne_zero f (h k rfl)]
  all_goals rfl

lemma Payload.linkKey?_promote (f : UInt64) (v : Payload S R) :
    (v.promote f).linkKey? = v.linkKey?.map (GlobalKey.promote f) := by
  cases v
  case link table target => exact PrimaryKey.globalKey?_promote f target
  all_goals rfl

lemma Payload.promote_eq_self (f : UInt64) {v : Payload S R}
    (h : ∀ k ∈ v.linkKey?, k.hi ≠ 0) : v.promote f = v := by
  cases v
  case link table target => simp [Payload.promote, PrimaryKey.promote_eq_self f h]
  all_goals rfl

/-- The keys visited in the fixed-up instruction are the keys visited before, promoted. -/
lemma Instruction.visitedKeys_promote (f : UInt64) (instr : Instruction S R) :
    (instr.promote f).visitedKeys = instr.visitedKeys.map (GlobalKey.promote f) := by
  cases instr <;>
    simp [Instruction.promote, Instruction.visitedKeys, Instruction.pathInstr?,
      PathInstr.promote, PrimaryKey.globalKey?_promote, Payload.linkKey?_promote,
      Option.toList_map]

/-- With an ident that is not `0`, the fix-up leaves no provisional key where it looks. -/
theorem Instruction.hi_ne_zero_of_mem_visitedKeys_promote {f : UInt64} (hf : f ≠ 0)
    {instr : Instruction S R} {k : GlobalKey} (hk : k ∈ (instr.promote f).visitedKeys) :
    k.hi ≠ 0 := by
  rw [Instruction.visitedKeys_promote, List.mem_map] at hk
  obtain ⟨k₀, -, rfl⟩ := hk
  exact GlobalKey.hi_promote_ne_zero hf k₀

/-- The fix-up changes nothing else: an instruction none of whose visited keys is
provisional stays as it is. -/
theorem Instruction.promote_eq_self (f : UInt64) {instr : Instruction S R}
    (h : ∀ k ∈ instr.visitedKeys, k.hi ≠ 0) : instr.promote f = instr := by
  -- the object, and the payload of an `Update` or an `ArrayInsert`
  have hobject (p : PathInstr S) (hp : ∀ k ∈ p.object.globalKey?, k.hi ≠ 0) :
      p.promote f = p := by
    simp [PathInstr.promote, PrimaryKey.promote_eq_self f hp]
  cases instr
  case createObject table object | eraseObject table object =>
    simp [Instruction.promote, PrimaryKey.promote_eq_self f (by simpa [Instruction.visitedKeys]
      using h)]
  case update p v d s | arrayInsert p v s =>
    simp only [Instruction.visitedKeys, List.mem_append, Option.mem_toList] at h
    simp [Instruction.promote, hobject p fun k hk => h k (.inl hk),
      Payload.promote_eq_self f fun k hk => h k (.inr hk)]
  case addInteger p _ | arrayMove p _ _ | arrayErase p _ | clear p _ | setInsert p _
      | setErase p _ =>
    simp [Instruction.promote, hobject p (by simpa [Instruction.visitedKeys,
      Instruction.pathInstr?] using h)]
  all_goals rfl

/-! ## What the loop does to a changeset -/

/-- The loop over the instructions of a changeset, which fixes each up in place, from
`did_modify = false`: the changeset after the loop, and `did_modify`. -/
def fixUpChangeset (clientFileIdent : UInt64) (log : Changeset) : Changeset × Bool :=
  let (instructions, didModify) :=
    (log.instructions.mapM (List.mapM (fixUpInstruction clientFileIdent))).run false
  ({ log with instructions := instructions }, didModify)

/-- The loop promotes every key it visits, and `did_modify` ends with the answer of the last
visit. -/
theorem fixUpChangeset_eq (f : UInt64) (log : Changeset) :
    fixUpChangeset f log =
      ({ log with instructions := log.instructions.map (List.map (Instruction.promote f)) },
        lastFlag (promotedFlags (log.instrs.flatMap Instruction.visitedKeys)) false) := by
  -- the inner loop over an entry, then the outer loop over the entries
  have hentry : ∀ (entry : List Instr) (b : Bool),
      (entry.mapM (fixUpInstruction f)).run b = (entry.map (Instruction.promote f),
        entry.foldl (fun b instr => lastFlag (promotedFlags instr.visitedKeys) b) b) :=
    Run.mapM_run_of_run_eq _ _ (fixUpInstruction_run f)
  have hlog := Run.mapM_run_of_run_eq _ _ hentry log.instructions false
  have hflag : lastFlag (promotedFlags (log.instrs.flatMap Instruction.visitedKeys)) false =
      log.instructions.foldl (fun b entry =>
        entry.foldl (fun b instr => lastFlag (promotedFlags instr.visitedKeys) b) b) false := by
    rw [← List.foldl_flatten]
    unfold lastFlag
    rw [Run.foldl_getLast?_getD, Changeset.instrs, promotedFlags, List.map_flatMap]
    rfl
  simp only [fixUpChangeset, hlog, hflag]

/-- `did_modify` ends set exactly when the last key the loop visits is provisional; a
provisional key followed by one that is not leaves it unset. -/
theorem fixUpChangeset_didModify (f : UInt64) (log : Changeset) :
    (fixUpChangeset f log).2 = true ↔
      ∃ k, (log.instrs.flatMap Instruction.visitedKeys).getLast? = some k ∧ k.hi = 0 := by
  rw [fixUpChangeset_eq]
  simp only [lastFlag, promotedFlags, List.getLast?_map]
  cases (log.instrs.flatMap Instruction.visitedKeys).getLast? <;> simp

/-- What the loop over the history does with the stored changeset of an entry of local origin:
`parse_changeset` into a new `Changeset`, the fix-up, and the changeset encoded again when
`did_modify` ends set. -/
def fixUpStoredChangeset (clientFileIdent : UInt64) (decompressed : List UInt8) :
    Except ParserError (Option (List UInt8)) := do
  let log ← parseChangeset decompressed Changeset.empty
  let (log, didModify) := fixUpChangeset clientFileIdent log
  return if didModify then some (encodeSingle log) else none

/-- A stored changeset that parses is written back, promoted, exactly when the last key the
loop visits in it is provisional. -/
theorem fixUpStoredChangeset_eq (f : UInt64) (c : List UInt8) :
    fixUpStoredChangeset f c = (parseChangeset c Changeset.empty).map fun log =>
      if lastFlag (promotedFlags (log.instrs.flatMap Instruction.visitedKeys)) false then
        some (encodeSingle
          { log with instructions := log.instructions.map (List.map (Instruction.promote f)) })
      else none := by
  unfold fixUpStoredChangeset
  cases parseChangeset c Changeset.empty with
  | error e => rfl
  | ok log =>
    simp only [bind, Except.bind, fixUpChangeset_eq]
    rfl

/-- A stored changeset whose last visited key is not provisional is not written back, whatever
provisional keys it holds before that one. -/
theorem fixUpStoredChangeset_eq_none (f : UInt64) {c : List UInt8} {log : Changeset}
    (hparse : parseChangeset c Changeset.empty = .ok log)
    (hlast : ∀ k ∈ (log.instrs.flatMap Instruction.visitedKeys).getLast?, k.hi ≠ 0) :
    fixUpStoredChangeset f c = .ok none := by
  have hflag : lastFlag (promotedFlags (log.instrs.flatMap Instruction.visitedKeys)) false =
      false := by
    rw [Bool.eq_false_iff]
    intro h
    obtain ⟨k, hk, hk0⟩ :=
      (fixUpChangeset_didModify f log).mp (by rw [fixUpChangeset_eq]; exact h)
    exact hlast k hk hk0
  rw [fixUpStoredChangeset_eq, hparse]
  simp only [Except.map, hflag, Bool.false_eq_true, if_false]

/-- The changesets array and `uploadable_bytes`, as the loop over the history goes. -/
structure FixUpState where
  changesets : List (List UInt8)
  uploadableBytes : UInt64
deriving DecidableEq, Repr

/-- One round of the loop over the history, on entry `i`. -/
def fixUpRound (h : ClientHistory) (clientFileIdent : UInt64) (st : FixUpState) (i : Nat) :
    Except ParserError FixUpState := do
  -- an entry that came from the server, into a pre-provisioned file, is skipped
  if h.arrays.originFileIdents.getD i 0 ≠ 0 then return st
  let decompressed := st.changesets.getD i []
  match ← fixUpStoredChangeset clientFileIdent decompressed with
  | some modified =>
    return ⟨st.changesets.set i modified,
      st.uploadableBytes + (modified.length.toUInt64 - decompressed.length.toUInt64)⟩
  | none => return st

namespace ClientHistory

/-- `fix_up_client_file_ident_in_stored_changesets(group, client_file_ident)`. -/
def fixUpClientFileIdentInStoredChangesets (h : ClientHistory) (clientFileIdent : UInt64) :
    Except ParserError ClientHistory := do
  let st ← Run.runExcept (fixUpRound h clientFileIdent)
    ⟨h.arrays.changesets, h.root.uploadableBytes.toUInt64⟩ (List.range h.syncHistorySize)
  return { h with
    arrays := { h.arrays with changesets := st.changesets }
    root := { h.root with uploadableBytes := st.uploadableBytes.toNat } }

/-- `set_client_file_ident(client_file_ident, fix_up_object_ids)` on the history: the client
versions of the download and upload progress are reset, and the stored changesets fixed up
when asked.  The ident itself and its salt are stored outside the history. -/
def setClientFileIdent (h : ClientHistory) (clientFileIdent : UInt64) (fixUpObjectIds : Bool) :
    Except ParserError ClientHistory :=
  let h := { h with root := { h.root with downloadClientVersion := 0, uploadClientVersion := 0 } }
  if fixUpObjectIds then h.fixUpClientFileIdentInStoredChangesets clientFileIdent else .ok h

end ClientHistory

/-! ## The loop over the history -/

/-- The entry a round of the loop over `List.range n` handles is the one after those done. -/
lemma eq_length_of_prefix_range {done : List Nat} {o n : Nat}
    (hp : done ++ [o] <+: List.range n) : o = done.length ∧ o < n := by
  have hlen : done.length + 1 ≤ n := by simpa using hp.length_le
  have hget := hp.getElem (i := done.length) (by simp)
  simp only [List.getElem_append_right (Nat.le_refl _), Nat.sub_self, List.getElem_singleton,
    List.getElem_range] at hget
  exact ⟨hget, by omega⟩

section History

variable (h : ClientHistory) (r : Nat → Option (List UInt8))

/-- The changeset the loop leaves at entry `i`, which held `c`, when the fix-up of the stored
changeset of each entry of local origin answers `r`. -/
def fixedUpAt (i : Nat) (c : List UInt8) : List UInt8 :=
  if h.arrays.originFileIdents.getD i 0 = 0 then (r i).getD c else c

/-- What the loop adds to `uploadable_bytes` at entry `i`. -/
def uploadableDelta (i : Nat) : UInt64 :=
  if h.arrays.originFileIdents.getD i 0 = 0 then
    match r i with
    | some modified => modified.length.toUInt64 - (h.arrays.changesets.getD i []).length.toUInt64
    | none => 0
  else 0

/-- The state of the loop after the first `k` entries. -/
def fixUpStateAfter (k : Nat) : FixUpState :=
  ⟨h.arrays.changesets.mapIdx fun i c => if i < k then fixedUpAt h r i c else c,
    h.root.uploadableBytes.toUInt64 + ((List.range k).map (uploadableDelta h r)).sum⟩

lemma fixUpStateAfter_zero :
    fixUpStateAfter h r 0 = ⟨h.arrays.changesets, h.root.uploadableBytes.toUInt64⟩ := by
  simp only [fixUpStateAfter, Nat.not_lt_zero, if_false, List.range_zero, List.map_nil,
    List.sum_nil, UInt64.add_zero, FixUpState.mk.injEq, and_true]
  apply List.ext_getElem?
  intro i
  simp [List.getElem?_mapIdx]

/-- The loop reads entry `k` before it writes it. -/
lemma getD_fixUpStateAfter (k : Nat) :
    (fixUpStateAfter h r k).changesets.getD k [] = h.arrays.changesets.getD k [] := by
  simp [fixUpStateAfter, List.getD_eq_getElem?_getD, List.getElem?_mapIdx]

/-- An entry the loop leaves as it is. -/
lemma fixUpStateAfter_succ_of_keep {k : Nat}
    (hkeep : h.arrays.originFileIdents.getD k 0 = 0 → r k = none) :
    fixUpStateAfter h r (k + 1) = fixUpStateAfter h r k := by
  have hfixed (c : List UInt8) : fixedUpAt h r k c = c := by
    unfold fixedUpAt
    split_ifs with hl
    · rw [hkeep hl]
      rfl
    · rfl
  have hdelta : uploadableDelta h r k = 0 := by
    unfold uploadableDelta
    split_ifs with hl
    · rw [hkeep hl]
    · rfl
  have hat : (fun i c => if i < k + 1 then fixedUpAt h r i c else c) =
      fun i c => if i < k then fixedUpAt h r i c else c := by
    funext i c
    -- the two differ at `k` only, where nothing is written
    rcases Nat.lt_trichotomy i k with hik | rfl | hik
    · simp [hik, Nat.lt_succ_of_lt hik]
    · simp [hfixed]
    · simp [show ¬i < k + 1 by omega, show ¬i < k by omega]
  simp only [fixUpStateAfter, hat, List.range_succ, List.map_append, List.sum_append,
    List.map_singleton, List.sum_singleton, hdelta, UInt64.add_zero]

/-- An entry the loop writes back. -/
lemma fixUpStateAfter_succ_of_some {k : Nat} {modified : List UInt8}
    (hl : h.arrays.originFileIdents.getD k 0 = 0) (hsome : r k = some modified) :
    fixUpStateAfter h r (k + 1) =
      ⟨(fixUpStateAfter h r k).changesets.set k modified,
        (fixUpStateAfter h r k).uploadableBytes +
          (modified.length.toUInt64 - (h.arrays.changesets.getD k []).length.toUInt64)⟩ := by
  have hdelta : uploadableDelta h r k =
      modified.length.toUInt64 - (h.arrays.changesets.getD k []).length.toUInt64 := by
    simp only [uploadableDelta, if_pos hl, hsome]
  have hfixed (c : List UInt8) : fixedUpAt h r k c = modified := by
    simp only [fixedUpAt, if_pos hl, hsome, Option.getD_some]
  simp only [fixUpStateAfter, FixUpState.mk.injEq, List.range_succ, List.map_append,
    List.sum_append, List.map_singleton, List.sum_singleton, hdelta, UInt64.add_assoc, and_true]
  apply List.ext_getElem?
  intro i
  simp only [List.getElem?_mapIdx, List.getElem?_set]
  rcases Nat.lt_trichotomy i k with hik | rfl | hik
  · simp [hik, Nat.lt_succ_of_lt hik, Nat.ne_of_gt hik]
  · cases hi : h.arrays.changesets[i]? with
    | none => simp [List.getElem?_eq_none_iff.mp hi]
    | some c =>
      have hlt : i < h.arrays.changesets.length := (List.getElem?_eq_some_iff.mp hi).1
      simp [hfixed, hlt]
  · simp [show ¬i < k + 1 by omega, show ¬i < k by omega, Nat.ne_of_lt hik]

/-- One round of the loop takes the state after `k` entries to the state after `k + 1`. -/
lemma fixUpRound_fixUpStateAfter (f : UInt64) {k : Nat}
    (hr : h.arrays.originFileIdents.getD k 0 = 0 →
      fixUpStoredChangeset f (h.arrays.changesets.getD k []) = .ok (r k)) :
    fixUpRound h f (fixUpStateAfter h r k) k = .ok (fixUpStateAfter h r (k + 1)) := by
  unfold fixUpRound
  by_cases hl : h.arrays.originFileIdents.getD k 0 = 0
  · rw [if_neg (not_not.mpr hl)]
    simp only [getD_fixUpStateAfter, hr hl]
    cases hsome : r k with
    | none =>
      rw [fixUpStateAfter_succ_of_keep h r fun _ => hsome]
      rfl
    | some modified =>
      rw [fixUpStateAfter_succ_of_some h r hl hsome]
      rfl
  · rw [if_pos hl, fixUpStateAfter_succ_of_keep h r fun h' => absurd h' hl]
    rfl

/-- The loop over the history, when the stored changeset of each entry of local origin parses:
it writes back the entries whose fix-up answers a changeset, and adds to `uploadable_bytes`
the new sizes less the old. -/
theorem fixUpClientFileIdentInStoredChangesets_eq_ok (f : UInt64)
    (hr : ∀ i < h.syncHistorySize, h.arrays.originFileIdents.getD i 0 = 0 →
      fixUpStoredChangeset f (h.arrays.changesets.getD i []) = .ok (r i)) :
    h.fixUpClientFileIdentInStoredChangesets f = .ok { h with
      arrays := { h.arrays with changesets := h.arrays.changesets.mapIdx (fixedUpAt h r) }
      root := { h.root with uploadableBytes :=
        (h.root.uploadableBytes.toUInt64 +
          ((List.range h.syncHistorySize).map (uploadableDelta h r)).sum).toNat } } := by
  -- the invariant: after the entries `done`, the state is that after `done.length` entries
  obtain ⟨st, hrun, hst⟩ := @Run.runExcept_spec FixUpState Nat ParserError (fixUpRound h f)
    (fun done st => st = fixUpStateAfter h r done.length) (List.range h.syncHistorySize) _
    (fixUpStateAfter_zero h r).symm fun done o st hp hst => by
      obtain ⟨rfl, ho⟩ := eq_length_of_prefix_range hp
      refine ⟨_, hst ▸ fixUpRound_fixUpStateAfter h r f (hr _ ho), ?_⟩
      simp
  -- every entry is below the size of the history
  have hall : h.arrays.changesets.mapIdx
      (fun i c => if i < h.syncHistorySize then fixedUpAt h r i c else c) =
        h.arrays.changesets.mapIdx (fixedUpAt h r) := by
    apply List.ext_getElem?
    intro i
    simp only [List.getElem?_mapIdx]
    cases hi : h.arrays.changesets[i]? with
    | none => rfl
    | some c =>
      have hlt : i < h.syncHistorySize := (List.getElem?_eq_some_iff.mp hi).1
      simp [hlt]
  rw [ClientHistory.fixUpClientFileIdentInStoredChangesets, hrun, hst]
  simp only [List.length_range, fixUpStateAfter, hall]
  rfl

end History

/-! ## Provisional keys that stay -/

/-- Two objects of a table `"T"` whose primary key is a `GlobalKey`: one created before the
ident arrived, with the provisional key `{0, 5}`, and then one that client `1` created, which
a pre-provisioned file holds, erased. -/
def provisionalThenAssigned : Changeset :=
  ⟨[[.createObject ⟨0⟩ (.globalKey ⟨0, 5⟩)], [.eraseObject ⟨0⟩ (.globalKey ⟨1, 6⟩)]],
    [⟨0, 1⟩], [84]⟩

/-- The object `{0, 5}` of `"T"` gets the object `{0, 6}` in its set of links `"s"`. -/
def linkInSet : Changeset :=
  ⟨[[.setInsert ⟨⟨0⟩, .globalKey ⟨0, 5⟩, ⟨1⟩, []⟩ (.link ⟨0⟩ (.globalKey ⟨0, 6⟩))]],
    [⟨0, 1⟩, ⟨1, 1⟩], [84, 115]⟩

/-- The two changesets, committed locally one after the other. -/
def provisionalHistory : ClientHistory :=
  (ClientHistory.initial.commit [] (encodeSingle provisionalThenAssigned) 0).commit []
    (encodeSingle linkInSet) 1

/-- With the ident `7`, the first changeset is not written back: the visit of `{1, 6}` resets
`did_modify`, and the object keeps its key `{0, 5}`.  The second is written back with its
object promoted, but the link target `{0, 6}` of its `SetInsert` is never visited. -/
theorem setClientFileIdent_leaves_provisional_keys :
    ((provisionalHistory.setClientFileIdent 7 true).map fun h =>
      h.arrays.changesets.map fun c => (parseChangeset c Changeset.empty).map Changeset.instrs) =
    .ok [.ok [.createObject ⟨0⟩ (.globalKey ⟨0, 5⟩), .eraseObject ⟨0⟩ (.globalKey ⟨1, 6⟩)],
      .ok [.setInsert ⟨⟨0⟩, .globalKey ⟨7, 5⟩, ⟨1⟩, []⟩ (.link ⟨0⟩ (.globalKey ⟨0, 6⟩))]] := by
  with_unfolding_all decide

end Sync

end Realm
