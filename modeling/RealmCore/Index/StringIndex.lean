import Mathlib
import RealmCore.Lib.LowerBound
import RealmCore.Lib.Run
import RealmCore.Mixed
import RealmCore.ObjKey

/-!
# The search index

`realm::StringIndex` (src/realm/index_string.hpp, src/realm/index_string.cpp) indexes a column
by the bytes `Mixed::get_index_data` gives for each value.  A node holds sorted 32-bit keys,
each the next four bytes of an index data (`create_key`, which ends a short tail with `'X'` so
that the null value, `""` and a proper prefix get different keys), and under each key one
object, a list of objects, or a subindex for the next four bytes.  A lookup descends by the
keys of the query's index data and confirms what it reaches with `Mixed`'s `==`; a list holds
the objects of one value, in key order, or (where two index data agree, or past
`s_max_offset` bytes) objects of several values, in value order.

The model covers the index of a column of single values (neither a list of strings nor a
full-text index, whose branches it leaves out).  A node is a list of key and slot pairs:
it stands for the node's two arrays, and for the B+tree of inner nodes that replaces a node
of more than `REALM_MAX_BPNODE_SIZE` keys, which a lookup passes through by the same
`lower_bound` on the keys.  The column is a function `col` from object keys to values, the
`ClusterColumn::get_value` every comparison of the index reads.  The recursion through
subindexes runs on a count of levels, `levels`, which no index built by `insert` exhausts:
a subindex is only created for an offset of at most `s_max_offset`.
-/

namespace Realm

/-- `StringIndex::s_max_offset`: how many bytes the index follows a common prefix. -/
def sMaxOffset : Nat := 200

/-- `StringIndex::s_index_key_length`. -/
def sIndexKeyLength : Nat := 4

namespace StringIndex

/-- `create_key(StringData)`: the first four bytes, the first one the most significant. -/
def keyOfBytes (b : List UInt8) : UInt32 :=
  ((b.getD 0 0).toUInt32 <<< 24) ||| ((b.getD 1 0).toUInt32 <<< 16) |||
    ((b.getD 2 0).toUInt32 <<< 8) ||| (b.getD 3 0).toUInt32

/-- `create_key(str, offset)`: the key of the four bytes from `offset`, a tail of fewer than
four bytes followed by `'X'`; `0` for the null value and past the end. -/
def createKey (str : Option (List UInt8)) (offset : Nat) : UInt32 :=
  match str with
  | none => 0
  | some s =>
    if s.length < offset then 0
    else
      let tail := s.drop offset
      if tail.length ≤ 3 then keyOfBytes (tail ++ [0x58]) else keyOfBytes tail

/-- What a key of a node refers to: one object (a literal, tagged in the low bit of the
ref), a list of objects (an `IntegerColumn`), or a subindex (an array with the context
flag). -/
inductive Slot where
  | row (key : ObjKey)
  | list (keys : List ObjKey)
  | sub (node : List (UInt32 × Slot))
deriving Repr

/-- A node of the index: its keys, in ascending order, with what each refers to. -/
abbrev IndexNode := List (UInt32 × Slot)

/-- The count of levels every recursion of the index runs on: one more than the levels
`s_max_offset` allows. -/
def levels : Nat := sMaxOffset / sIndexKeyLength + 2

/-- `values.lower_bound_int(key)`, and the `lower_bound<32>` of a lookup: where `key` is, or
would be, among the node's keys. -/
def keyPos (node : IndexNode) (key : UInt32) : Nat :=
  LowerBound.lowerBound (fun a b => decide (a < b)) (node.map Prod.fst) key

section Column

variable (col : ObjKey → Mixed)

/-! ## Lists of objects -/

/-- The loop of `SortedListComparator::find_start_of_unsorted` from position `i`: the first
object equal to `value`, else the first greater one seen, else the end. -/
def scanUnsorted (value : Mixed) : List ObjKey → Nat → Option Nat → Nat
  | [], i, firstGreater => firstGreater.getD i
  | k :: ks, i, firstGreater =>
    let cmp := (col k).compare value
    if cmp = 0 then i
    else scanUnsorted value ks (i + 1) (if 0 < cmp ∧ firstGreater.isNone then some i else firstGreater)

/-- `SortedListComparator::find_start_of_unsorted(value, key_values)`.  A list whose first and
last values are equal holds one value only, and is not scanned. -/
def findStartOfUnsorted (value : Mixed) (keys : List ObjKey) : Nat :=
  let first := col (keys.headD ObjKey.null)
  let last := col (keys.getLastD ObjKey.null)
  if 2 ≤ keys.length ∧ first.eq last then
    if value.compare first ≤ 0 then 0 else keys.length
  else scanUnsorted col value keys 0 none

/-- `SortedListComparator::find_end_of_unsorted(value, key_values, begin)`: the end of the run
of objects equal to `value` from `begin`, the whole rest when the last object is equal. -/
def findEndOfUnsorted (value : Mixed) (keys : List ObjKey) (begin : Nat) : Nat :=
  if begin < keys.length ∧ (col (keys.getLastD ObjKey.null)).eq value then keys.length
  else begin + ((keys.drop begin).takeWhile fun k => value.compare (col k) == 0).length

/-- `StringIndex::insert_to_existing_list_at_lower`: `key` joins the run of objects equal to
`value` that starts at `lower`, in key order, unless it is there already. -/
def insertToExistingListAtLower (key : ObjKey) (value : Mixed) (keys : List ObjKey)
    (lower : Nat) : List ObjKey :=
  let upper := findEndOfUnsorted col value keys lower
  let last := keys.getD (upper - 1) ObjKey.null
  if last.value ≤ key.value then keys.insertIdx upper key
  else
    let run := (keys.take upper).drop lower
    let innerLower := lower + LowerBound.lowerBound (fun a b => decide (a.value < b.value)) run key
    if keys[innerLower]? ≠ some key then keys.insertIdx innerLower key else keys

/-- `StringIndex::insert_to_existing_list`. -/
def insertToExistingList (key : ObjKey) (value : Mixed) (keys : List ObjKey) : List ObjKey :=
  let lower := findStartOfUnsorted col value keys
  if lower = keys.length then keys ++ [key]
  else if !(col (keys.getD lower ObjKey.null)).eq value then keys.insertIdx lower key
  else insertToExistingListAtLower col key value keys lower

/-! ## Insertion -/

/-- `StringIndex::insert_row_list(ref, offset, index_data)`: a list moved down into a node, under
the key of its values at `offset`. -/
def insertRowList (node : IndexNode) (keys : List ObjKey) (offset : Nat)
    (indexData : Option (List UInt8)) : IndexNode :=
  let key := createKey indexData offset
  node.insertIdx (keyPos node key) (key, .list keys)

/-- `StringIndex::insert_with_offset`, through `leaf_insert`: index `objKey` with `value`, whose
index data is `indexData`, in the node for the bytes from `offset`. -/
def insertWithOffset : Nat → IndexNode → ObjKey → Option (List UInt8) → Mixed → Nat → IndexNode
  | 0, node, _, _, _, _ => node
  | fuel + 1, node, objKey, indexData, value, offset =>
    let key := createKey indexData offset
    let insPos := keyPos node key
    match node[insPos]? with
    | none => node ++ [(key, .row objKey)]
    | some (k, slot) =>
      if k ≠ key then node.insertIdx insPos (key, .row objKey)
      else
        let suboffset := offset + sIndexKeyLength
        match slot with
        | .row objKey2 =>
          let v2 := col objKey2
          if v2.eq value then
            -- a second object of an indexed value: a list of the two, in key order
            if objKey.value ≠ objKey2.value then
              node.set insPos (key, .list
                (if objKey.value < objKey2.value then [objKey, objKey2] else [objKey2, objKey]))
            else node
          else
            let indexData2 := v2.getIndexData
            if indexData = indexData2 ∨ sMaxOffset < suboffset then
              -- no further bytes tell the two values apart: a list in value order
              node.set insPos (key, .list
                (if value.lt v2 then [objKey, objKey2] else [objKey2, objKey]))
            else
              -- a subindex for the next four bytes, which holds both objects
              let sub := insertWithOffset fuel [] objKey2 indexData2 v2 suboffset
              node.set insPos (key, .sub (insertWithOffset fuel sub objKey indexData value suboffset))
        | .list keys =>
          let lower := findStartOfUnsorted col value keys
          if lower ≠ keys.length ∧ (col (keys.getD lower ObjKey.null)).eq value then
            node.set insPos (key, .list (insertToExistingListAtLower col objKey value keys lower))
          else
            let indexData2 := (col (keys.headD ObjKey.null)).getIndexData
            if indexData = indexData2 ∨ sMaxOffset < suboffset then
              node.set insPos (key, .list (insertToExistingList col objKey value keys))
            else
              -- the list holds one other value: it moves into a subindex beside the object
              let sub := insertRowList [] keys suboffset indexData2
              node.set insPos (key, .sub (insertWithOffset fuel sub objKey indexData value suboffset))
        | .sub sub =>
          node.set insPos (key, .sub (insertWithOffset fuel sub objKey indexData value suboffset))

/-- `StringIndex::insert(key, value)`. -/
def insert (root : IndexNode) (key : ObjKey) (value : Mixed) : IndexNode :=
  insertWithOffset col levels root key value.getIndexData value 0

/-! ## Deletion -/

/-- `StringIndex::do_delete(obj_key, index_data, offset)`: the object leaves the slot its index
data leads to, and a slot left empty leaves its node. -/
def doDelete (objKey : ObjKey) (indexData : Option (List UInt8)) :
    Nat → IndexNode → Nat → IndexNode
  | 0, node, _ => node
  | fuel + 1, node, offset =>
    let key := createKey indexData offset
    let pos := keyPos node key
    match node[pos]? with
    | none => node
    | some (k, slot) =>
      match slot with
      | .row _ => node.eraseIdx pos
      | .sub sub =>
        let sub := doDelete objKey indexData fuel sub (offset + sIndexKeyLength)
        if sub.isEmpty then node.eraseIdx pos else node.set pos (k, .sub sub)
      | .list keys =>
        if keys.length = 1 then node.eraseIdx pos
        else node.set pos (k, .list (keys.eraseIdx (keys.idxOf objKey)))

/-- `StringIndex::erase(key)`: the index data is that of the object's value in the column,
which still holds it. -/
def erase (root : IndexNode) (key : ObjKey) : IndexNode :=
  doDelete key (col key).getIndexData levels root 0

/-- `StringIndex::set(key, new_value)`, called while the column holds the old value: an equal
new value leaves the index as it is. -/
def set (root : IndexNode) (key : ObjKey) (newValue : Mixed) : IndexNode :=
  if newValue.compare (col key) ≠ 0 then insert col (erase col root key) key newValue else root

/-! ## Lookup -/

/-- The descent of `IndexArray::index_string` and `index_string_all`: the object or list under
the keys of `indexData` from `offset`, or `none` where a key is missing. -/
def descend (indexData : Option (List UInt8)) : Nat → IndexNode → Nat → Option Slot
  | 0, _, _ => none
  | fuel + 1, node, offset =>
    let key := createKey indexData offset
    match node[keyPos node key]? with
    | none => none
    | some (storedKey, slot) =>
      if storedKey ≠ key then none
      else
        match slot with
        | .sub sub => descend indexData fuel sub (offset + sIndexKeyLength)
        | s => some s

/-- `IndexArray::from_list<index_FindFirst>`. -/
def fromListFindFirst (value : Mixed) (keys : List ObjKey) : ObjKey :=
  let lower := findStartOfUnsorted col value keys
  if lower = keys.length then ObjKey.null
  else
    let first := keys.getD lower ObjKey.null
    if !(col first).eq value then ObjKey.null else first

/-- `IndexArray::from_list<index_Count>`. -/
def fromListCount (value : Mixed) (keys : List ObjKey) : Nat :=
  let lower := findStartOfUnsorted col value keys
  if lower = keys.length then 0
  else if !(col (keys.getD lower ObjKey.null)).eq value then 0
  else findEndOfUnsorted col value keys lower - lower

/-- `IndexArray::from_list_all`. -/
def fromListAll (value : Mixed) (keys : List ObjKey) : List ObjKey :=
  let lower := findStartOfUnsorted col value keys
  if lower = keys.length then []
  else if !(col (keys.getD lower ObjKey.null)).eq value then []
  else (keys.take (findEndOfUnsorted col value keys lower)).drop lower

/-- `StringIndex::find_first(value)`. -/
def findFirst (root : IndexNode) (value : Mixed) : ObjKey :=
  match descend value.getIndexData levels root 0 with
  | some (.row k) => if (col k).eq value then k else ObjKey.null
  | some (.list keys) => fromListFindFirst col value keys
  | _ => ObjKey.null

/-- `StringIndex::count(value)`. -/
def count (root : IndexNode) (value : Mixed) : Nat :=
  match descend value.getIndexData levels root 0 with
  | some (.row k) => if (col k).eq value then 1 else 0
  | some (.list keys) => fromListCount col value keys
  | _ => 0

/-- `StringIndex::find_all(result, value)`, which is `index_string_all`. -/
def findAll (root : IndexNode) (value : Mixed) : List ObjKey :=
  match descend value.getIndexData levels root 0 with
  | some (.row k) => if (col k).eq value then [k] else []
  | some (.list keys) => fromListAll col value keys
  | _ => []

/-! ## What a lookup returns -/

/-- A key `from_list<index_FindFirst>` returns is one whose value it compared equal. -/
lemma eq_of_fromListFindFirst {value : Mixed} {keys : List ObjKey}
    (h : fromListFindFirst col value keys ≠ ObjKey.null) :
    (col (fromListFindFirst col value keys)).eq value = true := by
  unfold fromListFindFirst at h ⊢
  dsimp only at h ⊢
  split at h
  · exact absurd rfl h
  · rw [if_neg ‹_›]
    split at h
    · exact absurd rfl h
    · rw [if_neg ‹_›]
      simpa using ‹¬(!(col (keys.getD _ ObjKey.null)).eq value) = true›

/-- `find_first` is sound whatever the index holds: a key it returns is one whose value in
the column is `==` to the query, as every path of the lookup confirms. -/
theorem findFirst_sound (root : IndexNode) (value : Mixed)
    (h : findFirst col root value ≠ ObjKey.null) :
    (col (findFirst col root value)).eq value = true := by
  unfold findFirst at h ⊢
  split at h
  · -- a single object, compared before it is returned
    rename_i k _
    split at h
    · simpa [*] using ‹(col k).eq value = true›
    · exact absurd rfl h
  · exact eq_of_fromListFindFirst col h
  · exact absurd rfl h

end Column

end StringIndex

end Realm
