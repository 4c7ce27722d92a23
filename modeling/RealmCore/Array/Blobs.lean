import Mathlib
import RealmCore.Lib.RunningTotals
import RealmCore.Array.StringShort

/-!
# `ArraySmallBlobs` and `ArrayBigBlobs`: strings of any length

`ArraySmallBlobs` (src/realm/array_blobs_small.cpp) keeps its values end to end in one blob,
`m_blob`, with where each value ends in `m_offsets` and whether it is null in `m_nulls`.
`ArrayBigBlobs` (src/realm/array_blobs_big.cpp) keeps one blob per value, and ref `0` for a
null.  `ArrayString` uses both for strings, which they store with a zero after them
(`add_zero_term`); a null takes a single zero in the small blobs and nothing in the big ones.

An array `Stored` a list of strings when its blob, offsets and nulls are those of the list.
`add`, `set`, `insert`, `erase` and `truncate` of strings act on that list as the list
operations, `get_string` and `is_null` read it, and `find_first` finds the first position of a
range that holds the value.  In the small blobs the offsets are the running totals of the
sizes of the stored strings, and each write moves the totals after it by the difference of
the sizes (`sum_take_set`, `sum_take_insertIdx`, `sum_take_eraseIdx`); `find_first` walks the
offsets with the start of the current value in a variable, which the loop keeps equal to the
end of the one before (`findLoop_eq`).

Left out: the split form of `ArrayBlob`, which `replace` switches to once a blob would pass
`ArrayBlob::max_binary_size` bytes (the model's blobs have no bound), the assertions of debug
builds, and the `nullable` flag of `ArrayBigBlobs`, which only those read.
-/

namespace Realm

open ArrayStringShort (firstFrom firstFrom_of_lt findFirstSpec)

namespace ArrayBlob

/-- The zero that `add_zero_term` puts after the data. -/
def zeroTerm (addZeroTerm : Bool) : List UInt8 :=
  if addZeroTerm then [0] else []

/-- `ArrayBlob::replace(begin, end, data, data_size, add_zero_term)` on a blob that stays one
blob: the bytes of `[begin, end)` give way to the data and the zero. -/
def replace (blob : List UInt8) (begin stop : Nat) (data : List UInt8) (addZeroTerm : Bool) :
    List UInt8 :=
  blob.take begin ++ (data ++ zeroTerm addZeroTerm) ++ blob.drop stop

end ArrayBlob

/-! ## `ArraySmallBlobs` -/

/-- An `ArraySmallBlobs`: `m_offsets`, the bytes of `m_blob`, and `m_nulls`. -/
structure ArraySmallBlobs where
  offsets : List Nat
  blob : List UInt8
  nulls : List Bool
deriving DecidableEq, Repr

namespace ArraySmallBlobs

/-- `create()`: no values. -/
def create : ArraySmallBlobs := ⟨[], [], []⟩

/-- `size()`, the size of `m_offsets`. -/
def size (a : ArraySmallBlobs) : Nat := a.offsets.length

/-- Where value `ndx` begins in the blob: `ndx ? m_offsets.get(ndx - 1) : 0`. -/
def start (a : ArraySmallBlobs) (ndx : Nat) : Nat :=
  if ndx = 0 then 0 else a.offsets.getD (ndx - 1) 0

/-- `Array::adjust(begin, end, diff)` on `m_offsets`. -/
def adjust (offsets : List Nat) (begin stop : Nat) (diff : Int) : List Nat :=
  offsets.mapIdx fun (i x : Nat) => if begin ≤ i ∧ i < stop then ((x : Int) + diff).toNat else x

/-- The bytes a value takes in the blob, with the zero after it or not. -/
def storedSize (value : StringData) (addZeroTerm : Bool) : Nat :=
  value.size + if addZeroTerm then 1 else 0

/-- `add(value, add_zero_term)`. -/
def add (a : ArraySmallBlobs) (value : StringData) (addZeroTerm : Bool) : ArraySmallBlobs :=
  let stop := storedSize value addZeroTerm
  let stop := if a.offsets.isEmpty then stop else stop + a.offsets.getLastD 0
  { offsets := a.offsets ++ [stop]
    blob := ArrayBlob.replace a.blob a.blob.length a.blob.length value.bytes addZeroTerm
    nulls := a.nulls ++ [value.isNone] }

/-- `set(ndx, value, add_zero_term)`. -/
def set (a : ArraySmallBlobs) (ndx : Nat) (value : StringData) (addZeroTerm : Bool) :
    Except String ArraySmallBlobs := do
  realmAssert (ndx < a.offsets.length) "ndx < m_offsets.size()"
  let start := a.start ndx
  let currentEnd := a.offsets.getD ndx 0
  let diff : Int := ((start + storedSize value addZeroTerm : Nat) : Int) - currentEnd
  return { offsets := adjust a.offsets ndx a.offsets.length diff
           blob := ArrayBlob.replace a.blob start currentEnd value.bytes addZeroTerm
           nulls := a.nulls.set ndx value.isNone }

/-- `insert(ndx, value, add_zero_term)`. -/
def insert (a : ArraySmallBlobs) (ndx : Nat) (value : StringData) (addZeroTerm : Bool) :
    Except String ArraySmallBlobs := do
  realmAssert (ndx ≤ a.offsets.length) "ndx <= m_offsets.size()"
  let pos := a.start ndx
  let stored := storedSize value addZeroTerm
  let offsets := a.offsets.insertIdx ndx (pos + stored)
  return { offsets := adjust offsets (ndx + 1) offsets.length stored
           blob := ArrayBlob.replace a.blob pos pos value.bytes addZeroTerm
           nulls := a.nulls.insertIdx ndx value.isNone }

/-- `erase(ndx)`. -/
def erase (a : ArraySmallBlobs) (ndx : Nat) : Except String ArraySmallBlobs := do
  realmAssert (ndx < a.offsets.length) "ndx < m_offsets.size()"
  let start := a.start ndx
  let stop := a.offsets.getD ndx 0
  let offsets := a.offsets.eraseIdx ndx
  return { offsets := adjust offsets ndx offsets.length ((start : Int) - stop)
           blob := ArrayBlob.replace a.blob start stop [] false
           nulls := a.nulls.eraseIdx ndx }

/-- `get(ndx)`: null, or the bytes from where the value begins to its offset. -/
def get (a : ArraySmallBlobs) (ndx : Nat) : Except String StringData := do
  realmAssert (ndx < a.offsets.length) "ndx < m_offsets.size()"
  if a.nulls.getD ndx false then return none
  let begin := a.start ndx
  let stop := a.offsets.getD ndx 0
  return some ((a.blob.drop begin).take (stop - begin))

/-- `get_string(ndx)`: the value without its terminating zero. -/
def getString (a : ArraySmallBlobs) (ndx : Nat) : Except String StringData := do
  let bin ← a.get ndx
  return bin.map fun b => b.take (b.length - 1)

/-- `is_null(ndx)`. -/
def isNull (a : ArraySmallBlobs) (ndx : Nat) : Except String Bool := do
  realmAssert (ndx < a.nulls.length) "ndx < m_nulls.size()"
  return a.nulls.getD ndx false

/-- `add_string(value)`. -/
def addString (a : ArraySmallBlobs) (value : StringData) : ArraySmallBlobs :=
  a.add value true

/-- `set_string(ndx, value)`. -/
def setString (a : ArraySmallBlobs) (ndx : Nat) (value : StringData) :
    Except String ArraySmallBlobs :=
  a.set ndx value true

/-- `insert_string(ndx, value)`. -/
def insertString (a : ArraySmallBlobs) (ndx : Nat) (value : StringData) :
    Except String ArraySmallBlobs :=
  a.insert ndx value true

/-- `truncate(new_size)`, which keeps no value or fewer than there are: the blob is cut where
the last kept value ends. -/
def truncate (a : ArraySmallBlobs) (newSize : Nat) : Except String ArraySmallBlobs := do
  realmAssert (newSize = 0 ∨ newSize < a.offsets.length)
    "new_size == 0 || new_size < m_offsets.size()"
  let sz := a.start newSize
  return { offsets := a.offsets.take newSize, blob := a.blob.take sz,
           nulls := a.nulls.take newSize }

/-- `clear()`. -/
def clear (_ : ArraySmallBlobs) : ArraySmallBlobs := create

/-- The loop of `find_first` for a value that is not null, from position `i`, whose value
begins at `startOfs`, over `n` positions. -/
def findLoop (a : ArraySmallBlobs) (value : List UInt8) (fullSize : Nat) :
    Nat → Nat → Nat → Option Nat
  | _, _, 0 => none
  | i, startOfs, n + 1 =>
    let endOfs := a.offsets.getD i 0
    if a.nulls.getD i false = false ∧ endOfs - startOfs = fullSize ∧
        (a.blob.drop startOfs).take value.length = value then some i
    else findLoop a value fullSize (i + 1) endOfs n

/-- `find_first(value, is_string, begin, end)`, `none` for `not_found`. -/
def findFirst (a : ArraySmallBlobs) (value : StringData) (isString : Bool) (begin stop : Nat) :
    Except String (Option Nat) := do
  let sz := a.size
  let stop := if stop = npos then sz else stop
  realmAssert (begin ≤ sz ∧ stop ≤ sz ∧ begin ≤ stop) "begin <= sz && end <= sz && begin <= end"
  if value.isNone then
    return firstFrom (fun i => a.nulls.getD i false) begin stop
  -- a string is stored with a zero after it, which the value does not have
  let fullSize := if isString then value.size + 1 else value.size
  return findLoop a value.bytes fullSize begin (a.start begin) (stop - begin)

example : ((create.addString (some [97])).addString none |>.addString (some [])) =
    ⟨[2, 3, 4], [97, 0, 0, 0], [false, true, false]⟩ := by decide

end ArraySmallBlobs

/-! ## `ArrayBigBlobs` -/

/-- An `ArrayBigBlobs`: for each value the bytes of its blob, or `none` for ref `0`. -/
structure ArrayBigBlobs where
  blobs : List (Option (List UInt8))
deriving DecidableEq, Repr

namespace ArrayBigBlobs

/-- `create()`: no values. -/
def create : ArrayBigBlobs := ⟨[]⟩

/-- `size()`. -/
def size (a : ArrayBigBlobs) : Nat := a.blobs.length

/-- The blob that `ArrayBlob::create()` and `add(data, size, add_zero_term)` make. -/
def newBlob (data : List UInt8) (addZeroTerm : Bool) : List UInt8 :=
  ArrayBlob.replace [] 0 0 data addZeroTerm

/-- `add(value, add_zero_term)`. -/
def add (a : ArrayBigBlobs) (value : StringData) (addZeroTerm : Bool) : ArrayBigBlobs :=
  match value with
  | none => ⟨a.blobs ++ [none]⟩
  | some data => ⟨a.blobs ++ [some (newBlob data addZeroTerm)]⟩

/-- `set(ndx, value, add_zero_term)`, by whether the old and the new value are null. -/
def set (a : ArrayBigBlobs) (ndx : Nat) (value : StringData) (addZeroTerm : Bool) :
    Except String ArrayBigBlobs := do
  realmAssert (ndx < a.blobs.length) "ndx < size()"
  match a.blobs.getD ndx none, value with
  | none, none => return a
  | none, some data => return ⟨a.blobs.set ndx (some (newBlob data addZeroTerm))⟩
  | some blob, some data =>
    return ⟨a.blobs.set ndx (some (ArrayBlob.replace blob 0 blob.length data addZeroTerm))⟩
  | some _, none => return ⟨a.blobs.set ndx none⟩

/-- `insert(ndx, value, add_zero_term)`. -/
def insert (a : ArrayBigBlobs) (ndx : Nat) (value : StringData) (addZeroTerm : Bool) :
    Except String ArrayBigBlobs := do
  realmAssert (ndx ≤ a.blobs.length) "ndx <= size()"
  match value with
  | none => return ⟨a.blobs.insertIdx ndx none⟩
  | some data => return ⟨a.blobs.insertIdx ndx (some (newBlob data addZeroTerm))⟩

/-- `erase(ndx)`, through `Array::erase`, whose move of the refs after `ndx` asserts that they
are in the array. -/
def erase (a : ArrayBigBlobs) (ndx : Nat) : Except String ArrayBigBlobs := do
  realmAssert (ndx + 1 ≤ a.blobs.length) "begin <= end"
  return ⟨a.blobs.eraseIdx ndx⟩

/-- `get(ndx)`: null for ref `0`, and otherwise the blob. -/
def get (a : ArrayBigBlobs) (ndx : Nat) : StringData :=
  a.blobs.getD ndx none

/-- `get_string(ndx)`: the value without its terminating zero. -/
def getString (a : ArrayBigBlobs) (ndx : Nat) : StringData :=
  (a.get ndx).map fun b => b.take (b.length - 1)

/-- `is_null(ndx)`: the ref is `0`. -/
def isNull (a : ArrayBigBlobs) (ndx : Nat) : Bool :=
  (a.blobs.getD ndx none).isNone

/-- `add_string(value)`. -/
def addString (a : ArrayBigBlobs) (value : StringData) : ArrayBigBlobs :=
  a.add value true

/-- `set_string(ndx, value)`. -/
def setString (a : ArrayBigBlobs) (ndx : Nat) (value : StringData) :
    Except String ArrayBigBlobs :=
  a.set ndx value true

/-- `insert_string(ndx, value)`. -/
def insertString (a : ArrayBigBlobs) (ndx : Nat) (value : StringData) :
    Except String ArrayBigBlobs :=
  a.insert ndx value true

/-- `truncate(new_size)`, by `Array::truncate_and_destroy_children`. -/
def truncate (a : ArrayBigBlobs) (newSize : Nat) : Except String ArrayBigBlobs := do
  realmAssert (newSize ≤ a.blobs.length) "new_size <= m_size"
  return ⟨a.blobs.take newSize⟩

/-- `clear()`. -/
def clear (_ : ArrayBigBlobs) : ArrayBigBlobs := create

/-- `find_first(value, is_string, begin, end)`, `none` for `not_found`. -/
def findFirst (a : ArrayBigBlobs) (value : StringData) (isString : Bool) (begin stop : Nat) :
    Except String (Option Nat) := do
  let stop := if stop = npos then a.blobs.length else stop
  realmAssert (begin ≤ a.blobs.length ∧ stop ≤ a.blobs.length ∧ begin ≤ stop)
    "begin <= m_size && end <= m_size && begin <= end"
  let valueSize := value.size
  let fullSize := if isString then valueSize + 1 else valueSize
  if value.isNone then
    return firstFrom (fun i => (a.blobs.getD i none).isNone) begin stop
  return firstFrom (fun i => match a.blobs.getD i none with
    | none => false
    | some blob => blob.length = fullSize ∧ blob.take valueSize = value.bytes) begin stop

end ArrayBigBlobs

/-! ## The strings the small blobs store -/

namespace ArraySmallBlobs

/-- The bytes a stored string takes: the string and a zero, and for null a single zero. -/
def block (v : StringData) : List UInt8 := v.bytes ++ [0]

/-- The numbers of bytes the stored strings take. -/
def blockSizes (xs : List StringData) : List Nat := xs.map fun v => v.size + 1

/-- The blob, the offsets and the nulls of `a` are those of the strings `xs`. -/
structure Stored (a : ArraySmallBlobs) (xs : List StringData) : Prop where
  nulls_eq : a.nulls = xs.map Option.isNone
  blob_eq : a.blob = (xs.map block).flatten
  length_eq : a.offsets.length = xs.length
  offsets_eq : ∀ j (hj : j < a.offsets.length), a.offsets[j] = ((blockSizes xs).take (j + 1)).sum

@[simp] lemma length_block (v : StringData) : (block v).length = v.size + 1 := by
  simp [block]

@[simp] lemma length_blockSizes (xs : List StringData) : (blockSizes xs).length = xs.length := by
  simp [blockSizes]

@[simp] lemma storedSize_true (v : StringData) : storedSize v true = v.size + 1 := rfl

lemma blockSizes_set (xs : List StringData) (i : Nat) (v : StringData) :
    blockSizes (xs.set i v) = (blockSizes xs).set i (v.size + 1) :=
  List.map_set ..

lemma blockSizes_insertIdx (xs : List StringData) (i : Nat) (v : StringData) :
    blockSizes (xs.insertIdx i v) = (blockSizes xs).insertIdx i (v.size + 1) :=
  List.map_insertIdx ..

lemma blockSizes_eraseIdx (xs : List StringData) (i : Nat) :
    blockSizes (xs.eraseIdx i) = (blockSizes xs).eraseIdx i :=
  (List.eraseIdx_map ..).symm

lemma length_flatten_take_blocks (xs : List StringData) (i : Nat) :
    ((xs.map block).take i).flatten.length = ((blockSizes xs).take i).sum := by
  rw [List.length_flatten_take, List.map_map]
  simp only [blockSizes, Function.comp_def, length_block]

lemma sum_take_succ_blockSizes {xs : List StringData} {i : Nat} (hi : i < xs.length) :
    ((blockSizes xs).take (i + 1)).sum = ((blockSizes xs).take i).sum + (xs[i].size + 1) := by
  rw [List.sum_take_succ _ _ (by simpa [blockSizes] using hi)]
  simp [blockSizes]

/-- `sum_take_set` for the sizes of stored strings. -/
lemma sum_take_blockSizes_set {xs : List StringData} {i m : Nat} (v : StringData)
    (hi : i < xs.length) (hm : i < m) :
    ((blockSizes (xs.set i v)).take m).sum + (xs[i].size + 1) =
      ((blockSizes xs).take m).sum + (v.size + 1) := by
  have h := List.sum_take_set (blockSizes xs) (v.size + 1) (by simpa [blockSizes] using hi) hm
  simpa [blockSizes, List.map_set] using h

/-- `sum_take_insertIdx` for the sizes of stored strings. -/
lemma sum_take_blockSizes_insertIdx {xs : List StringData} {i m : Nat} (v : StringData)
    (hi : i ≤ xs.length) (hm : i < m) :
    ((blockSizes (xs.insertIdx i v)).take m).sum = ((blockSizes xs).take (m - 1)).sum + (v.size + 1) := by
  have h := List.sum_take_insertIdx (blockSizes xs) (v.size + 1) (by simpa [blockSizes] using hi) hm
  simpa [blockSizes, List.map_insertIdx] using h

/-- `sum_take_eraseIdx` for the sizes of stored strings. -/
lemma sum_take_blockSizes_eraseIdx {xs : List StringData} {i m : Nat} (hi : i < xs.length)
    (hm : i ≤ m) :
    ((blockSizes (xs.eraseIdx i)).take m).sum + (xs[i].size + 1) =
      ((blockSizes xs).take (m + 1)).sum := by
  have h := List.sum_take_eraseIdx (blockSizes xs) (by simpa [blockSizes] using hi) hm
  simpa [blockSizes, List.eraseIdx_map] using h

@[simp] lemma length_adjust (offsets : List Nat) (begin stop : Nat) (diff : Int) :
    (adjust offsets begin stop diff).length = offsets.length := by
  simp [adjust]

@[simp] lemma start_zero (a : ArraySmallBlobs) : a.start 0 = 0 := rfl

lemma start_succ (a : ArraySmallBlobs) (i : Nat) : a.start (i + 1) = a.offsets.getD i 0 := by
  simp [start]

section Stored

variable {a : ArraySmallBlobs} {xs : List StringData}

lemma getD_offsets (hs : a.Stored xs) {i : Nat} (hi : i < xs.length) :
    a.offsets.getD i 0 = ((blockSizes xs).take (i + 1)).sum := by
  have hlt : i < a.offsets.length := by rw [hs.length_eq]; exact hi
  rw [List.getD_eq_getElem?_getD, List.getElem?_eq_getElem hlt, Option.getD_some,
    hs.offsets_eq _ hlt]

/-- Where a value begins: after the values before it. -/
lemma start_eq (hs : a.Stored xs) {i : Nat} (hi : i ≤ xs.length) :
    a.start i = ((blockSizes xs).take i).sum := by
  cases i with
  | zero => rfl
  | succ i => rw [start_succ, getD_offsets hs (by omega)]

lemma getD_nulls (hs : a.Stored xs) {i : Nat} (hi : i < xs.length) :
    a.nulls.getD i false = xs[i].isNone := by
  rw [hs.nulls_eq, List.getD_eq_getElem?_getD, List.getElem?_map, List.getElem?_eq_getElem hi]
  rfl

lemma flatten_blocks_split (xs : List StringData) (i : Nat) :
    (xs.map block).flatten = ((xs.map block).take i).flatten ++ ((xs.map block).drop i).flatten := by
  rw [← List.flatten_append, List.take_append_drop]

/-- The blob up to where a value begins holds the values before it. -/
lemma take_start (hs : a.Stored xs) {i : Nat} (hi : i ≤ xs.length) :
    a.blob.take (a.start i) = ((xs.map block).take i).flatten := by
  rw [start_eq hs hi, ← length_flatten_take_blocks, hs.blob_eq, flatten_blocks_split xs i,
    List.take_left]

/-- The blob from where a value begins holds it and the values after it. -/
lemma drop_start (hs : a.Stored xs) {i : Nat} (hi : i ≤ xs.length) :
    a.blob.drop (a.start i) = ((xs.map block).drop i).flatten := by
  rw [start_eq hs hi, ← length_flatten_take_blocks, hs.blob_eq, flatten_blocks_split xs i,
    List.drop_left]

/-- A value reads as its block, or as null. -/
theorem get_eq (hs : a.Stored xs) {i : Nat} (hi : i < xs.length) :
    a.get i = .ok (xs[i].map fun s => s ++ [0]) := by
  have hi' : i < a.offsets.length := by rw [hs.length_eq]; exact hi
  have hlen : i < (xs.map block).length := by simpa using hi
  unfold get
  simp only [realmAssert, if_pos hi', bind, Except.bind, pure, Except.pure, getD_nulls hs hi]
  rw [drop_start hs (Nat.le_of_lt hi), getD_offsets hs hi, start_eq hs (Nat.le_of_lt hi),
    sum_take_succ_blockSizes hi, List.drop_eq_getElem_cons hlen, List.flatten_cons,
    List.getElem_map, Nat.add_sub_cancel_left]
  cases xs[i] with
  | none => rfl
  | some s =>
    simp only [Option.isNone_some, Bool.false_eq_true, if_false, Option.map_some]
    rw [List.take_left' (length_block _)]
    rfl

/-- `get_string` reads the stored string. -/
theorem getString_eq (hs : a.Stored xs) {i : Nat} (hi : i < xs.length) :
    a.getString i = .ok xs[i] := by
  unfold getString
  rw [get_eq hs hi]
  cases xs[i] <;> simp [bind, Except.bind, pure, Except.pure]

theorem isNull_eq (hs : a.Stored xs) {i : Nat} (hi : i < xs.length) :
    a.isNull i = .ok xs[i].isNone := by
  have hi' : i < a.nulls.length := by simpa [hs.nulls_eq] using hi
  unfold isNull
  simp only [realmAssert, if_pos hi', bind, Except.bind, pure, Except.pure, getD_nulls hs hi]

/-- `add_string` stores the string after the others. -/
theorem addString_stored (hs : a.Stored xs) (v : StringData) :
    (a.addString v).Stored (xs ++ [v]) := by
  refine ⟨by simp [addString, add, hs.nulls_eq], ?_, by simp [addString, add, hs.length_eq], ?_⟩
  · simp only [addString, add, ArrayBlob.replace, ArrayBlob.zeroTerm, if_true, hs.blob_eq,
      List.take_length, List.drop_length, List.append_nil]
    simp [block]
  intro j hj
  simp only [addString, add, List.length_append, List.length_cons, List.length_nil] at hj
  have hbs : blockSizes (xs ++ [v]) = blockSizes xs ++ [v.size + 1] := by simp [blockSizes]
  simp only [addString, add]
  rcases Nat.lt_or_ge j a.offsets.length with hjlt | hjge
  · -- an offset that was there keeps its value
    rw [List.getElem_append_left hjlt, hs.offsets_eq _ hjlt, hbs,
      List.take_append_of_le_length (by simp [hs.length_eq] at hjlt ⊢; omega)]
  · -- the new offset is the end of the blob
    have hj' : j = a.offsets.length := by omega
    subst hj'
    rw [List.getElem_append_right (Nat.le_refl _), hbs, List.take_of_length_le (by simp [hs.length_eq]),
      List.sum_append]
    simp only [Nat.sub_self, List.getElem_cons_zero, storedSize, if_true, List.sum_cons,
      List.sum_nil, Nat.add_zero]
    cases ho : a.offsets with
    | nil =>
      have : xs = [] := List.eq_nil_of_length_eq_zero (by rw [← hs.length_eq, ho]; rfl)
      simp [this, blockSizes]
    | cons o os =>
      have hlast : a.offsets.getLastD 0 = ((blockSizes xs).take xs.length).sum := by
        have hlt : a.offsets.length - 1 < a.offsets.length := by rw [ho]; simp
        rw [List.getLastD_eq_getLast?, List.getLast?_eq_getElem?, List.getElem?_eq_getElem hlt,
          Option.getD_some, hs.offsets_eq _ hlt, hs.length_eq,
          Nat.sub_add_cancel (by rw [← hs.length_eq, ho]; simp)]
      rw [← ho, hlast, List.take_of_length_le (by simp [blockSizes])]
      simp [ho]
      omega

/-- `set_string` stores the string in place of the one at the position. -/
theorem setString_stored (hs : a.Stored xs) {i : Nat} (hi : i < xs.length) (v : StringData) :
    ∃ a', a.setString i v = .ok a' ∧ a'.Stored (xs.set i v) := by
  have hi' : i < a.offsets.length := by rw [hs.length_eq]; exact hi
  unfold setString set
  simp only [realmAssert, if_pos hi', bind, Except.bind, pure, Except.pure]
  refine ⟨_, rfl, by rw [hs.nulls_eq, List.map_set], ?_, by simp [hs.length_eq], ?_⟩
  · -- the blob around the value: the values before it, the new value, the values after it
    rw [ArrayBlob.replace, take_start hs (Nat.le_of_lt hi), ← start_succ, drop_start hs hi,
      List.map_set, List.flatten_set_around _ (by simpa using hi)]
    rfl
  intro j hj
  have hj' : j < a.offsets.length := by simpa using hj
  simp only [adjust, List.getElem_mapIdx, hs.offsets_eq _ hj', start_eq hs (Nat.le_of_lt hi),
    getD_offsets hs hi, sum_take_succ_blockSizes hi, storedSize_true]
  split_ifs with hij
  · -- from the position on, the offsets move by the difference of the sizes
    have := sum_take_blockSizes_set v hi (m := j + 1) (by omega)
    omega
  · rw [blockSizes_set, List.take_set_of_le (by omega)]

/-- `insert_string` stores the string at the position and moves the others up. -/
theorem insertString_stored (hs : a.Stored xs) {i : Nat} (hi : i ≤ xs.length) (v : StringData) :
    ∃ a', a.insertString i v = .ok a' ∧ a'.Stored (xs.insertIdx i v) := by
  have hi' : i ≤ a.offsets.length := by rw [hs.length_eq]; exact hi
  unfold insertString insert
  simp only [realmAssert, if_pos hi', bind, Except.bind, pure, Except.pure]
  refine ⟨_, rfl, by rw [hs.nulls_eq, List.map_insertIdx], ?_, ?_, ?_⟩
  · rw [ArrayBlob.replace, take_start hs hi, drop_start hs hi, List.map_insertIdx,
      List.flatten_insertIdx_around _ (by simpa using hi)]
    rfl
  · simp [List.length_insertIdx_of_le_length hi', List.length_insertIdx_of_le_length hi,
      hs.length_eq]
  intro j hj
  have hlen : (a.offsets.insertIdx i (a.start i + storedSize v true)).length =
      a.offsets.length + 1 := List.length_insertIdx_of_le_length hi' _
  have hj' : j < a.offsets.length + 1 := by
    rw [← hlen]
    simpa only [length_adjust] using hj
  simp only [adjust, List.getElem_mapIdx, List.getElem_insertIdx, start_eq hs hi, storedSize_true]
  by_cases hji : j < i
  · -- below the position nothing moves
    rw [dif_pos hji, if_neg (by omega), hs.offsets_eq, blockSizes_insertIdx,
      List.take_insertIdx_eq_take_of_le _ _ _ _ (by omega)]
  by_cases hjeq : j = i
  · -- the new offset: the end of the new value
    subst hjeq
    rw [dif_neg hji, dif_pos rfl, if_neg (by omega), sum_take_blockSizes_insertIdx v hi (by omega),
      Nat.add_sub_cancel]
  · -- above the position, the offsets of the values moved up, moved by the new size
    have hj1 : j - 1 < a.offsets.length := by omega
    rw [dif_neg hji, dif_neg hjeq,
      if_pos ⟨by omega, by rw [List.length_insertIdx_of_le_length hi']; omega⟩, hs.offsets_eq _ hj1,
      sum_take_blockSizes_insertIdx v hi (by omega), Nat.add_sub_cancel,
      Nat.sub_add_cancel (by omega)]
    omega

/-- `erase` removes the string at the position. -/
theorem erase_stored (hs : a.Stored xs) {i : Nat} (hi : i < xs.length) :
    ∃ a', a.erase i = .ok a' ∧ a'.Stored (xs.eraseIdx i) := by
  have hi' : i < a.offsets.length := by rw [hs.length_eq]; exact hi
  unfold erase
  simp only [realmAssert, if_pos hi', bind, Except.bind, pure, Except.pure]
  refine ⟨_, rfl, by rw [hs.nulls_eq, List.eraseIdx_map], ?_, ?_, ?_⟩
  · rw [ArrayBlob.replace, take_start hs (Nat.le_of_lt hi), ← start_succ, drop_start hs hi,
      ← List.eraseIdx_map, List.flatten_eraseIdx_around]
    simp [ArrayBlob.zeroTerm]
  · simp [List.length_eraseIdx_of_lt hi', List.length_eraseIdx_of_lt hi, hs.length_eq]
  intro j hj
  have hj' : j < a.offsets.length - 1 := by simpa [List.length_eraseIdx_of_lt hi'] using hj
  simp only [adjust, List.getElem_mapIdx, List.getElem_eraseIdx, start_eq hs (Nat.le_of_lt hi),
    getD_offsets hs hi, sum_take_succ_blockSizes hi]
  by_cases hji : j < i
  · rw [dif_pos hji, if_neg (by omega), hs.offsets_eq, blockSizes_eraseIdx,
      List.take_eraseIdx_eq_take_of_le _ _ _ (by omega)]
  · -- from the position on, the offsets of the values moved down, less the erased size
    rw [dif_neg hji, if_pos ⟨by omega, by simp [List.length_eraseIdx_of_lt hi']; omega⟩,
      hs.offsets_eq]
    have := sum_take_blockSizes_eraseIdx hi (m := j + 1) (by omega)
    omega

/-- `truncate` keeps the strings below the new size. -/
theorem truncate_stored (hs : a.Stored xs) {m : Nat} (hm : m = 0 ∨ m < xs.length) :
    ∃ a', a.truncate m = .ok a' ∧ a'.Stored (xs.take m) := by
  have hm' : m = 0 ∨ m < a.offsets.length := by rw [hs.length_eq]; exact hm
  have hle : m ≤ xs.length := by omega
  unfold truncate
  simp only [realmAssert, if_pos hm', bind, Except.bind, pure, Except.pure]
  refine ⟨_, rfl, by rw [hs.nulls_eq, List.map_take], ?_, by simp [hs.length_eq], ?_⟩
  · rw [take_start hs hle, List.map_take]
  intro j hj
  have hjm : j < m := by simp at hj; omega
  rw [List.getElem_take, hs.offsets_eq, blockSizes, blockSizes, List.map_take, List.take_take,
    Nat.min_eq_left (by omega)]

theorem create_stored : create.Stored [] :=
  ⟨rfl, rfl, rfl, fun _ hj => absurd hj (Nat.not_lt_zero _)⟩

/-- The test of the loop of `find_first` at a position, where the value begins: not null, of
the size of the string with its zero, and with its bytes. -/
lemma loopTest_iff (hs : a.Stored xs) {i : Nat} (hi : i < xs.length) (t : List UInt8) :
    (a.nulls.getD i false = false ∧ a.offsets.getD i 0 - a.start i = t.length + 1 ∧
      (a.blob.drop (a.start i)).take t.length = t) ↔ xs[i] = some t := by
  have hlen : i < (xs.map block).length := by simpa using hi
  rw [drop_start hs (Nat.le_of_lt hi), getD_nulls hs hi, getD_offsets hs hi,
    start_eq hs (Nat.le_of_lt hi), sum_take_succ_blockSizes hi, Nat.add_sub_cancel_left,
    List.drop_eq_getElem_cons hlen, List.flatten_cons, List.getElem_map]
  cases xs[i] with
  | none => simp
  | some u =>
    simp only [Option.isNone_some, true_and, StringData.size_some, Nat.add_right_cancel_iff,
      Option.some.injEq, block, StringData.bytes_some, List.append_assoc]
    constructor
    · rintro ⟨hut, htake⟩
      rwa [← hut, List.take_left] at htake
    · rintro rfl
      exact ⟨rfl, List.take_left⟩

/-- The loop of `find_first` for a string finds the first position of its range that holds
the string: each round starts where the value before it ended. -/
theorem findLoop_eq (hs : a.Stored xs) (t : List UInt8) :
    ∀ n i, i + n ≤ xs.length →
      a.findLoop t (t.length + 1) i (a.start i) n =
        firstFrom (fun j => decide (xs[j]? = some (some t))) i (i + n)
  | 0, i, _ => by
    simp [findLoop, firstFrom]
  | n + 1, i, h => by
    have hi : i < xs.length := by omega
    have ih := findLoop_eq hs t n (i + 1) (by omega)
    rw [start_succ, show i + 1 + n = i + (n + 1) by omega] at ih
    simp only [findLoop]
    rw [firstFrom_of_lt _ (show i < i + (n + 1) by omega), ih, List.getElem?_eq_getElem hi]
    by_cases hx : xs[i] = some t
    · rw [if_pos ((loopTest_iff hs hi t).mpr hx), if_pos (by simp [hx])]
    · rw [if_neg (mt (loopTest_iff hs hi t).mp hx), if_neg (by simp [hx])]

/-- `find_first` of a string finds the first position of the range that holds it, and of null
the first null. -/
theorem findFirst_eq (hs : a.Stored xs) (value : StringData) {begin stop : Nat}
    (hrange : begin ≤ (if stop = npos then xs.length else stop))
    (hstop : (if stop = npos then xs.length else stop) ≤ xs.length) :
    a.findFirst value true begin stop = .ok (findFirstSpec xs value begin stop) := by
  have hsize : a.size = xs.length := hs.length_eq
  unfold findFirst findFirstSpec
  simp only [hsize]
  generalize (if stop = npos then xs.length else stop) = e at hrange hstop ⊢
  simp only [realmAssert, if_pos (show begin ≤ xs.length ∧ e ≤ xs.length ∧ begin ≤ e by omega),
    bind, Except.bind, pure, Except.pure]
  cases value with
  | none =>
    -- a null is found by `m_nulls`
    simp only [Option.isNone_none, if_true]
    congr 1
    refine ArrayStringShort.firstFrom_congr fun i _ hi => ?_
    rw [getD_nulls hs (by omega), List.getElem?_eq_getElem (by omega)]
    cases xs[i] <;> simp
  | some t =>
    simp only [Option.isNone_some, Bool.false_eq_true, if_false, if_true, StringData.size_some,
      StringData.bytes_some]
    rw [findLoop_eq hs t (e - begin) begin (by omega), Nat.add_sub_cancel' hrange]

end Stored

end ArraySmallBlobs

/-! ## The strings the big blobs store -/

namespace ArrayBigBlobs

/-- The blob of a stored string: the string and a zero; a null has none. -/
def blobOf (v : StringData) : Option (List UInt8) := v.map fun s => s ++ [0]

/-- The blobs of `a` are those of the strings `xs`. -/
structure Stored (a : ArrayBigBlobs) (xs : List StringData) : Prop where
  blobs_eq : a.blobs = xs.map blobOf

@[simp] lemma newBlob_true (s : List UInt8) : newBlob s true = s ++ [0] := by
  simp [newBlob, ArrayBlob.replace, ArrayBlob.zeroTerm]

/-- A string and its zero, cut to the length of a string, are that string exactly when the
lengths agree. -/
lemma blob_matches_iff (u t : List UInt8) :
    ((u ++ [0]).length = t.length + 1 ∧ (u ++ [0]).take t.length = t) ↔ u = t := by
  rw [List.length_append, List.length_singleton, Nat.add_right_cancel_iff]
  constructor
  · rintro ⟨hut, htake⟩
    rwa [← hut, List.take_left] at htake
  · rintro rfl
    exact ⟨rfl, List.take_left⟩

section Stored

variable {a : ArrayBigBlobs} {xs : List StringData}

lemma length_blobs (hs : a.Stored xs) : a.blobs.length = xs.length := by
  simp [hs.blobs_eq]

lemma getD_blobs (hs : a.Stored xs) {i : Nat} (hi : i < xs.length) :
    a.blobs.getD i none = blobOf xs[i] := by
  rw [hs.blobs_eq, List.getD_eq_getElem?_getD, List.getElem?_map, List.getElem?_eq_getElem hi]
  rfl

/-- `get_string` reads the stored string. -/
theorem getString_eq (hs : a.Stored xs) {i : Nat} (hi : i < xs.length) :
    a.getString i = xs[i] := by
  unfold getString get
  rw [getD_blobs hs hi]
  cases xs[i] <;> simp [blobOf]

theorem isNull_eq (hs : a.Stored xs) {i : Nat} (hi : i < xs.length) :
    a.isNull i = xs[i].isNone := by
  unfold isNull
  rw [getD_blobs hs hi]
  cases xs[i] <;> rfl

theorem create_stored : create.Stored [] := ⟨rfl⟩

/-- `add_string` stores the string after the others. -/
theorem addString_stored (hs : a.Stored xs) (v : StringData) :
    (a.addString v).Stored (xs ++ [v]) := by
  constructor
  cases v <;> simp [addString, add, hs.blobs_eq, blobOf]

/-- `set_string` stores the string in place of the one at the position, in each of the four
cases of the source: from null or a blob, to null or a string. -/
theorem setString_stored (hs : a.Stored xs) {i : Nat} (hi : i < xs.length) (v : StringData) :
    ∃ a', a.setString i v = .ok a' ∧ a'.Stored (xs.set i v) := by
  have hi' : i < a.blobs.length := by rw [length_blobs hs]; exact hi
  unfold setString set
  simp only [realmAssert, if_pos hi', bind, Except.bind, getD_blobs hs hi]
  cases hx : xs[i] with
  | none =>
    cases v with
    | none => exact ⟨a, rfl, by rw [← hx, List.set_getElem_self]; exact hs⟩
    | some s => exact ⟨_, rfl, ⟨by simp [hs.blobs_eq, List.map_set, blobOf]⟩⟩
  | some old =>
    cases v with
    | none => exact ⟨_, rfl, ⟨by simp [hs.blobs_eq, List.map_set, blobOf]⟩⟩
    | some s =>
      exact ⟨_, rfl, ⟨by simp [hs.blobs_eq, List.map_set, blobOf, ArrayBlob.replace,
        ArrayBlob.zeroTerm]⟩⟩

/-- `insert_string` stores the string at the position and moves the others up. -/
theorem insertString_stored (hs : a.Stored xs) {i : Nat} (hi : i ≤ xs.length) (v : StringData) :
    ∃ a', a.insertString i v = .ok a' ∧ a'.Stored (xs.insertIdx i v) := by
  have hi' : i ≤ a.blobs.length := by rw [length_blobs hs]; exact hi
  unfold insertString insert
  simp only [realmAssert, if_pos hi', bind, Except.bind]
  cases v with
  | none => exact ⟨_, rfl, ⟨by rw [hs.blobs_eq, List.map_insertIdx]; rfl⟩⟩
  | some s => exact ⟨_, rfl, ⟨by simp [hs.blobs_eq, List.map_insertIdx, blobOf]⟩⟩

/-- `erase` removes the string at the position. -/
theorem erase_stored (hs : a.Stored xs) {i : Nat} (hi : i < xs.length) :
    ∃ a', a.erase i = .ok a' ∧ a'.Stored (xs.eraseIdx i) := by
  have hi' : i + 1 ≤ a.blobs.length := by rw [length_blobs hs]; exact hi
  unfold erase
  simp only [realmAssert, if_pos hi', bind, Except.bind, pure, Except.pure]
  exact ⟨_, rfl, ⟨by rw [hs.blobs_eq, List.eraseIdx_map]⟩⟩

/-- `truncate` keeps the strings below the new size. -/
theorem truncate_stored (hs : a.Stored xs) {m : Nat} (hm : m ≤ xs.length) :
    ∃ a', a.truncate m = .ok a' ∧ a'.Stored (xs.take m) := by
  have hm' : m ≤ a.blobs.length := by rw [length_blobs hs]; exact hm
  unfold truncate
  simp only [realmAssert, if_pos hm', bind, Except.bind, pure, Except.pure]
  exact ⟨_, rfl, ⟨by rw [hs.blobs_eq, List.map_take]⟩⟩

/-- `find_first` of a string finds the first position of the range that holds it, and of null
the first null. -/
theorem findFirst_eq (hs : a.Stored xs) (value : StringData) {begin stop : Nat}
    (hrange : begin ≤ (if stop = npos then xs.length else stop))
    (hstop : (if stop = npos then xs.length else stop) ≤ xs.length) :
    a.findFirst value true begin stop = .ok (findFirstSpec xs value begin stop) := by
  unfold findFirst findFirstSpec
  simp only [length_blobs hs]
  generalize (if stop = npos then xs.length else stop) = e at hrange hstop ⊢
  simp only [realmAssert, if_pos (show begin ≤ xs.length ∧ e ≤ xs.length ∧ begin ≤ e by omega),
    bind, Except.bind, pure, Except.pure]
  cases value with
  | none =>
    simp only [Option.isNone_none, if_true]
    congr 1
    refine ArrayStringShort.firstFrom_congr fun i _ hi => ?_
    rw [getD_blobs hs (by omega), List.getElem?_eq_getElem (by omega)]
    cases xs[i] <;> rfl
  | some t =>
    simp only [Option.isNone_some, Bool.false_eq_true, if_false, if_true, StringData.size_some,
      StringData.bytes_some]
    congr 1
    refine ArrayStringShort.firstFrom_congr fun i _ hi => ?_
    rw [getD_blobs hs (by omega), List.getElem?_eq_getElem (by omega)]
    cases xs[i] with
    | none => simp [blobOf]
    | some u =>
      simp only [blobOf, Option.map_some, Option.some.injEq]
      exact decide_eq_decide.mpr (blob_matches_iff u t)

end Stored

end ArrayBigBlobs

end Realm
