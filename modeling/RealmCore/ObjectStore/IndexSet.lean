import Mathlib
import RealmCore.Lib.LowerBound

/-!
# IndexSet

`IndexSet` (src/realm/object-store/index_set.cpp) keeps a set of indices as sorted half-open
ranges `[first, second)`, stored in a `ChunkedRangeVector`: a vector of chunks, each holding at
most `max_size` ranges (`4` in a debug build, `4096 / sizeof(pair<size_t, size_t>)` in a release
build) and caching the `begin` of its first range, the `end` of its last one and the `count` of
indices in its ranges.  An iterator names a chunk and a range in it; the end iterator names no
chunk.

`find(index)` looks for the first chunk whose `end` is above `index` and then for the first range
in it whose `second` is above `index`.  `add` (`do_add`) extends a range next to the index, joins
two ranges it closes the gap between, or inserts a new range, splitting a full chunk in two
(`ensure_space`) or appending to the last chunk or a new one (`push_back`).

`count(start, end)` first counts from the range that `find(start)` names up to the end of its
chunk, and then counts whole chunks, whole ranges and the last partial range.  The first part
stops at the first range of the next chunk, and when that range already reaches `end` the
function returns without counting it: a set of `max_size + 1` even numbers, built by `add` one
after another, has its last one alone in a second chunk, and counting from the last range of the
first chunk misses it (`count_misses_range_after_chunk`).
-/

namespace Realm

namespace ChunkedRangeVector

/-- A chunk of ranges with its cached bounds and count. -/
structure Chunk where
  data : List (Nat × Nat)
  begin : Nat
  end_ : Nat
  count : Nat
deriving DecidableEq, Repr

/-- `max_size` in a debug build. -/
def maxSizeDebug : Nat := 4

/-- `max_size` in a release build: a chunk of `4096` bytes of `pair<size_t, size_t>`. -/
def maxSizeRelease : Nat := 4096 / 16

/-- An iterator: the range `inner` of the chunk `outer`.  The end iterator has `outer` the
number of chunks and `inner` zero (its `m_inner` is null). -/
structure Iter where
  outer : Nat
  inner : Nat
deriving DecidableEq, Repr

section Model

variable (maxSize : Nat)

/-- The chunk at `i`, or an empty one past the end. -/
def chunkAt (v : List Chunk) (i : Nat) : Chunk := v.getD i ⟨[], 0, 0, 0⟩

/-- `*it`: the range an iterator names. -/
def rangeAt (v : List Chunk) (it : Iter) : Nat × Nat := (chunkAt v it.outer).data.getD it.inner (0, 0)

/-- `end()`. -/
def endIter (v : List Chunk) : Iter := ⟨v.length, 0⟩

/-- `begin()`: the end iterator of an empty vector. -/
def beginIter (v : List Chunk) : Iter := if v.isEmpty then endIter v else ⟨0, 0⟩

/-- `next_chunk()`. -/
def nextChunk (it : Iter) : Iter := ⟨it.outer + 1, 0⟩

/-- `++it`: the next range, in the next chunk after the last range of a chunk. -/
def next (v : List Chunk) (it : Iter) : Iter :=
  if it.inner + 1 = (chunkAt v it.outer).data.length then nextChunk it else ⟨it.outer, it.inner + 1⟩

/-- `--it`: the last range of the chunk before, from the end iterator or a first range. -/
def prev (v : List Chunk) (it : Iter) : Iter :=
  if it.outer = v.length ∨ it.inner = 0 then
    ⟨it.outer - 1, (chunkAt v (it.outer - 1)).data.length - 1⟩
  else ⟨it.outer, it.inner - 1⟩

/-- A `size_t` moved by a `ptrdiff_t`. -/
def addDiff (n : Nat) (d : Int) : Nat := ((n : Int) + d).toNat

/-- `it.adjust(front, back)`: move both ends of the range, and the cached bounds and count of its
chunk when the range is the chunk's first or last. -/
def adjust (v : List Chunk) (it : Iter) (front back : Int) : List Chunk :=
  let c := chunkAt v it.outer
  let r := rangeAt v it
  let c := if it.inner = 0 then { c with begin := addDiff c.begin front } else c
  let c := if it.inner + 1 = c.data.length then { c with end_ := addDiff c.end_ back } else c
  v.set it.outer
    { c with
      count := addDiff c.count (-front + back)
      data := c.data.set it.inner (addDiff r.1 front, addDiff r.2 back) }

/-- `it.shift(distance)`: `adjust` by the same amount at both ends, with the count unchanged. -/
def shift (v : List Chunk) (it : Iter) (distance : Int) : List Chunk :=
  let c := chunkAt v it.outer
  let r := rangeAt v it
  let c := if it.inner = 0 then { c with begin := addDiff c.begin distance } else c
  let c := if it.inner + 1 = c.data.length then { c with end_ := addDiff c.end_ distance } else c
  v.set it.outer { c with data := c.data.set it.inner (addDiff r.1 distance, addDiff r.2 distance) }

/-- `push_back(value)`: into the last chunk while it has room, else into a new chunk. -/
def pushBack (v : List Chunk) (value : Nat × Nat) : List Chunk :=
  match v.getLast? with
  | some last =>
    if last.data.length < maxSize then
      v.set (v.length - 1)
        { last with
          data := last.data ++ [value]
          count := last.count + (value.2 - value.1)
          end_ := value.2 }
    else v ++ [⟨[value], value.1, value.2, value.2 - value.1⟩]
  | none => v ++ [⟨[value], value.1, value.2, value.2 - value.1⟩]

/-- `ensure_space(pos)`: a full chunk gives its last `max_size / 2` ranges to a new chunk after
it, and the iterator follows its range. -/
def ensureSpace (v : List Chunk) (pos : Iter) : List Chunk × Iter :=
  let c := chunkAt v pos.outer
  if c.data.length + 1 ≤ maxSize then (v, pos)
  else
    let toMove := maxSize / 2
    let moved := c.data.drop (c.data.length - toMove)
    let kept := c.data.take (c.data.length - toMove)
    let movedCount := (moved.map fun r => r.2 - r.1).sum
    let prevChunk : Chunk :=
      ⟨kept, c.begin, (kept.getLast?.getD (0, 0)).2, c.count - movedCount⟩
    let newChunk : Chunk :=
      ⟨moved, (moved.head?.getD (0, 0)).1, (moved.getLast?.getD (0, 0)).2, movedCount⟩
    ((v.set pos.outer prevChunk).insertIdx (pos.outer + 1) newChunk,
      if pos.inner ≥ toMove then ⟨pos.outer + 1, pos.inner - toMove⟩ else pos)

/-- `insert(pos, value)`: before `pos`, with the chunk made to have room; at the end it is
`push_back`. -/
def insert (v : List Chunk) (pos : Iter) (value : Nat × Nat) : List Chunk × Iter :=
  if pos.outer = v.length then
    let v := pushBack maxSize v value
    (v, prev v (endIter v))
  else
    let (v, pos) := ensureSpace maxSize v pos
    let c := chunkAt v pos.outer
    (v.set pos.outer
      { c with
        data := c.data.insertIdx pos.inner value
        count := c.count + (value.2 - value.1)
        begin := min c.begin value.1
        end_ := max c.end_ value.2 },
      pos)

/-- `erase(pos)`: a chunk left empty is erased; the iterator moves to the range after. -/
def erase (v : List Chunk) (pos : Iter) : List Chunk × Iter :=
  let c := chunkAt v pos.outer
  let r := rangeAt v pos
  let data := c.data.eraseIdx pos.inner
  if data.length = 0 then (v.eraseIdx pos.outer, ⟨pos.outer, 0⟩)
  else
    let v := v.set pos.outer
      ⟨data, (data.head?.getD (0, 0)).1, (data.getLast?.getD (0, 0)).2, c.count - (r.2 - r.1)⟩
    if pos.inner < data.length then (v, pos) else (v, nextChunk pos)

end Model

end ChunkedRangeVector

namespace IndexSet

open ChunkedRangeVector

section Model

variable (maxSize : Nat)

/-- `std::find_if(begin.outer(), m_data.end(), [&](auto& lft) { return lft.end > index; })`. -/
def findChunk (v : List ChunkedRangeVector.Chunk) (start index : Nat) : Option Nat :=
  ((v.drop start).findIdx? fun c => index < c.end_).map (· + start)

/-- `find(index, begin)`: the first chunk whose `end` is above `index`, and in it the first range
whose `second` is above `index`, from `begin` on. -/
def find (v : List ChunkedRangeVector.Chunk) (index : Nat) (start : Iter) : Iter :=
  match findChunk v start.outer index with
  | none => endIter v
  | some j =>
    let c := chunkAt v j
    if index < c.begin then ⟨j, 0⟩
    else
      let innerBegin := if j = start.outer then start.inner else 0
      ⟨j, innerBegin + LowerBound.lowerBound (fun lft _ => decide (lft.2 ≤ index))
        (c.data.drop innerBegin) (index, index)⟩

/-- `do_add(it, index)`: the index is in the range at `it`, extends the range before it (and
joins it to the range at `it` when that closes the gap), extends the range at `it` down, or is
inserted as a range of its own before `it`. -/
def doAdd (v : List ChunkedRangeVector.Chunk) (it : Iter) (index : Nat) : List ChunkedRangeVector.Chunk × Iter :=
  let moreBefore := it ≠ beginIter v
  let valid := it ≠ endIter v
  let r := rangeAt v it
  if valid ∧ r.1 ≤ index ∧ index < r.2 then (v, it)
  else if moreBefore ∧ (rangeAt v (prev v it)).2 = index then
    let p := prev v it
    let v := adjust v p 0 1
    if valid ∧ (rangeAt v p).2 = (rangeAt v it).1 then
      let v := adjust v p 0 (((rangeAt v it).2 : Int) - (rangeAt v it).1)
      let (v, e) := ChunkedRangeVector.erase v it
      (v, prev v e)
    else (v, p)
  else if valid ∧ r.1 = index + 1 then (adjust v it (-1) 0, it)
  else ChunkedRangeVector.insert maxSize v it (index, index + 1)

/-- `add(index)`. -/
def add (v : List ChunkedRangeVector.Chunk) (index : Nat) : List ChunkedRangeVector.Chunk :=
  (doAdd maxSize v (find v index (beginIter v)) index).1

/-- `IndexSet(std::initializer_list<size_t> values)`: `add` of each value in turn. -/
def ofList (values : List Nat) : List ChunkedRangeVector.Chunk := values.foldl (add maxSize) []

/-- `contains(index)`. -/
def contains (v : List ChunkedRangeVector.Chunk) (index : Nat) : Bool :=
  let it := find v index (beginIter v)
  it ≠ endIter v && (rangeAt v it).1 ≤ index

/-- The indices of the set in order, as `as_indexes()` iterates them. -/
def asIndexes (v : List ChunkedRangeVector.Chunk) : List Nat :=
  v.flatMap fun c => c.data.flatMap fun r => List.range' r.1 (r.2 - r.1)

/-- The number of iterator steps any loop of `count` can take. -/
def fuel (v : List ChunkedRangeVector.Chunk) : Nat := v.length + (v.map fun c => c.data.length).sum

/-- `for (++it; it != end && it->second < end_index && it.offset() != 0; ++it)`: the ranges after
the first one in its chunk. -/
def countInChunk (v : List ChunkedRangeVector.Chunk) (endIndex : Nat) : Nat → Nat → Iter → Nat × Iter
  | 0, ret, it => (ret, it)
  | fuel + 1, ret, it =>
    if it ≠ endIter v ∧ (rangeAt v it).2 < endIndex ∧ it.inner ≠ 0 then
      countInChunk v endIndex fuel (ret + ((rangeAt v it).2 - (rangeAt v it).1)) (next v it)
    else (ret, it)

/-- `while (it != end && it.outer()->end <= end_index)`: whole chunks. -/
def countChunks (v : List ChunkedRangeVector.Chunk) (endIndex : Nat) : Nat → Nat → Iter → Nat × Iter
  | 0, ret, it => (ret, it)
  | fuel + 1, ret, it =>
    if it ≠ endIter v ∧ (chunkAt v it.outer).end_ ≤ endIndex then
      countChunks v endIndex fuel (ret + (chunkAt v it.outer).count) (nextChunk it)
    else (ret, it)

/-- `while (it != end && it->second <= end_index)`: whole ranges of the last chunk. -/
def countRanges (v : List ChunkedRangeVector.Chunk) (endIndex : Nat) : Nat → Nat → Iter → Nat × Iter
  | 0, ret, it => (ret, it)
  | fuel + 1, ret, it =>
    if it ≠ endIter v ∧ (rangeAt v it).2 ≤ endIndex then
      countRanges v endIndex fuel (ret + ((rangeAt v it).2 - (rangeAt v it).1)) (next v it)
    else (ret, it)

/-- The end of `count`: whole chunks, whole ranges, and the last range up to `end_index`. -/
def countRest (v : List ChunkedRangeVector.Chunk) (endIndex ret : Nat) (it : Iter) : Nat :=
  let (ret, it) := countChunks v endIndex (fuel v) ret it
  let (ret, it) := countRanges v endIndex (fuel v) ret it
  if it ≠ endIter v ∧ (rangeAt v it).1 < endIndex then ret + (endIndex - (rangeAt v it).1)
  else ret

/-- `count(start_index, end_index)`. -/
def count (v : List ChunkedRangeVector.Chunk) (startIndex endIndex : Nat) : Nat :=
  let it := find v startIndex (beginIter v)
  let r := rangeAt v it
  if it = endIter v ∨ endIndex ≤ r.1 then 0
  else if endIndex ≤ r.2 then min r.2 endIndex - max r.1 startIndex
  -- the start is in the middle of a chunk: count the rest of that chunk first
  else if startIndex > r.1 ∨ it.inner ≠ 0 then
    let (ret, it) := countInChunk v endIndex (fuel v) (r.2 - max r.1 startIndex) (next v it)
    let ret :=
      if it ≠ endIter v ∧ (rangeAt v it).1 < endIndex ∧ it.inner ≠ 0 then
        ret + (endIndex - (rangeAt v it).1)
      else ret
    if it = endIter v ∨ endIndex ≤ (rangeAt v it).2 then ret
    else countRest v endIndex ret it
  else countRest v endIndex 0 it

end Model

/-! ## Adding past the last range -/

section Add

variable {maxSize : Nat}

/-- An index above the one chunk's `end`, not right after its last range, is pushed back as a
range of its own. -/
lemma add_single_of_gap (c : ChunkedRangeVector.Chunk) {index : Nat} (hend : c.end_ ≤ index)
    (hlast : (c.data.getD (c.data.length - 1) (0, 0)).2 ≠ index) :
    add maxSize [c] index = pushBack maxSize [c] (index, index + 1) := by
  -- `find` gives the end iterator: no chunk ends above the index
  have hfind : find [c] index (beginIter [c]) = endIter [c] := by
    simp [find, findChunk, beginIter, Nat.not_lt.mpr hend]
  have hprev : prev [c] (endIter [c]) = ⟨0, c.data.length - 1⟩ := by
    simp [prev, endIter, chunkAt]
  have hr : (rangeAt [c] ⟨0, c.data.length - 1⟩).2 ≠ index := by
    simpa [rangeAt, chunkAt] using hlast
  simp only [add, hfind, doAdd, hprev, ne_eq, not_true_eq_false, false_and, if_false, hr,
    and_false]
  simp [endIter, ChunkedRangeVector.insert]

lemma add_nil (index : Nat) :
    add maxSize [] index = [⟨[(index, index + 1)], index, index + 1, 1⟩] := by
  simp [add, find, findChunk, doAdd, beginIter, endIter, ChunkedRangeVector.insert, pushBack]

lemma ofList_append_singleton (values : List Nat) (index : Nat) :
    ofList maxSize (values ++ [index]) = add maxSize (ofList maxSize values) index := by
  rw [ofList, List.foldl_append, List.foldl_cons, List.foldl_nil, ofList]

end Add

/-! ## A set of even numbers one chunk too long -/

section Evens

variable {maxSize : Nat}

/-- The ranges `[2 j, 2 j + 1)` for `j < k`. -/
def evenRanges (k : Nat) : List (Nat × Nat) := (List.range k).map fun j => (2 * j, 2 * j + 1)

lemma evenRanges_succ (k : Nat) : evenRanges (k + 1) = evenRanges k ++ [(2 * k, 2 * k + 1)] := by
  rw [evenRanges, List.range_succ, List.map_append, List.map_singleton, evenRanges]

lemma length_evenRanges (k : Nat) : (evenRanges k).length = k := by
  simp [evenRanges]

lemma last_evenRanges {k : Nat} (hk : 1 ≤ k) :
    (evenRanges k).getD ((evenRanges k).length - 1) (0, 0) = (2 * k - 2, 2 * k - 1) := by
  rw [length_evenRanges]
  simp [evenRanges, List.getD_eq_getElem?_getD, show k - 1 < k by omega]
  omega

/-- Adding the even numbers below `2 k`, for `k` up to `max_size`, fills one chunk. -/
lemma ofList_evens : ∀ {k : Nat}, 1 ≤ k → k ≤ maxSize →
    ofList maxSize ((List.range k).map (2 * ·)) = [⟨evenRanges k, 0, 2 * k - 1, k⟩]
  | 0, hk, _ => absurd hk (by decide)
  | 1, _, _ => by simp [ofList, add_nil, evenRanges]
  | k + 2, _, hkm => by
    -- the even number `2 (k + 1)` is past the last range and not next to it
    rw [List.range_succ, List.map_append, List.map_singleton, ofList_append_singleton,
      ofList_evens (by omega) (by omega),
      add_single_of_gap _ (by simp only; omega)
        (by rw [last_evenRanges (by omega)]; simp only; omega)]
    simp only [pushBack, List.getLast?_singleton, length_evenRanges,
      show k + 1 < maxSize by omega, if_true, List.length_singleton, Nat.sub_self, List.set_cons_zero,
      evenRanges_succ (k + 1)]
    rw [show 2 * (k + 1) + 1 = 2 * (k + 2) - 1 by omega,
      show k + 1 + (2 * (k + 2) - 1 - 2 * (k + 1)) = k + 2 by omega]

/-- One more even number starts a second chunk. -/
lemma ofList_evens_succ (hm : 1 ≤ maxSize) :
    ofList maxSize ((List.range (maxSize + 1)).map (2 * ·)) =
      [⟨evenRanges maxSize, 0, 2 * maxSize - 1, maxSize⟩,
        ⟨[(2 * maxSize, 2 * maxSize + 1)], 2 * maxSize, 2 * maxSize + 1, 1⟩] := by
  rw [List.range_succ, List.map_append, List.map_singleton, ofList_append_singleton,
    ofList_evens hm (Nat.le_refl _),
    add_single_of_gap _ (by simp only; omega)
      (by rw [last_evenRanges hm]; simp only; omega)]
  simp only [pushBack, List.getLast?_singleton, length_evenRanges, Nat.lt_irrefl, if_false,
    List.singleton_append]
  rw [show 2 * maxSize + 1 - 2 * maxSize = 1 by omega]

/-- `find` of the first index of the last range of the first chunk names that range. -/
lemma find_evens (hm : 2 ≤ maxSize) :
    find (ofList maxSize ((List.range (maxSize + 1)).map (2 * ·))) (2 * maxSize - 2)
      (beginIter (ofList maxSize ((List.range (maxSize + 1)).map (2 * ·)))) = ⟨0, maxSize - 1⟩ := by
  -- in the first chunk the ranges below the last one end at or below the index
  have hlb : LowerBound.lowerBound (fun lft _ => decide (lft.2 ≤ 2 * maxSize - 2))
      (evenRanges maxSize) (2 * maxSize - 2, 2 * maxSize - 2) = maxSize - 1 := by
    apply LowerBound.lowerBound_eq_of_partition (by rw [length_evenRanges]; omega)
    intro i hi
    simp only [evenRanges, List.getElem_map, List.getElem_range, decide_eq_true_eq]
    omega
  rw [ofList_evens_succ (by omega)]
  simp [find, findChunk, beginIter, chunkAt, List.findIdx?_cons,
    show 2 * maxSize - 2 < 2 * maxSize - 1 by omega, hlb]

/-- The loop over the rest of a chunk does nothing from the first range of a chunk. -/
lemma countInChunk_of_inner_zero (v : List ChunkedRangeVector.Chunk) (endIndex fuel ret outer : Nat) :
    countInChunk v endIndex fuel ret ⟨outer, 0⟩ = (ret, ⟨outer, 0⟩) := by
  cases fuel <;> simp [countInChunk]

/-- `count(2 m - 2, 2 m + 1)` over the even numbers up to `2 m`, built by `add` with chunks of
`m` ranges: the count stops at the first range of the second chunk, which holds `2 m`, and
returns `1` where the set has the two indices `2 m - 2` and `2 m` in that range. -/
theorem count_misses_range_after_chunk (m : Nat) (hm : 2 ≤ m) :
    count (ofList m ((List.range (m + 1)).map (2 * ·))) (2 * m - 2) (2 * m + 1) = 1 ∧
      (asIndexes (ofList m ((List.range (m + 1)).map (2 * ·)))).countP
        (fun x => decide (2 * m - 2 ≤ x ∧ x < 2 * m + 1)) = 2 := by
  constructor
  · rw [count, find_evens hm, ofList_evens_succ (by omega)]
    -- the last range of the first chunk, and after it the one range of the second chunk
    have hr : rangeAt [⟨evenRanges m, 0, 2 * m - 1, m⟩, ⟨[(2 * m, 2 * m + 1)], 2 * m, 2 * m + 1, 1⟩]
        ⟨0, m - 1⟩ = (2 * m - 2, 2 * m - 1) := by
      have := last_evenRanges (show 1 ≤ m by omega)
      rw [length_evenRanges] at this
      simpa [rangeAt, chunkAt] using this
    have hnext : next [⟨evenRanges m, 0, 2 * m - 1, m⟩, ⟨[(2 * m, 2 * m + 1)], 2 * m, 2 * m + 1, 1⟩]
        ⟨0, m - 1⟩ = ⟨1, 0⟩ := by
      simp [next, chunkAt, length_evenRanges, show m - 1 + 1 = m by omega, nextChunk]
    have hr1 : rangeAt [⟨evenRanges m, 0, 2 * m - 1, m⟩, ⟨[(2 * m, 2 * m + 1)], 2 * m, 2 * m + 1, 1⟩]
        ⟨1, 0⟩ = (2 * m, 2 * m + 1) := by
      simp [rangeAt, chunkAt]
    simp only [hr, hnext, hr1, countInChunk_of_inner_zero]
    simp [endIter, show ¬2 * m + 1 ≤ 2 * m - 2 by omega, show ¬2 * m + 1 ≤ 2 * m - 1 by omega,
      show m - 1 ≠ 0 by omega]
    omega
  · -- the set is the even numbers up to `2 m`, and `2 m - 2` and `2 m` are the two in the range
    have hidx : asIndexes (ofList m ((List.range (m + 1)).map (2 * ·))) =
        (List.range (m + 1)).map (2 * ·) := by
      rw [ofList_evens_succ (by omega), asIndexes, List.flatMap_cons, List.flatMap_cons,
        List.flatMap_nil, List.append_nil, List.range_succ, List.map_append]
      simp [evenRanges, List.flatMap_map, ← List.map_eq_flatMap]
    obtain ⟨k, rfl⟩ : ∃ k, m = k + 2 := ⟨m - 2, by omega⟩
    rw [hidx, List.range_succ, List.range_succ, List.map_append, List.map_append,
      List.countP_append, List.countP_append,
      List.countP_eq_zero.mpr fun x hx => by
        obtain ⟨j, hj, rfl⟩ := List.mem_map.mp hx
        simp only [List.mem_range] at hj
        simp only [decide_eq_true_eq]
        omega]
    simp
    omega

/-- The two builds: `{0, 2, 4, 6, 8}` with `max_size = 4` gives `count(6, 9) = 1`, and the even
numbers up to `512` with `max_size = 256` give `count(510, 513) = 1`; each range holds two indices
of the set. -/
theorem count_misses_range_after_chunk_builds :
    (2 ≤ maxSizeDebug ∧ count (ofList maxSizeDebug [0, 2, 4, 6, 8]) 6 9 = 1) ∧
      (2 ≤ maxSizeRelease ∧
        count (ofList maxSizeRelease ((List.range 257).map (2 * ·))) 510 513 = 1) :=
  ⟨⟨by decide, (count_misses_range_after_chunk maxSizeDebug (by decide)).1⟩,
    ⟨by decide, (count_misses_range_after_chunk maxSizeRelease (by decide)).1⟩⟩

end Evens

end IndexSet

end Realm
