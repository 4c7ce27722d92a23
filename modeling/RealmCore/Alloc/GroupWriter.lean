import Mathlib
import RealmCore.Lib.Chunk
import RealmCore.Lib.MultiMap
import RealmCore.Alloc.Sections

/-!
# The free space of a commit

A commit writes its new arrays into free space of the file.  At its start `GroupWriter` reads
the free lists of the file (`read_in_freelist`): entries that a version still alive released are
pinned (`m_not_free_in_file`); entries above the evacuation limit, if the file is being
compacted, are held back (`m_under_evacuation`); the others, with neighbours merged, go into
`m_size_map`, a multimap from sizes to positions.  Every array of the commit then asks
`get_free_space(size)` for room: `reserve_free_space` looks for a chunk that fits without
crossing a section boundary (splitting the chunk where the room begins), gives up the
evacuation if there is none, and otherwise extends the file; the room is carved off the front
of the chunk.

The model follows group_writer.cpp function by function.  A `REALM_ASSERT_RELEASE` that fails
aborts the process, and is an error here; a debug-only `REALM_ASSERT` is left out.  The loop of
`reserve_free_space` runs until it finds room, possibly for ever; the model runs it for a number
of rounds it is given, and fails with `outOfRounds` when they run out.
-/

namespace Realm

/-- `GroupWriter::FreeSpaceEntry`: a chunk of the file, and the version that released it. -/
structure FreeSpaceEntry where
  ref : Nat
  size : Nat
  releasedAtVersion : Nat
deriving DecidableEq, Repr

/-- The chunk of the file an entry stands for. -/
def FreeSpaceEntry.chunk (e : FreeSpaceEntry) : Chunk := ⟨e.ref, e.size⟩

/-- What stops `get_free_space`: a failed `REALM_ASSERT_RELEASE`, with its condition; the
`MaximumFileSizeExceeded` exception, with its message; or, in the model only, the end of the
rounds it was given. -/
inductive AllocError where
  | assertion (condition : String)
  | maximumFileSizeExceeded (message : String)
  | outOfRounds
deriving DecidableEq, Repr

/-- The members of a `GroupWriter` that its free-space functions read and write. -/
structure GroupWriter where
  /-- `m_size_map`: the free chunks as (size, position), in the order of their sizes. -/
  sizeMap : List (Nat × Nat)
  notFreeInFile : List FreeSpaceEntry
  underEvacuation : List FreeSpaceEntry
  evacuationLimit : Nat
  backoff : Nat
  /-- The logical file size, in slot 2 of the top array and in `m_logical_size`. -/
  logicalSize : Nat
deriving DecidableEq, Repr

namespace GroupWriter

/-- `std::numeric_limits<size_t>::max()`. -/
def sizeMax : Nat := 2 ^ 64 - 1

/-- `REALM_ASSERT_RELEASE(condition)`. -/
def assertRelease (condition : Prop) [Decidable condition] (text : String) :
    Except AllocError Unit :=
  if condition then .ok () else .error (.assertion text)

/-! ## `read_in_freelist` -/

/-- One entry of the free lists, as the loop of `read_in_freelist` files it into `free_in_file`,
`m_not_free_in_file` and `m_under_evacuation`. -/
def readEntry (limitVersion evacuationLimit : Nat) :
    List FreeSpaceEntry × List FreeSpaceEntry × List FreeSpaceEntry → FreeSpaceEntry →
      List FreeSpaceEntry × List FreeSpaceEntry × List FreeSpaceEntry
  | (freeInFile, notFreeInFile, underEvacuation), e =>
    -- entries released by versions still alive are not candidates for merge or allocation
    if e.releasedAtVersion > limitVersion then
      (freeInFile, notFreeInFile ++ [e], underEvacuation)
    else if e.ref + e.size > evacuationLimit then
      if e.ref < evacuationLimit then
        -- the part below the evacuation limit stays free
        let stillFreeSize := evacuationLimit - e.ref
        (freeInFile ++ [⟨e.ref, stillFreeSize, 0⟩], notFreeInFile,
          underEvacuation ++ [⟨evacuationLimit, e.size - stillFreeSize, 0⟩])
      else (freeInFile, notFreeInFile, underEvacuation ++ [⟨e.ref, e.size, 0⟩])
    else (freeInFile ++ [⟨e.ref, e.size, 0⟩], notFreeInFile, underEvacuation)

/-- The loop of `merge_adjacent_entries_in_freelist` from the entry `prev`: an entry that starts
where `prev` ends is added to it and left with size `0`.  Returns `prev` as it ends up, and the
entries after it. -/
def mergeLoop (prev : FreeSpaceEntry) :
    List FreeSpaceEntry → FreeSpaceEntry × List FreeSpaceEntry
  | [] => (prev, [])
  | it :: list =>
    if prev.ref + prev.size = it.ref then
      let (last, rest) := mergeLoop { prev with size := prev.size + it.size } list
      (last, { it with size := 0 } :: rest)
    else
      let (last, rest) := mergeLoop it list
      (prev, last :: rest)

/-- `merge_adjacent_entries_in_freelist(list)`: combine adjacent chunks. -/
def mergeAdjacentEntriesInFreelist : List FreeSpaceEntry → List FreeSpaceEntry
  | [] => []
  | first :: list =>
    let (last, rest) := mergeLoop first list
    last :: rest

/-- `move_free_in_file_to_size_map(list, size_map)`: the entries of nonzero size go into the
size map; they must be 8-byte aligned. -/
def moveFreeInFileToSizeMap :
    List FreeSpaceEntry → List (Nat × Nat) → Except AllocError (List (Nat × Nat))
  | [], sizeMap => .ok sizeMap
  | elem :: list, sizeMap =>
    -- skip the entries emptied by `merge_adjacent_entries_in_freelist`
    if elem.size ≠ 0 then do
      assertRelease (elem.size % 8 = 0) "!(elem.size & 7)"
      assertRelease (elem.ref % 8 = 0) "!(elem.ref & 7)"
      moveFreeInFileToSizeMap list (MultiMap.emplace sizeMap elem.size elem.ref).1
    else moveFreeInFileToSizeMap list sizeMap

/-- `read_in_freelist()`, from the free lists of the file (positions, lengths and versions) and
the oldest version still reachable. -/
def readInFreelist (w : GroupWriter) (freePositions freeLengths freeVersions : List Nat)
    (oldestReachableVersion : Nat) : Except AllocError GroupWriter := do
  let evacuationLimit := if w.evacuationLimit ≠ 0 then w.evacuationLimit else sizeMax
  let limit := freeLengths.length
  assertRelease (freePositions.length = limit) "m_free_positions.size() == limit"
  assertRelease (freeVersions.length = limit) "m_free_versions.size() == limit"
  let entries := (List.range limit).map fun idx =>
    (⟨freePositions.getD idx 0, freeLengths.getD idx 0, freeVersions.getD idx 0⟩ : FreeSpaceEntry)
  let (freeInFile, notFreeInFile, underEvacuation) :=
    entries.foldl (readEntry oldestReachableVersion evacuationLimit)
      ([], w.notFreeInFile, w.underEvacuation)
  let underEvacuation :=
    (mergeAdjacentEntriesInFreelist underEvacuation).filter fun e => e.size ≠ 0
  let sizeMap ← moveFreeInFileToSizeMap (mergeAdjacentEntriesInFreelist freeInFile) w.sizeMap
  return { w with
    sizeMap := sizeMap
    notFreeInFile := notFreeInFile
    underEvacuation := underEvacuation }

/-! ## Searching the size map -/

/-- `split_freelist_chunk(it, alloc_pos)`: the chunk at `it` becomes the chunk before `alloc_pos`
and the chunk from it; the position of the second. -/
def splitFreelistChunk (w : GroupWriter) (it allocPos : Nat) :
    Except AllocError (Nat × GroupWriter) := do
  let (chunkSize, startPos) := w.sizeMap.getD it (0, 0)
  let sizeMap := w.sizeMap.eraseIdx it
  assertRelease (allocPos > startPos) "alloc_pos > start_pos"
  assertRelease (allocPos % 8 = 0) "!(alloc_pos & 7)"
  let sizeFirst := allocPos - startPos
  let sizeSecond := chunkSize - sizeFirst
  let sizeMap := (MultiMap.emplace sizeMap sizeFirst startPos).1
  let (sizeMap, second) := MultiMap.emplace sizeMap sizeSecond allocPos
  return (second, { w with sizeMap := sizeMap })

/-- `search_free_space_in_free_list_element(it, size)`: room for `size` bytes in the chunk at
`it` that does not cross a section boundary, split off so that it starts a chunk; `none` for
the end iterator. -/
def searchFreeSpaceInFreeListElement (w : GroupWriter) (it size : Nat) :
    Except AllocError (Option (Nat × GroupWriter)) :=
  let (chunkSize, startPos) := w.sizeMap.getD it (0, 0)
  let allocPos := findSectionInRange startPos chunkSize size
  if allocPos = 0 then .ok none
  else if allocPos ≠ startPos then (w.splitFreelistChunk it allocPos).map some
  else .ok (some (it, w))

/-- The loop of `search_free_space_in_part_of_freelist(size)` from the iterator `it`, for at
most `fuel` rounds: a chunk of exactly `size` bytes or of at least twice as many is searched,
a smaller one sends the search to the chunks of at least twice the size. -/
def searchFreeSpaceLoop (w : GroupWriter) (size : Nat) :
    Nat → Nat → Except AllocError (Option (Nat × GroupWriter))
  | 0, _ => .ok none
  | fuel + 1, it =>
    match w.sizeMap[it]? with
    | none => .ok none
    | some (chunkSize, _) =>
      if chunkSize = size ∨ chunkSize ≥ 2 * size then
        match w.searchFreeSpaceInFreeListElement it size with
        | .ok none => searchFreeSpaceLoop w size fuel (it + 1)
        | found => found
      else searchFreeSpaceLoop w size fuel (MultiMap.lowerBound w.sizeMap (2 * size))

/-- `search_free_space_in_part_of_freelist(size)`.  The iterator only moves forward, so one
round per chunk, and one for the end, are enough. -/
def searchFreeSpaceInPartOfFreelist (w : GroupWriter) (size : Nat) :
    Except AllocError (Option (Nat × GroupWriter)) :=
  w.searchFreeSpaceLoop size (w.sizeMap.length + 1) (MultiMap.lowerBound w.sizeMap size)

/-! ## Extending the file -/

/-- The growth step below which the file doubles, 1 MB. -/
def growthBoundary : Nat := 1024 * 1024

/-- `util::round_up_to_page_size(size)`, `(size + ps - 1) & ~(ps - 1)` for a page size `ps`
that is a power of two. -/
def roundUpToPageSize (pageSize size : Nat) : Nat :=
  (size + pageSize - 1) / pageSize * pageSize

/-- The size `extend_free_space` wants the file to grow to: it doubles up to 1 MB, then grows by
1 MB at a time, or more if the request needs more. -/
def minimalNewSize (logicalFileSize requestedSize : Nat) : Nat :=
  let minimalNewSize := if logicalFileSize < growthBoundary then logicalFileSize * 2
    else logicalFileSize + growthBoundary
  let requiredNewSize := logicalFileSize + requestedSize
  if requiredNewSize > minimalNewSize then requiredNewSize else minimalNewSize

/-- The new size of the file: rounded up to the page size, but not past the section boundary
at or above the minimal size. -/
def newFileSize (pageSize minimalNewSize : Nat) : Nat :=
  let nextBoundary := alignSizeToSectionBoundary minimalNewSize
  let newFileSize := roundUpToPageSize pageSize minimalNewSize
  if newFileSize > nextBoundary then nextBoundary else newFileSize

/-- `extend_free_space(requested_size)`: the file grows, and the new space is a chunk of the size
map; its position. -/
def extendFreeSpace (pageSize : Nat) (w : GroupWriter) (requestedSize : Nat) :
    Except AllocError (Nat × GroupWriter) :=
  let logicalFileSize := w.logicalSize
  let minimal := minimalNewSize logicalFileSize requestedSize
  if minimal > sizeMax / 4 * 3 then
    .error (.maximumFileSizeExceeded ("GroupWriter cannot extend free space: " ++
      toString logicalFileSize ++ " + " ++ toString requestedSize))
  else do
    let newFileSize := newFileSize pageSize minimal
    assertRelease (newFileSize % 8 = 0) "!(new_file_size & 7)"
    let chunkSize := newFileSize - logicalFileSize
    assertRelease (chunkSize % 8 = 0) "!(chunk_size & 7)"
    assertRelease (chunkSize ≠ 0) "chunk_size != 0"
    let (sizeMap, it) := MultiMap.emplace w.sizeMap chunkSize logicalFileSize
    return (it, { w with sizeMap := sizeMap, logicalSize := newFileSize })

/-! ## `get_free_space` -/

/-- The evacuation is given up: the chunks held back go into the size map. -/
def giveUpEvacuation (w : GroupWriter) : GroupWriter :=
  { w with
    sizeMap := w.underEvacuation.foldl (fun m e => (MultiMap.emplace m e.size e.ref).1) w.sizeMap
    underEvacuation := []
    evacuationLimit := 0
    backoff := 10 }

/-- The loop of `reserve_free_space(size)`, for at most `fuel` rounds. -/
def reserveLoop (pageSize size : Nat) : Nat → GroupWriter → Except AllocError (Nat × GroupWriter)
  | 0, _ => .error .outOfRounds
  | fuel + 1, w =>
    if !w.underEvacuation.isEmpty then
      -- we have been too aggressive in setting the evacuation limit
      match w.giveUpEvacuation.searchFreeSpaceInPartOfFreelist size with
      | .ok (some found) => .ok found
      | .ok none => reserveLoop pageSize size fuel w.giveUpEvacuation
      | .error e => .error e
    else
      -- no free space, so we have to extend the file
      match w.extendFreeSpace pageSize size with
      | .ok (newChunk, w) =>
        match w.searchFreeSpaceInFreeListElement newChunk size with
        | .ok (some found) => .ok found
        | .ok none => reserveLoop pageSize size fuel w
        | .error e => .error e
      | .error e => .error e

/-- `reserve_free_space(size)`: the position in the size map of a chunk that starts with room
for `size` bytes within one section. -/
def reserveFreeSpace (pageSize fuel : Nat) (w : GroupWriter) (size : Nat) :
    Except AllocError (Nat × GroupWriter) :=
  match w.searchFreeSpaceInPartOfFreelist size with
  | .ok (some found) => .ok found
  | .ok none => reserveLoop pageSize size fuel w
  | .error e => .error e

/-- `get_free_space(size)`: the position of `size` bytes of free space, carved off the front of
the chunk `reserve_free_space` finds. -/
def getFreeSpace (pageSize fuel : Nat) (w : GroupWriter) (size : Nat) :
    Except AllocError (Nat × GroupWriter) := do
  let (p, w) ← w.reserveFreeSpace pageSize fuel size
  let (chunkSize, chunkPos) := w.sizeMap.getD p (0, 0)
  assertRelease (chunkPos % 8 = 0) "!(chunk_pos & 7)"
  assertRelease (chunkSize % 8 = 0) "!(chunk_size & 7)"
  let rest := chunkSize - size
  let sizeMap := w.sizeMap.eraseIdx p
  -- allocating part of a chunk always happens from its beginning
  let sizeMap := if rest > 0 then (MultiMap.emplace sizeMap rest (chunkPos + size)).1 else sizeMap
  return (chunkPos, { w with sizeMap := sizeMap })

/-- The calls `get_free_space(size)` of a commit, one for each size in turn: the chunks they
hand out, in order. -/
def getFreeSpaceRun (pageSize fuel : Nat) :
    GroupWriter → List Nat → Except AllocError (List Chunk × GroupWriter)
  | w, [] => .ok ([], w)
  | w, size :: sizes => do
    let (pos, w) ← w.getFreeSpace pageSize fuel size
    let (chunks, w) ← getFreeSpaceRun pageSize fuel w sizes
    return (⟨pos, size⟩ :: chunks, w)

end GroupWriter

end Realm
