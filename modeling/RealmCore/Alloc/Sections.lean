import Mathlib

/-!
# Sections of the file

The allocator maps a Realm file in sections of 64 MB (`Allocator::section_shift`), and no array
may cross the boundary between two sections.  `SlabAlloc::find_section_in_range` looks for room
for a request inside a free chunk that does not cross a boundary: it tries the start of the
chunk, then each section boundary inside it.

`findSectionInRange_spec` says what a place it finds satisfies; `findSectionLoop_fuel` that the
model's bound on the rounds of the loop is never reached.
-/

namespace Realm

/-- `Allocator::section_shift`: sections are `2 ^ 26` bytes, 64 MB. -/
def sectionShift : Nat := 26

/-- The size of a section. -/
def sectionSize : Nat := 2 ^ sectionShift

/-- `Allocator::get_section_base(index)`. -/
def getSectionBase (index : Nat) : Nat := index <<< sectionShift

/-- `Allocator::get_section_index(pos)`. -/
def getSectionIndex (pos : Nat) : Nat := pos >>> sectionShift

/-- `SlabAlloc::get_upper_section_boundary(start_pos)`: the first boundary above `start_pos`. -/
def getUpperSectionBoundary (startPos : Nat) : Nat :=
  getSectionBase (1 + getSectionIndex startPos)

/-- `SlabAlloc::get_lower_section_boundary(start_pos)`. -/
def getLowerSectionBoundary (startPos : Nat) : Nat :=
  getSectionBase (getSectionIndex startPos)

/-- `SlabAlloc::matches_section_boundary(pos)`. -/
def matchesSectionBoundary (pos : Nat) : Bool :=
  pos == getLowerSectionBoundary pos

/-- `SlabAlloc::align_size_to_section_boundary(size)`: the boundary at or above `size`. -/
def alignSizeToSectionBoundary (size : Nat) : Nat :=
  if matchesSectionBoundary size then size else getUpperSectionBoundary size

/-- The loop of `find_section_in_range`, for at most `fuel` rounds from `allocPos`. -/
def findSectionLoop (endOfBlock requestSize : Nat) : Nat → Nat → Nat
  | 0, _ => 0
  | fuel + 1, allocPos =>
    if allocPos + requestSize ≤ endOfBlock then
      let nextSectionBoundary := getUpperSectionBoundary allocPos
      if allocPos + requestSize ≤ nextSectionBoundary then allocPos
      else findSectionLoop endOfBlock requestSize fuel nextSectionBoundary
    else 0

/-- `SlabAlloc::find_section_in_range(start_pos, free_chunk_size, request_size)`: a place for
`request_size` bytes in the chunk that does not cross a section boundary, `0` if there is none.
The loop moves forward on every round, so `free_chunk_size + 1` rounds are enough. -/
def findSectionInRange (startPos freeChunkSize requestSize : Nat) : Nat :=
  findSectionLoop (startPos + freeChunkSize) requestSize (freeChunkSize + 1) startPos

/-! ## Section arithmetic -/

lemma getUpperSectionBoundary_eq (pos : Nat) :
    getUpperSectionBoundary pos = (pos / sectionSize + 1) * sectionSize := by
  simp only [getUpperSectionBoundary, getSectionBase, getSectionIndex, Nat.shiftLeft_eq,
    Nat.shiftRight_eq_div_pow, sectionSize]
  ring

lemma lt_getUpperSectionBoundary (pos : Nat) : pos < getUpperSectionBoundary pos := by
  rw [getUpperSectionBoundary_eq, Nat.succ_mul]
  exact Nat.lt_div_mul_add (Nat.two_pow_pos sectionShift)

/-- The boundary above a position is a boundary. -/
lemma getUpperSectionBoundary_mod (pos : Nat) : getUpperSectionBoundary pos % sectionSize = 0 := by
  rw [getUpperSectionBoundary_eq, Nat.mul_mod_left]

lemma le_alignSizeToSectionBoundary (size : Nat) : size ≤ alignSizeToSectionBoundary size := by
  unfold alignSizeToSectionBoundary
  split
  · exact le_refl _
  · exact (lt_getUpperSectionBoundary size).le

/-! ## `find_section_in_range` -/

section Loop

variable {endOfBlock requestSize fuel allocPos : Nat}

/-- One round of the loop; the branch lemmas below rewrite with it rather than unfold the
definition each time. -/
lemma findSectionLoop_succ :
    findSectionLoop endOfBlock requestSize (fuel + 1) allocPos =
      if allocPos + requestSize ≤ endOfBlock then
        if allocPos + requestSize ≤ getUpperSectionBoundary allocPos then allocPos
        else findSectionLoop endOfBlock requestSize fuel (getUpperSectionBoundary allocPos)
      else 0 := rfl

lemma findSectionLoop_of_end (hend : ¬ allocPos + requestSize ≤ endOfBlock) :
    findSectionLoop endOfBlock requestSize (fuel + 1) allocPos = 0 := by
  rw [findSectionLoop_succ, if_neg hend]

lemma findSectionLoop_of_fit (hend : allocPos + requestSize ≤ endOfBlock)
    (hfit : allocPos + requestSize ≤ getUpperSectionBoundary allocPos) :
    findSectionLoop endOfBlock requestSize (fuel + 1) allocPos = allocPos := by
  rw [findSectionLoop_succ, if_pos hend, if_pos hfit]

lemma findSectionLoop_of_cross (hend : allocPos + requestSize ≤ endOfBlock)
    (hfit : ¬ allocPos + requestSize ≤ getUpperSectionBoundary allocPos) :
    findSectionLoop endOfBlock requestSize (fuel + 1) allocPos =
      findSectionLoop endOfBlock requestSize fuel (getUpperSectionBoundary allocPos) := by
  rw [findSectionLoop_succ, if_pos hend, if_neg hfit]

end Loop

/-- A place the loop finds lies in the block, fits below the next boundary, and is where the
loop started or a boundary. -/
lemma findSectionLoop_spec {endOfBlock requestSize : Nat} :
    ∀ fuel allocPos, findSectionLoop endOfBlock requestSize fuel allocPos ≠ 0 →
      allocPos ≤ findSectionLoop endOfBlock requestSize fuel allocPos ∧
      findSectionLoop endOfBlock requestSize fuel allocPos + requestSize ≤ endOfBlock ∧
      findSectionLoop endOfBlock requestSize fuel allocPos + requestSize ≤
        getUpperSectionBoundary (findSectionLoop endOfBlock requestSize fuel allocPos) ∧
      (findSectionLoop endOfBlock requestSize fuel allocPos = allocPos ∨
        findSectionLoop endOfBlock requestSize fuel allocPos % sectionSize = 0) := by
  intro fuel
  induction fuel with
  | zero => intro allocPos h; exact absurd rfl h
  | succ fuel ih =>
    intro allocPos h
    by_cases hend : allocPos + requestSize ≤ endOfBlock
    swap
    · exact absurd (findSectionLoop_of_end hend) h
    by_cases hfit : allocPos + requestSize ≤ getUpperSectionBoundary allocPos
    · rw [findSectionLoop_of_fit hend hfit]
      exact ⟨le_refl _, hend, hfit, .inl rfl⟩
    · -- the loop goes on from the next boundary
      rw [findSectionLoop_of_cross hend hfit] at h ⊢
      obtain ⟨hle, hinside, hsec, hpos⟩ := ih _ h
      refine ⟨le_trans (lt_getUpperSectionBoundary allocPos).le hle, hinside, hsec, .inr ?_⟩
      rcases hpos with heq | hmod
      · rw [heq]
        exact getUpperSectionBoundary_mod allocPos
      · exact hmod

/-- The model's rounds are enough: once the rounds left exceed the distance to the end of the
block, one more round changes nothing. -/
lemma findSectionLoop_fuel {endOfBlock requestSize : Nat} :
    ∀ fuel allocPos, endOfBlock < allocPos + fuel →
      findSectionLoop endOfBlock requestSize (fuel + 1) allocPos =
        findSectionLoop endOfBlock requestSize fuel allocPos := by
  intro fuel
  induction fuel with
  | zero =>
    intro allocPos hlt
    rw [findSectionLoop_of_end (by omega)]
    rfl
  | succ fuel ih =>
    intro allocPos hlt
    -- each round moves the position up to the next boundary
    have hnext := lt_getUpperSectionBoundary allocPos
    by_cases hend : allocPos + requestSize ≤ endOfBlock
    · by_cases hfit : allocPos + requestSize ≤ getUpperSectionBoundary allocPos
      · rw [findSectionLoop_of_fit hend hfit, findSectionLoop_of_fit hend hfit]
      · rw [findSectionLoop_of_cross hend hfit, findSectionLoop_of_cross hend hfit,
          ih _ (by omega)]
    · rw [findSectionLoop_of_end hend, findSectionLoop_of_end hend]

/-- In a chunk of no size at position `0`, `find_section_in_range` answers `0`, which its
callers read as nothing found. -/
lemma findSectionInRange_zero (requestSize : Nat) : findSectionInRange 0 0 requestSize = 0 := by
  unfold findSectionInRange
  by_cases hend : 0 + requestSize ≤ 0 + 0
  · by_cases hfit : 0 + requestSize ≤ getUpperSectionBoundary 0
    · exact findSectionLoop_of_fit hend hfit
    · rw [findSectionLoop_of_cross hend hfit]
      rfl
  · exact findSectionLoop_of_end hend

/-- A place `find_section_in_range` finds lies in the chunk, does not cross a section boundary,
and is the start of the chunk or a boundary. -/
lemma findSectionInRange_spec {startPos freeChunkSize requestSize : Nat}
    (h : findSectionInRange startPos freeChunkSize requestSize ≠ 0) :
    startPos ≤ findSectionInRange startPos freeChunkSize requestSize ∧
      findSectionInRange startPos freeChunkSize requestSize + requestSize ≤
        startPos + freeChunkSize ∧
      findSectionInRange startPos freeChunkSize requestSize + requestSize ≤
        getUpperSectionBoundary (findSectionInRange startPos freeChunkSize requestSize) ∧
      (findSectionInRange startPos freeChunkSize requestSize = startPos ∨
        findSectionInRange startPos freeChunkSize requestSize % sectionSize = 0) :=
  findSectionLoop_spec _ _ h

end Realm
