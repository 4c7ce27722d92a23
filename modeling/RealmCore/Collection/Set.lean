import Mathlib
import RealmCore.Lib.LowerBound
import RealmCore.Lib.Run
import RealmCore.Lib.Binary64

/-!
# `Set<T>`: a sorted list searched with `std::lower_bound`

`Set<T>` of src/realm/set.hpp keeps its elements in a B+-tree in sorted order.  `find`,
`insert` and `erase` locate a value with `std::lower_bound` over the elements, under `T`'s
`operator<`, and then test the element found there with `operator==`.  `insert` adds the
value at that position when the test fails, `erase` removes the element there when it passes.

That is a finite set exactly when `<` orders the stored elements strictly and agrees with `==`.
For an element type whose `<` and `==` are a linear order and equality, every run from an empty
set keeps the elements strictly sorted and equal to the sorted abstract set
(`setRun_eq_sort`).  For `double`, whose `<` and `==` leave NaN unordered and unequal to
itself, a NaN among the elements breaks the partition `std::lower_bound` relies on, and
`find` and `insert` then miss an element that is stored.
-/

namespace Realm

open LowerBound

variable {α : Type*}

/-- The operations of an element type `T` that `Set<T>` uses: `operator<`, `operator==`, and
`value_is_null`. -/
structure ElementOps (α : Type*) where
  lt : α → α → Bool
  eq : α → α → Bool
  isNull : α → Bool

/-- `InvalidArgument(ErrorCodes::PropertyNotNullable, ...)`, as `throw_invalid_null` throws
it. -/
structure PropertyNotNullable where
  message : String
deriving DecidableEq, Repr

section Ops

variable (ops : ElementOps α)

/-- `Set<T>::find_impl`: `std::lower_bound` over the elements. -/
def setFindImpl (elems : List α) (v : α) : Nat :=
  lowerBound ops.lt elems v

/-- `it != end() && *it == value`. -/
def foundAt (elems : List α) (i : Nat) (v : α) : Bool :=
  match elems[i]? with
  | some x => ops.eq x v
  | none => false

/-- `Set<T>::find`: the index of the element found, `none` for `npos`. -/
def setFind (elems : List α) (v : α) : Option Nat :=
  let i := setFindImpl ops elems v
  if foundAt ops elems i v then some i else none

/-- `Set<T>::insert`: the index and whether the value was added, and the new elements. -/
def setInsert (nullable : Bool) (propertyName : String) (elems : List α) (v : α) :
    Except PropertyNotNullable ((Nat × Bool) × List α) :=
  if !nullable && ops.isNull v then .error ⟨"Set: " ++ propertyName⟩
  else
    let i := setFindImpl ops elems v
    if foundAt ops elems i v then .ok ((i, false), elems)
    else .ok ((i, true), elems.insertIdx i v)

/-- `Set<T>::erase`: the index removed (`none` for `npos`) and whether one was, and the new
elements. -/
def setErase (elems : List α) (v : α) : (Option Nat × Bool) × List α :=
  let i := setFindImpl ops elems v
  if foundAt ops elems i v then ((some i, true), elems.eraseIdx i) else ((none, false), elems)

/-- The writes to a set. -/
inductive SetOp (α : Type*)
  | insert (v : α)
  | erase (v : α)
  | clear

/-- One write; a rejected `insert` leaves the elements as they were. -/
def setStep (nullable : Bool) (propertyName : String) (elems : List α) : SetOp α → List α
  | .insert v =>
    match setInsert ops nullable propertyName elems v with
    | .ok r => r.2
    | .error _ => elems
  | .erase v => (setErase ops elems v).2
  | .clear => []

end Ops

/-! ## Element types ordered linearly -/

/-- The operations of an element type whose `<` is a linear order and `==` its equality. -/
def ElementOps.ofLinearOrder [LinearOrder α] (isNull : α → Bool) : ElementOps α :=
  ⟨fun x y => decide (x < y), fun x y => decide (x = y), isNull⟩

section Linear

variable [LinearOrder α] (isNull : α → Bool) {l : List α} (hl : l.SortedLT) (v : α)
include hl

/-- On strictly sorted elements the test at the lower bound is membership. -/
lemma foundAt_below_iff :
    foundAt (ElementOps.ofLinearOrder isNull) l (below l v) v = true ↔ v ∈ l := by
  rw [mem_iff_of_sortedLT hl v]
  unfold foundAt
  constructor
  · intro h
    split at h
    · rename_i x hx
      obtain ⟨hlt, rfl⟩ := List.getElem?_eq_some_iff.mp hx
      exact ⟨hlt, of_decide_eq_true h⟩
    · cases h
  · rintro ⟨hlt, hv⟩
    rw [List.getElem?_eq_getElem hlt, hv]
    simp [ElementOps.ofLinearOrder]

lemma setFindImpl_linear :
    setFindImpl (ElementOps.ofLinearOrder isNull) l v = below l v :=
  lowerBound_eq_below hl v

/-- `find` on strictly sorted elements: the position of `v` when it is present. -/
theorem setFind_linear :
    setFind (ElementOps.ofLinearOrder isNull) l v = if v ∈ l then some (below l v) else none := by
  unfold setFind
  rw [setFindImpl_linear isNull hl v]
  by_cases hv : v ∈ l
  · rw [if_pos ((foundAt_below_iff isNull hl v).mpr hv), if_pos hv]
  · rw [if_neg (fun h => hv ((foundAt_below_iff isNull hl v).mp h)), if_neg hv]

/-- `insert` of a value that is not refused as null, on strictly sorted elements: it reports
the value's position and whether it was absent, and inserts it in order when it was. -/
theorem setInsert_linear {nullable : Bool} (propertyName : String)
    (hnull : (!nullable && isNull v) = false) :
    setInsert (ElementOps.ofLinearOrder isNull) nullable propertyName l v =
      .ok ((below l v, decide (v ∉ l)), if v ∈ l then l else l.orderedInsert (· ≤ ·) v) := by
  unfold setInsert
  rw [if_neg (by simp [ElementOps.ofLinearOrder, hnull]), setFindImpl_linear isNull hl v]
  by_cases hv : v ∈ l
  · rw [if_pos ((foundAt_below_iff isNull hl v).mpr hv), if_pos hv]
    simp [hv]
  · rw [if_neg (fun h => hv ((foundAt_below_iff isNull hl v).mp h)), if_neg hv,
      insertIdx_eq_orderedInsert]
    simp [hv]

/-- `erase` on strictly sorted elements removes `v` when it is present. -/
theorem setErase_linear :
    setErase (ElementOps.ofLinearOrder isNull) l v =
      if v ∈ l then ((some (below l v), true), l.erase v) else ((none, false), l) := by
  unfold setErase
  rw [setFindImpl_linear isNull hl v]
  by_cases hv : v ∈ l
  · rw [if_pos ((foundAt_below_iff isNull hl v).mpr hv), if_pos hv]
    -- the element at the lower bound is `v` itself, and the elements are distinct
    obtain ⟨hlt, hat⟩ := (mem_iff_of_sortedLT hl v).mp hv
    have hnodup := (List.sortedLT_iff_nodup_and_sortedLE.mp hl).1
    rw [← hnodup.erase_getElem _ hlt, hat]
  · rw [if_neg (fun h => hv ((foundAt_below_iff isNull hl v).mp h)), if_neg hv]

end Linear

section Refinement

variable [LinearOrder α] (isNull : α → Bool) (nullable : Bool)
  (propertyName : String)

/-- The set a write leaves: `insert` adds a value it does not refuse as null, `erase` removes
one, `clear` empties it. -/
def SetOp.apply (S : Finset α) : SetOp α → Finset α
  | .insert v => if (!nullable && isNull v) = true then S else Insert.insert v S
  | .erase v => S.erase v
  | .clear => ∅

/-- The elements are strictly sorted and hold exactly the values of `S`. -/
def SetRefines (l : List α) (S : Finset α) : Prop :=
  l.SortedLT ∧ ∀ x, x ∈ l ↔ x ∈ S

lemma setRefines_step {l : List α} {S : Finset α} (h : SetRefines l S) (o : SetOp α) :
    SetRefines (setStep (ElementOps.ofLinearOrder isNull) nullable propertyName l o)
      (SetOp.apply isNull nullable S o) := by
  obtain ⟨hl, hmem⟩ := h
  cases o with
  | insert v =>
    simp only [setStep, SetOp.apply]
    by_cases hnull : (!nullable && isNull v) = true
    · have hrefuse : setInsert (ElementOps.ofLinearOrder isNull) nullable propertyName l v =
          .error ⟨"Set: " ++ propertyName⟩ := by
        simp [setInsert, ElementOps.ofLinearOrder, hnull]
      rw [hrefuse, if_pos hnull]
      exact ⟨hl, hmem⟩
    · rw [setInsert_linear isNull hl v propertyName (by simpa using hnull), if_neg hnull]
      by_cases hv : v ∈ l
      · -- already present: nothing changes
        rw [if_pos hv]
        refine ⟨hl, fun x => ?_⟩
        rw [hmem x, Finset.mem_insert]
        exact ⟨Or.inr, fun hx => hx.elim (fun h => h ▸ (hmem v).mp hv) id⟩
      · rw [if_neg hv]
        refine ⟨sortedLT_orderedInsert hl hv, fun x => ?_⟩
        rw [List.mem_orderedInsert, hmem x, Finset.mem_insert]
  | erase v =>
    simp only [setStep, SetOp.apply]
    rw [setErase_linear isNull hl v]
    have hnodup := (List.sortedLT_iff_nodup_and_sortedLE.mp hl).1
    by_cases hv : v ∈ l
    · rw [if_pos hv]
      dsimp only
      refine ⟨List.sortedLT_iff_pairwise.mpr
        ((List.sortedLT_iff_pairwise.mp hl).sublist (List.erase_sublist)), fun x => ?_⟩
      rw [hnodup.mem_erase_iff, hmem x, Finset.mem_erase]
    · rw [if_neg hv]
      refine ⟨hl, fun x => ?_⟩
      rw [hmem x, Finset.mem_erase]
      exact ⟨fun hx => ⟨fun h => hv ((hmem v).mpr (h ▸ hx)), hx⟩, fun hx => hx.2⟩
  | clear =>
    refine ⟨List.sortedLT_iff_pairwise.mpr List.Pairwise.nil, fun x => ?_⟩
    simp [setStep, SetOp.apply]

/-- For an element type ordered linearly, a set refines a finite set: after any writes from an
empty set its elements are that finite set in increasing order. -/
theorem setRun_eq_sort (ops : List (SetOp α)) :
    Run.run (setStep (ElementOps.ofLinearOrder isNull) nullable propertyName) [] ops =
      (Run.run (SetOp.apply isNull nullable) ∅ ops).sort (· ≤ ·) := by
  have hrun : ∀ (ops : List (SetOp α)) (l : List α) (S : Finset α), SetRefines l S →
      SetRefines (Run.run (setStep (ElementOps.ofLinearOrder isNull) nullable propertyName) l ops)
        (Run.run (SetOp.apply isNull nullable) S ops) := by
    intro ops
    induction ops with
    | nil => exact fun _ _ h => h
    | cons o ops ih =>
      exact fun l S h => ih _ _ (setRefines_step isNull nullable propertyName h o)
  obtain ⟨hl, hmem⟩ := hrun ops [] ∅ ⟨by simp [List.sortedLT_iff_pairwise], by simp⟩
  exact hl.eq_of_mem_iff (Finset.sortedLT_sort _) fun x => by rw [hmem, Finset.mem_sort]

end Refinement

/-! ## `double` -/

/-- `double` as an element type: IEEE `<` and `==`, and the null pattern of a nullable double
column. -/
def ElementOps.double : ElementOps Binary64 :=
  ⟨Binary64.blt, Binary64.beq, fun v => v.bits == 0x7FF80000000000AA⟩

/-- A `Set<double>` given `1.0`, `3.0`, NaN, `2.0` and `0.5`: the NaN ends up between `0.5` and
`1.0`, `find(1.0)` then misses the stored `1.0`, and `insert(1.0)` stores it a second time and
reports it as new. -/
theorem setInsert_double_nan :
    Run.run (setStep ElementOps.double false "values") []
        [.insert ⟨0x3FF0000000000000⟩, .insert ⟨0x4008000000000000⟩, .insert ⟨0x7FF8000000000000⟩,
          .insert ⟨0x4000000000000000⟩, .insert ⟨0x3FE0000000000000⟩] =
        [⟨0x3FE0000000000000⟩, ⟨0x7FF8000000000000⟩, ⟨0x3FF0000000000000⟩,
          ⟨0x4000000000000000⟩, ⟨0x4008000000000000⟩] ∧
      setFind ElementOps.double [⟨0x3FE0000000000000⟩, ⟨0x7FF8000000000000⟩,
          ⟨0x3FF0000000000000⟩, ⟨0x4000000000000000⟩, ⟨0x4008000000000000⟩]
        ⟨0x3FF0000000000000⟩ = none ∧
      (setInsert ElementOps.double false "values" [⟨0x3FE0000000000000⟩, ⟨0x7FF8000000000000⟩,
          ⟨0x3FF0000000000000⟩, ⟨0x4000000000000000⟩, ⟨0x4008000000000000⟩]
        ⟨0x3FF0000000000000⟩).toOption =
        some ((1, true), [⟨0x3FE0000000000000⟩, ⟨0x3FF0000000000000⟩, ⟨0x7FF8000000000000⟩,
          ⟨0x3FF0000000000000⟩, ⟨0x4000000000000000⟩, ⟨0x4008000000000000⟩]) := by
  decide

end Realm
