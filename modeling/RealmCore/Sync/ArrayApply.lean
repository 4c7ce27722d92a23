import Mathlib
import RealmCore.Lib.ListSource
import RealmCore.Sync.Instruction

/-!
# The instructions on the elements of one list, and how they apply

The operational transform of the sync protocol (src/realm/sync/transform.cpp) rewrites the
instructions that act on the elements of a list: `ArrayInsert`, `ArrayMove`, `ArrayErase`, and
an `Update` of one element.  Each names its element by the index that ends its path and
carries `prior_size`, the size of the list it was made for.  This module models those four
instructions on one list, and their application by `InstructionApplier`
(src/realm/sync/instruction_applier.cpp), which checks the indices and the prior size against
the list and then edits it through `Lst<T>` (src/realm/list.hpp).

The list holds `Payload`s: a value the instruction writes, or the marker of a nested list or
dictionary, or of an embedded object.  The checks of a value against the type of the column
(type mismatch, null in a non-nullable list, link target table) are one predicate `accepts`;
the checks that do not depend on the column are modelled as the code has them: a `Set` can
not be nested in a list, an `Erased` payload is refused, and an `Update` that creates an
embedded object in a list element is a no-op.  The `uint32_t` indices and sizes are `Nat`s: a
list reached through them has fewer than `2^32` elements.

`Lst<T>::move` inserts a default value, swaps and erases; `lstMove_eq` shows that this moves
the element (`ListSource.moveIdx`).  `ArrayInstr.Valid` is what the applier checks of the
indices, with the prior size of an `Update` equal to the size of the list (which the applier
does not check, but the merge rules rely on); a valid instruction whose value is accepted
applies (`applyArrayInstr_eq_ok`), with the effect `ArrayInstr.run`, whose sources in the list
before are `ArrayInstr.source` (`ArrayInstr.describedBy_run`).
-/

namespace Realm.Sync

open ListSource

/-- `ArrayInsert`, `ArrayMove`, `ArrayErase`, and the `Update` of a list element, on one list:
`index` is the last element of the path, `ndx2` the destination of a move. -/
inductive ArrayInstr (S R : Type) where
  | update (index : Nat) (value : Payload S R) (priorSize : Nat)
  | arrayInsert (index : Nat) (value : Payload S R) (priorSize : Nat)
  | arrayMove (index ndx2 priorSize : Nat)
  | arrayErase (index priorSize : Nat)
deriving DecidableEq, Repr

namespace ArrayInstr

variable {S R : Type}

/-- `Instruction::Type` of the four instructions. -/
def type : ArrayInstr S R → Nat
  | .update .. => 4
  | .arrayInsert .. => 8
  | .arrayMove .. => 9
  | .arrayErase .. => 10

/-- What the applier checks of an instruction on a list of `n` elements, with an `Update`'s
prior size equal to `n`. -/
def Valid (n : Nat) : ArrayInstr S R → Prop
  | .update i _ ps => i < n ∧ ps = n
  | .arrayInsert i _ ps => i ≤ n ∧ ps = n
  | .arrayMove i j ps => i < n ∧ j < n ∧ i ≠ j ∧ ps = n
  | .arrayErase i ps => i < n ∧ ps = n

instance decidableValid (n : Nat) : (o : ArrayInstr S R) → Decidable (o.Valid n)
  | .update i _ ps => inferInstanceAs (Decidable (i < n ∧ ps = n))
  | .arrayInsert i _ ps => inferInstanceAs (Decidable (i ≤ n ∧ ps = n))
  | .arrayMove i j ps => inferInstanceAs (Decidable (i < n ∧ j < n ∧ i ≠ j ∧ ps = n))
  | .arrayErase i ps => inferInstanceAs (Decidable (i < n ∧ ps = n))

/-- The size of the list after a valid instruction on `n` elements. -/
def sizeAfter (n : Nat) : ArrayInstr S R → Nat
  | .arrayInsert .. => n + 1
  | .arrayErase .. => n - 1
  | _ => n

/-- The value an instruction writes, which the column checks. -/
def value? : ArrayInstr S R → Option (Payload S R)
  | .update _ v _ | .arrayInsert _ v _ => some v
  | _ => none

end ArrayInstr

section Applier

variable {S R : Type}

/-- An embedded object, which an `Update` of a list element leaves as it is. -/
def Payload.isObjectValue : Payload S R → Bool
  | .objectValue => true
  | _ => false

/-- `BPlusTree<Mixed>::default_value`, the value `Lst<T>::move` inserts first. -/
def defaultValue : Payload S R := .null

/-- `BPlusTree::swap` on the values at two positions. -/
def swapIdx (l : List (Payload S R)) (i j : Nat) : List (Payload S R) :=
  match l[i]?, l[j]? with
  | some a, some b => (l.set i b).set j a
  | _, _ => l

/-- `Lst<T>::move(from, to)`: both indices checked, and for two different ones a default value
inserted past the destination, swapped with the moved value and the old place erased. -/
def lstMove (l : List (Payload S R)) (from_ to_ : Nat) : Except String (List (Payload S R)) :=
  if from_ < l.length then
    if to_ < l.length then
      if from_ ≠ to_ then
        let to' := if to_ > from_ then to_ + 1 else to_
        let from' := if to_ > from_ then from_ else from_ + 1
        .ok ((swapIdx (l.insertIdx to' defaultValue) from' to').eraseIdx from')
      else .ok l
    else .error "move() on list: index out of bounds"
  else .error "move() on list: index out of bounds"

/-- The `Update` of a list element (`on_list_index` of the update resolver): an embedded object
is already there, a nested dictionary or list replaces the element, a set cannot be nested,
and any other value is checked against the column and written by `Lst<T>::set`. -/
def updateListIndex (accepts : Payload S R → Bool) (l : List (Payload S R)) (index : Nat)
    (value : Payload S R) : Except String (List (Payload S R)) :=
  match value with
  | .objectValue => .ok l
  | .erased => .error "Update: Dictionary erase of list element"
  | .set => .error "Set nested in List<Mixed> is not supported"
  | v =>
    if accepts v then
      if index < l.length then .ok (l.set index v) else .error "set() on list: index out of bounds"
    else .error "Update: Type mismatch in list"

/-- The inserter of `ArrayInsert`: a nested set is refused, an `Erased` payload too, and any
other value is checked against the column and inserted. -/
def insertListIndex (accepts : Payload S R → Bool) (l : List (Payload S R)) (index : Nat)
    (value : Payload S R) : Except String (List (Payload S R)) :=
  match value with
  | .erased => .error "Dictionary erase payload for ArrayInsert"
  | .set => .error "Set nested in List<Mixed> is not supported"
  | v => if accepts v then .ok (l.insertIdx index v) else .error "ArrayInsert: Type mismatch in list"

/-- `InstructionApplier` on an instruction of the list: the checks of each resolver in the
code's order, then the edit. -/
def applyArrayInstr (accepts : Payload S R → Bool) (l : List (Payload S R)) :
    ArrayInstr S R → Except String (List (Payload S R))
  | .update index value _ => updateListIndex accepts l index value
  | .arrayInsert index value priorSize =>
    if index > priorSize then .error "ArrayInsert: Invalid insertion index"
    else if index > l.length then .error "ArrayInsert: Index out of bounds"
    else if priorSize ≠ l.length then .error "ArrayInsert: Invalid prior_size"
    else insertListIndex accepts l index value
  | .arrayMove index ndx2 priorSize =>
    if index ≥ l.length then .error "ArrayMove from out of bounds"
    else if ndx2 ≥ l.length then .error "ArrayMove to out of bounds"
    else if index = ndx2 then .error "ArrayMove to same location"
    else if priorSize ≠ l.length then .error "ArrayMove: Invalid prior_size"
    else lstMove l index ndx2
  | .arrayErase index priorSize =>
    if index ≥ priorSize then .error "ArrayErase: Invalid index"
    else if index ≥ l.length then .error "ArrayErase: Index out of bounds"
    else if priorSize ≠ l.length then .error "ArrayErase: Invalid prior_size"
    else .ok (l.eraseIdx index)

end Applier

namespace ArrayInstr

variable {S R : Type}

/-- A value the column takes, as the applier checks it: a nested set and an `Erased` payload
are never taken, any other value as `accepts` says. -/
def takesValue (accepts : Payload S R → Bool) : Payload S R → Bool
  | .erased | .set => false
  | v => accepts v

/-- The value of an instruction passes the applier's checks: an embedded object in an `Update`
needs none. -/
def accepted (accepts : Payload S R → Bool) : ArrayInstr S R → Bool
  | .update _ v _ => v.isObjectValue || takesValue accepts v
  | .arrayInsert _ v _ => takesValue accepts v
  | _ => true

/-- The effect of a valid instruction on the list. -/
def run (l : List (Payload S R)) : ArrayInstr S R → List (Payload S R)
  | .update i v _ => if v.isObjectValue then l else l.set i v
  | .arrayInsert i v _ => l.insertIdx i v
  | .arrayMove i j _ => moveIdx l i j
  | .arrayErase i _ => l.eraseIdx i

/-- Where each element after the instruction comes from. -/
def source : ArrayInstr S R → Nat → Source (Payload S R)
  | .update i v _ => if v.isObjectValue then .old else setSource i v
  | .arrayInsert i v _ => insertSource i v
  | .arrayMove i j _ => moveSource i j
  | .arrayErase i _ => eraseSource i

/-- The sources of what is left of an instruction after a merge: none for a discarded one. -/
def sourceOpt : Option (ArrayInstr S R) → Nat → Source (Payload S R)
  | none => .old
  | some o => o.source

/-- The effect of what is left of an instruction after a merge. -/
def runOpt (l : List (Payload S R)) : Option (ArrayInstr S R) → List (Payload S R)
  | none => l
  | some o => o.run l

variable {l : List (Payload S R)} {o : ArrayInstr S R}

lemma length_run (h : o.Valid l.length) : (o.run l).length = o.sizeAfter l.length := by
  cases o with
  | update i v ps =>
    simp only [run, sizeAfter]
    split_ifs <;> simp
  | arrayInsert i v ps => simp [run, sizeAfter, List.length_insertIdx_of_le_length h.1]
  | arrayMove i j ps => exact length_moveIdx l i j h.2.1
  | arrayErase i ps => simp [run, sizeAfter, List.length_eraseIdx_of_lt h.1]

lemma describedBy_run (h : o.Valid l.length) : DescribedBy l (o.run l) o.source := by
  cases o with
  | update i v ps =>
    simp only [run, source]
    split_ifs
    · exact describedBy_self l
    · exact describedBy_set h.1 v
  | arrayInsert i v ps => exact describedBy_insertIdx h.1 v
  | arrayMove i j ps => exact describedBy_moveIdx h.1 h.2.1
  | arrayErase i ps => exact describedBy_eraseIdx l i

lemma describedBy_runOpt {o : Option (ArrayInstr S R)} (h : ∀ x ∈ o, x.Valid l.length) :
    DescribedBy l (runOpt l o) (sourceOpt o) := by
  cases o with
  | none => exact describedBy_self l
  | some o => exact describedBy_run (h o rfl)

end ArrayInstr

/-! ## `Lst<T>::move` moves the element -/

section Move

variable {S R : Type} {l : List (Payload S R)} {i j : Nat}

lemma getElem?_swapIdx (hi : i < l.length) (hj : j < l.length) (k : Nat) :
    (swapIdx l i j)[k]? = if k = j then l[i]? else if k = i then l[j]? else l[k]? := by
  have ha : l[i]? = some l[i] := List.getElem?_eq_getElem hi
  have hb : l[j]? = some l[j] := List.getElem?_eq_getElem hj
  unfold swapIdx
  rw [ha, hb]
  dsimp only
  rw [List.getElem?_set, List.getElem?_set, List.length_set]
  by_cases hkj : k = j
  · subst hkj
    simp [hj]
  · by_cases hki : k = i
    · subst hki
      simp [Ne.symm hkj, hkj, hi]
    · simp [Ne.symm hkj, Ne.symm hki, hkj, hki]

lemma length_swapIdx (i j : Nat) : (swapIdx l i j).length = l.length := by
  unfold swapIdx
  split <;> simp

/-- `Lst<T>::move` on two different positions of the list moves the element. -/
lemma lstMove_eq (hi : i < l.length) (hj : j < l.length) (hij : i ≠ j) :
    lstMove l i j = .ok (moveIdx l i j) := by
  simp only [lstMove, if_pos hi, if_pos hj, ne_eq, hij, not_false_eq_true, if_true,
    Except.ok.injEq]
  have hmove := describedBy_moveIdx hi hj
  -- the default value goes in past the destination, and the moved value is swapped into it
  have hins : ∀ t ≤ l.length, (l.insertIdx t (defaultValue : Payload S R)).length = l.length + 1 :=
    fun t ht => List.length_insertIdx_of_le_length ht _
  apply List.ext_getElem?
  intro k
  rw [hmove k, List.getElem?_eraseIdx]
  by_cases hji : j > i
  · simp only [if_pos hji]
    rw [getElem?_swapIdx (by rw [hins _ (by omega)]; omega) (by rw [hins _ (by omega)]; omega),
      getElem?_swapIdx (by rw [hins _ (by omega)]; omega) (by rw [hins _ (by omega)]; omega)]
    simp only [List.getElem?_insertIdx, moveSource, eraseSource]
    split_ifs <;> first | rfl | omega | (simp only [Source.resolve_old]; congr 1; omega)
  · simp only [if_neg hji]
    rw [getElem?_swapIdx (by rw [hins _ (by omega)]; omega) (by rw [hins _ (by omega)]; omega),
      getElem?_swapIdx (by rw [hins _ (by omega)]; omega) (by rw [hins _ (by omega)]; omega)]
    simp only [List.getElem?_insertIdx, moveSource, eraseSource]
    split_ifs <;> first | rfl | omega | (simp only [Source.resolve_old]; congr 1; omega)

end Move

namespace ArrayInstr

variable {S R : Type} {accepts : Payload S R → Bool} {l : List (Payload S R)} {o : ArrayInstr S R}

/-- A valid instruction whose value the column takes applies, with the effect `run`. -/
lemma applyArrayInstr_eq_ok (hv : o.Valid l.length) (ha : o.accepted accepts = true) :
    applyArrayInstr accepts l o = .ok (o.run l) := by
  cases o with
  | update i v ps =>
    obtain ⟨hi, -⟩ := hv
    simp only [accepted, Bool.or_eq_true] at ha
    simp only [applyArrayInstr, updateListIndex, run]
    cases v <;> simp_all [Payload.isObjectValue, takesValue]
  | arrayInsert i v ps =>
    obtain ⟨hi, rfl⟩ := hv
    simp only [accepted] at ha
    simp only [applyArrayInstr, insertListIndex, run, gt_iff_lt, not_lt.mpr hi, if_false, ne_eq,
      not_true_eq_false]
    cases v <;> simp_all [takesValue]
  | arrayMove i j ps =>
    obtain ⟨hi, hj, hij, rfl⟩ := hv
    simp only [applyArrayInstr, run, not_le.mpr hi, not_le.mpr hj, hij, if_false, ne_eq,
      not_true_eq_false]
    exact lstMove_eq hi hj hij
  | arrayErase i ps =>
    obtain ⟨hi, rfl⟩ := hv
    simp [applyArrayInstr, run, not_le.mpr hi]

/-- An instruction that applies has a value the column takes. -/
lemma accepted_of_applyArrayInstr {l' : List (Payload S R)}
    (h : applyArrayInstr accepts l o = .ok l') : o.accepted accepts = true := by
  cases o with
  | update i v ps =>
    simp only [applyArrayInstr, updateListIndex] at h
    simp only [accepted, Bool.or_eq_true]
    -- a value other than an embedded object passed the column's check
    cases v <;> first
      | exact Or.inl rfl
      | cases h
      | (refine Or.inr ?_
         by_contra hc
         simp_all [takesValue])
  | arrayInsert i v ps =>
    simp only [applyArrayInstr, insertListIndex] at h
    split_ifs at h
    simp only [accepted]
    cases v <;> first
      | cases h
      | (by_contra hc
         simp_all [takesValue])
  | arrayMove => rfl
  | arrayErase => rfl

end ArrayInstr

end Realm.Sync
