import Mathlib

/-!
# Where the elements of an edited list come from

An edit of a list by positions (inserting a value, erasing an element, overwriting one, or
moving one) leaves at each position of the result either an element of the list before it,
taken from a position the edit computes, or a value the edit writes.  A `Source` names the one
or the other, and `DescribedBy l l' f` says that `f` gives the source of every position of
`l'` in `l`.

Describing edits by their sources turns equalities of edited lists into equalities of
positions.  Sources compose (`DescribedBy.trans`), and two lists described from one list by
the same sources are equal (`DescribedBy.eq_of_source_eq`); so two sequences of edits give the
same list as soon as their composed sources agree, which is a statement about numbers only.

The edits are `List.insertIdx`, `List.eraseIdx`, `List.set`, and `moveIdx`, which erases the
element at one position and inserts it at another.
-/

namespace ListSource

/-- Where a position of an edited list takes its element from: a position of the list before
the edit, or a value the edit writes. -/
inductive Source (α : Type*) where
  | old (j : Nat)
  | new (a : α)
deriving DecidableEq, Repr

variable {α : Type*}

namespace Source

/-- The element a source names in the list before the edit. -/
def resolve (l : List α) : Source α → Option α
  | old j => l[j]?
  | new a => some a

/-- A source of a second edit, traced back through the sources of the first. -/
def bind (f : Nat → Source α) : Source α → Source α
  | old j => f j
  | new a => new a

@[simp] lemma resolve_old (l : List α) (j : Nat) : (old j).resolve l = l[j]? := rfl

@[simp] lemma resolve_new (l : List α) (a : α) : (new a : Source α).resolve l = some a := rfl

@[simp] lemma bind_old (f : Nat → Source α) (j : Nat) : (old j).bind f = f j := rfl

@[simp] lemma bind_new (f : Nat → Source α) (a : α) : (new a).bind f = new a := rfl

@[simp] lemma bind_ite (f : Nat → Source α) (c : Prop) [Decidable c] (s t : Source α) :
    (if c then s else t).bind f = if c then s.bind f else t.bind f :=
  apply_ite _ _ _ _

@[simp] lemma old_inj {i j : Nat} : (old i : Source α) = old j ↔ i = j :=
  ⟨fun h => Source.old.inj h, fun h => h ▸ rfl⟩

@[simp] lemma old_ne_new {j : Nat} {a : α} : old j ≠ new a := fun h => nomatch h

@[simp] lemma new_ne_old {j : Nat} {a : α} : new a ≠ old j := fun h => nomatch h

end Source

open Source

/-- `f` gives the source in `l` of every position of `l'`. -/
def DescribedBy (l l' : List α) (f : Nat → Source α) : Prop :=
  ∀ k, l'[k]? = (f k).resolve l

/-! ## The sources of the edits -/

/-- The sources of `l.insertIdx i a`: the positions below `i` keep theirs, `i` holds `a`, and
those above come from one position lower. -/
def insertSource (i : Nat) (a : α) (k : Nat) : Source α :=
  if k < i then old k else if k = i then new a else old (k - 1)

/-- The sources of `l.eraseIdx i`: the positions from `i` on come from one position higher. -/
def eraseSource (i : Nat) (k : Nat) : Source α :=
  if k < i then old k else old (k + 1)

/-- The sources of `l.set i a`. -/
def setSource (i : Nat) (a : α) (k : Nat) : Source α :=
  if k = i then new a else old k

/-- The sources of the move of the element at `i` to `j`: those of the erase at `i`, with the
element from `i` inserted at `j`. -/
def moveSource (i j : Nat) (k : Nat) : Source α :=
  if k < j then eraseSource i k else if k = j then old i else eraseSource i (k - 1)

/-- Moving the element at `i` to position `j`: erasing it, and inserting it at `j` of the
shorter list. -/
def moveIdx (l : List α) (i j : Nat) : List α :=
  match l[i]? with
  | some a => (l.eraseIdx i).insertIdx j a
  | none => l

section Edits

variable {l : List α} {i j : Nat} {a : α}

lemma describedBy_self (l : List α) : DescribedBy l l old := fun _ => rfl

lemma describedBy_insertIdx (h : i ≤ l.length) (a : α) :
    DescribedBy l (l.insertIdx i a) (insertSource i a) := by
  intro k
  rw [List.getElem?_insertIdx, insertSource]
  split_ifs <;> first | rfl | omega

lemma describedBy_eraseIdx (l : List α) (i : Nat) : DescribedBy l (l.eraseIdx i) (eraseSource i) := by
  intro k
  rw [List.getElem?_eraseIdx, eraseSource]
  split_ifs <;> rfl

lemma describedBy_set (h : i < l.length) (a : α) : DescribedBy l (l.set i a) (setSource i a) := by
  intro k
  rw [List.getElem?_set, setSource]
  by_cases hk : k = i
  · subst hk
    simp [h]
  · simp [hk, Ne.symm hk]

lemma length_moveIdx (l : List α) (i j : Nat) (hj : j < l.length) :
    (moveIdx l i j).length = l.length := by
  unfold moveIdx
  split
  · rename_i a ha
    have hi : i < l.length := (List.getElem?_eq_some_iff.mp ha).1
    rw [List.length_insertIdx_of_le_length (by rw [List.length_eraseIdx_of_lt hi]; omega),
      List.length_eraseIdx_of_lt hi]
    omega
  · rfl

lemma describedBy_moveIdx (hi : i < l.length) (hj : j < l.length) :
    DescribedBy l (moveIdx l i j) (moveSource i j) := by
  intro k
  have ha : l[i]? = some l[i] := List.getElem?_eq_getElem hi
  have hle : j ≤ (l.eraseIdx i).length := by rw [List.length_eraseIdx_of_lt hi]; omega
  simp only [moveIdx, ha]
  rw [List.getElem?_insertIdx, moveSource]
  split_ifs with h₁ h₂ h₃
  · exact describedBy_eraseIdx l i k
  · exact ha.symm
  · omega
  · exact describedBy_eraseIdx l i (k - 1)

/-- A move of an element to where it already is reads every position from itself. -/
lemma moveSource_self (i k : Nat) : (moveSource i i k : Source α) = old k := by
  unfold moveSource eraseSource
  split_ifs <;> first | rfl | (congr 1; omega)

end Edits

/-! ## Composition and equality -/

section Compose

variable {l l₁ l₂ : List α} {f g : Nat → Source α}

/-- The sources of an edit after an edit: those of the second traced through the first. -/
lemma DescribedBy.trans (h₁ : DescribedBy l l₁ f) (h₂ : DescribedBy l₁ l₂ g) :
    DescribedBy l l₂ fun k => (g k).bind f := by
  intro k
  show l₂[k]? = ((g k).bind f).resolve l
  rw [h₂ k]
  cases g k with
  | old j => exact h₁ j
  | new a => rfl

/-- Two lists with the same sources in one list are equal. -/
lemma DescribedBy.eq_of_source_eq (h₁ : DescribedBy l l₁ f) (h₂ : DescribedBy l l₂ g)
    (h : ∀ k, f k = g k) : l₁ = l₂ :=
  List.ext_getElem? fun k => by rw [h₁ k, h₂ k, h k]

end Compose

end ListSource
