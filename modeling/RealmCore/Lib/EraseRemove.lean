import Mathlib

/-!
# Erasing from a vector inside a range-`for` over it

`v.erase(std::remove(v.begin(), v.end(), x), v.end())` keeps the elements of `v` other than
`x`, in order.  libstdc++'s `std::remove` moves each kept element left over the removed ones
and leaves the slots from the new end on untouched; `erase` of a trivially destructible tail
only lowers the size, so the storage keeps its old values there.

A range-`for` fixes `end()` before its first iteration.  When its body erases from the vector
it iterates over, later iterations read the storage rather than the elements: the survivors
shifted left and, past the new end, the stale tail.  The standard leaves this undefined;
`Storage` and `rangeFor` follow what the libstdc++ code does, since an erase neither
reallocates nor clears the storage.
-/

namespace EraseRemove

variable {α β : Type*}

/-- A vector's storage together with its logical size. -/
structure Storage (α : Type*) where
  buf : List α
  size : Nat
  size_le : size ≤ buf.length

namespace Storage

/-- The elements of the vector: the first `size` slots of its storage. -/
def elems (s : Storage α) : List α :=
  s.buf.take s.size

/-- A vector whose storage holds exactly its elements. -/
def ofList (l : List α) : Storage α :=
  ⟨l, l.length, Nat.le_refl _⟩

@[simp] lemma elems_ofList (l : List α) : (ofList l).elems = l := by
  simp [elems, ofList]

@[simp] lemma buf_ofList (l : List α) : (ofList l).buf = l := rfl

lemma length_elems (s : Storage α) : s.elems.length = s.size := by
  simp [elems, s.size_le]

variable [DecidableEq α]

/-- `erase(std::remove(begin, end, x), end)`: the kept elements move to the front and the
slots after them keep what they held. -/
def eraseRemove (s : Storage α) (x : α) : Storage α where
  buf := s.elems.filter (· != x) ++ s.buf.drop (s.elems.filter (· != x)).length
  size := (s.elems.filter (· != x)).length
  size_le := by simp

@[simp] lemma elems_eraseRemove (s : Storage α) (x : α) :
    (s.eraseRemove x).elems = s.elems.filter (· != x) := by
  simp [elems, eraseRemove]

/-- An erase only moves values the storage held. -/
lemma mem_buf_eraseRemove {s : Storage α} {x y : α} (hy : y ∈ (s.eraseRemove x).buf) :
    y ∈ s.buf := by
  rcases List.mem_append.mp hy with hy | hy
  · exact List.take_subset _ _ (List.mem_of_mem_filter hy)
  · exact List.mem_of_mem_drop hy

/-- Erasing never shrinks the storage, so every slot a range-`for` started with stays
readable. -/
@[simp] lemma length_buf_eraseRemove (s : Storage α) (x : α) :
    (s.eraseRemove x).buf.length = s.buf.length := by
  have hkept : (s.elems.filter (· != x)).length ≤ s.buf.length :=
    Nat.le_trans (List.length_filter_le _ _) (s.length_elems ▸ s.size_le)
  simp only [eraseRemove, List.length_append, List.length_drop]
  omega

end Storage

/-- A range-`for` over a vector whose body may change that vector: `count` iterations from
slot `i`, each reading the slot of the storage as it is at that iteration.  The body sees
the outer state and the current storage and returns both updated. -/
def rangeFor (body : β → Storage α → α → β × Storage α) :
    Nat → Nat → β → Storage α → β
  | _, 0, b, _ => b
  | i, k + 1, b, st =>
    match st.buf[i]? with
    | some x => rangeFor body (i + 1) k (body b st x).1 (body b st x).2
    | none => rangeFor body (i + 1) k b st

/-- A property of the outer state that every iteration keeps holds after the loop. -/
theorem rangeFor_invariant {body : β → Storage α → α → β × Storage α} {P : β → Prop}
    (hbody : ∀ b st x, P b → P (body b st x).1) :
    ∀ (i k : Nat) (b : β) (st : Storage α), P b → P (rangeFor body i k b st) := by
  intro i k
  induction k generalizing i with
  | zero => exact fun _ _ h => h
  | succ k ih =>
    intro b st h
    simp only [rangeFor]
    split
    · exact ih (i + 1) _ _ (hbody b st _ h)
    · exact ih (i + 1) b st h

/-- The induction rule of the loop: an invariant of the outer state and the storage together
that every iteration keeps, on a value it reads from the storage, holds after the loop, of the
state the loop returns and the storage it leaves. -/
theorem rangeFor_induction {body : β → Storage α → α → β × Storage α}
    {I : β → Storage α → Prop}
    (hbody : ∀ b st x, x ∈ st.buf → I b st → I (body b st x).1 (body b st x).2) :
    ∀ (i k : Nat) (b : β) (st : Storage α), I b st → ∃ st', I (rangeFor body i k b st) st' := by
  intro i k
  induction k generalizing i with
  | zero => exact fun b st h => ⟨st, h⟩
  | succ k ih =>
    intro b st h
    simp only [rangeFor]
    split
    · next x hx => exact ih (i + 1) _ _ (hbody b st x (List.mem_of_getElem? hx) h)
    · exact ih (i + 1) b st h

end EraseRemove
