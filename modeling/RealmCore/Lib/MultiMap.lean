import Mathlib

/-!
# Multimaps as lists in key order

A `std::multimap<K, V>` keeps its entries in the order of their keys, and an entry emplaced
with a key that is already present goes after the entries of that key.  We model a multimap as
the list of its entries in that order and an iterator as a position in the list, the end
iterator being any position past the last entry.  `lower_bound` is the first position whose key
is not below the given one.

What an allocator proof needs of these operations is that they keep the entries, up to order:
emplacing adds one entry (`emplace_perm`) and erasing at a position takes that one out
(`perm_cons_eraseIdx`); and that the position `emplace` returns holds the new entry.
-/

namespace MultiMap

variable {κ ν : Type*}

section Ordered

variable [LinearOrder κ]

/-- `lower_bound(k)`: the position of the first entry whose key is not below `k`. -/
def lowerBound (m : List (κ × ν)) (k : κ) : Nat :=
  m.findIdx fun e => decide (k ≤ e.1)

/-- Where `emplace(k, v)` puts its entry: after every entry whose key is not above `k`. -/
def emplacePos (m : List (κ × ν)) (k : κ) : Nat :=
  m.findIdx fun e => decide (k < e.1)

/-- `emplace(k, v)`: the multimap with the new entry, and the position of the new entry. -/
def emplace (m : List (κ × ν)) (k : κ) (v : ν) : List (κ × ν) × Nat :=
  (m.insertIdx (emplacePos m k) (k, v), emplacePos m k)

variable {m : List (κ × ν)} {k : κ} {v : ν}

lemma emplacePos_le_length : emplacePos m k ≤ m.length :=
  List.findIdx_le_length

lemma emplace_perm : (emplace m k v).1.Perm ((k, v) :: m) :=
  List.perm_insertIdx _ _ emplacePos_le_length

lemma length_emplace : (emplace m k v).1.length = m.length + 1 :=
  List.Perm.length_eq emplace_perm

/-- The position `emplace` returns holds the new entry. -/
lemma getElem?_emplace : (emplace m k v).1[(emplace m k v).2]? = some (k, v) := by
  simp only [emplace]
  rw [List.getElem?_insertIdx_self, if_pos emplacePos_le_length]

end Ordered

/-- Erasing at a position takes that entry out. -/
lemma perm_cons_eraseIdx {m : List (κ × ν)} {i : Nat} {e : κ × ν} (he : m[i]? = some e) :
    m.Perm (e :: m.eraseIdx i) := by
  obtain ⟨hi, rfl⟩ := List.getElem?_eq_some_iff.mp he
  exact (List.getElem_cons_eraseIdx_perm hi).symm

end MultiMap
