import Mathlib

/-!
# Two parallel lists read as an association list

A container that keeps its keys in one list and the values at the same positions in another
is the association list `keys.zip values`, and `List.lookup` on it is the map the container
stands for.  Inserting, overwriting or erasing at one position in both lists is then an update
of that map at the key there, as long as the keys are distinct: the lemmas below say so for
`insertIdx`, `set` and `eraseIdx`.
-/

namespace ZipLookup

variable {α β : Type*} [DecidableEq α]

lemma lookup_cons_of_ne {a k : α} {b : β} {l : List (α × β)} (h : k ≠ a) :
    ((a, b) :: l).lookup k = l.lookup k := by
  simp [List.lookup, beq_false_of_ne h]

/-- A key that is not among the keys has no value. -/
lemma lookup_zip_of_not_mem {k : α} :
    ∀ {keys : List α} {values : List β}, k ∉ keys → (keys.zip values).lookup k = none
  | [], _, _ => rfl
  | _ :: _, [], _ => rfl
  | a :: keys, _ :: values, h => by
    rw [List.zip_cons_cons, lookup_cons_of_ne (fun e => h (List.mem_cons.mpr (Or.inl e)))]
    exact lookup_zip_of_not_mem fun hk => h (List.mem_cons_of_mem _ hk)

/-- With distinct keys, the `i`-th key has the `i`-th value. -/
lemma lookup_zip_getElem :
    ∀ {keys : List α} {values : List β}, keys.Nodup → ∀ {i : Nat} (hi : i < keys.length)
      (hv : i < values.length), (keys.zip values).lookup keys[i] = some values[i]
  | [], _, _, _, hi, _ => absurd hi (Nat.not_lt_zero _)
  | _ :: _, [], _, _, _, hv => absurd hv (Nat.not_lt_zero _)
  | a :: keys, b :: values, hnodup, i, hi, hv => by
    rw [List.zip_cons_cons]
    cases i with
    | zero => simp
    | succ i =>
      have hnodup' := List.nodup_cons.mp hnodup
      have hi' : i < keys.length := by simpa using hi
      have hne : keys[i] ≠ a := fun e => hnodup'.1 (e ▸ List.getElem_mem hi')
      simp only [List.getElem_cons_succ]
      rw [lookup_cons_of_ne hne]
      exact lookup_zip_getElem hnodup'.2 hi' _

/-- Inserting a new key and its value at one position adds them to the map. -/
lemma lookup_zip_insertIdx {key : α} (value : β) (k : α) :
    ∀ {keys : List α} {values : List β} {i : Nat}, key ∉ keys → i ≤ keys.length →
      keys.length = values.length →
      ((keys.insertIdx i key).zip (values.insertIdx i value)).lookup k =
        if k = key then some value else (keys.zip values).lookup k
  | keys, values, 0, hkey, _, _ => by
    rw [List.insertIdx_zero, List.insertIdx_zero, List.zip_cons_cons]
    by_cases hk : k = key
    · simp [hk]
    · rw [lookup_cons_of_ne hk, if_neg hk]
  | [], _, _ + 1, _, hi, _ => absurd hi (by simp)
  | _ :: _, [], _ + 1, _, _, hlen => absurd hlen (by simp)
  | a :: keys, b :: values, i + 1, hkey, hi, hlen => by
    rw [List.insertIdx_succ_cons, List.insertIdx_succ_cons, List.zip_cons_cons,
      List.zip_cons_cons]
    have hrest := @lookup_zip_insertIdx key value k keys values i
      (fun h => hkey (List.mem_cons_of_mem _ h)) (by simpa using hi) (by simpa using hlen)
    by_cases hka : k = a
    · -- `k` is the first key, which differs from the new one
      subst hka
      have hne : k ≠ key := fun e => hkey (List.mem_cons.mpr (Or.inl e.symm))
      rw [List.lookup_cons_self, if_neg hne, List.lookup_cons_self]
    · rw [lookup_cons_of_ne hka, lookup_cons_of_ne hka, hrest]

/-- Overwriting the value at the position of a key changes the map at that key only. -/
lemma lookup_zip_set (value : β) (k : α) :
    ∀ {keys : List α} {values : List β}, keys.Nodup → ∀ {i : Nat} (hi : i < keys.length),
      keys.length = values.length →
      (keys.zip (values.set i value)).lookup k =
        if k = keys[i] then some value else (keys.zip values).lookup k
  | [], _, _, _, hi, _ => absurd hi (Nat.not_lt_zero _)
  | _ :: _, [], _, _, _, hlen => absurd hlen (by simp)
  | a :: keys, b :: values, hnodup, i, hi, hlen => by
    have hnodup' := List.nodup_cons.mp hnodup
    cases i with
    | zero =>
      rw [List.set_cons_zero, List.zip_cons_cons, List.zip_cons_cons]
      by_cases hk : k = a
      · simp [hk]
      · rw [List.getElem_cons_zero, if_neg hk, lookup_cons_of_ne hk, lookup_cons_of_ne hk]
    | succ i =>
      have hi' : i < keys.length := by simpa using hi
      rw [List.set_cons_succ, List.zip_cons_cons, List.zip_cons_cons, List.getElem_cons_succ]
      by_cases hka : k = a
      · -- the first key is not the one at `i + 1`
        subst hka
        have hne : k ≠ keys[i] := fun e => hnodup'.1 (e ▸ List.getElem_mem hi')
        rw [List.lookup_cons_self, if_neg hne, List.lookup_cons_self]
      · rw [lookup_cons_of_ne hka, lookup_cons_of_ne hka,
          lookup_zip_set value k hnodup'.2 hi' (by simpa using hlen)]

/-- Erasing the key and the value at one position removes that key from the map. -/
lemma lookup_zip_eraseIdx (k : α) :
    ∀ {keys : List α} {values : List β}, keys.Nodup → ∀ {i : Nat} (hi : i < keys.length),
      keys.length = values.length →
      ((keys.eraseIdx i).zip (values.eraseIdx i)).lookup k =
        if k = keys[i] then none else (keys.zip values).lookup k
  | [], _, _, _, hi, _ => absurd hi (Nat.not_lt_zero _)
  | _ :: _, [], _, _, _, hlen => absurd hlen (by simp)
  | a :: keys, b :: values, hnodup, i, hi, hlen => by
    have hnodup' := List.nodup_cons.mp hnodup
    cases i with
    | zero =>
      rw [List.eraseIdx_cons_zero, List.eraseIdx_cons_zero, List.zip_cons_cons,
        List.getElem_cons_zero]
      by_cases hk : k = a
      · rw [if_pos hk, hk]
        exact lookup_zip_of_not_mem hnodup'.1
      · rw [if_neg hk, lookup_cons_of_ne hk]
    | succ i =>
      have hi' : i < keys.length := by simpa using hi
      rw [List.eraseIdx_cons_succ, List.eraseIdx_cons_succ, List.zip_cons_cons,
        List.zip_cons_cons, List.getElem_cons_succ]
      by_cases hka : k = a
      · subst hka
        have hne : k ≠ keys[i] := fun e => hnodup'.1 (e ▸ List.getElem_mem hi')
        rw [List.lookup_cons_self, if_neg hne, List.lookup_cons_self]
      · rw [lookup_cons_of_ne hka, lookup_cons_of_ne hka,
          lookup_zip_eraseIdx k hnodup'.2 hi' (by simpa using hlen)]

end ZipLookup
