import Mathlib

/-!
# `std::lower_bound`

libstdc++'s `std::lower_bound(first, last, value)` is a binary search that keeps a range
`[first, first + len)` and halves it: when the middle element is below `value` the range moves
past it, otherwise it shrinks to the lower half.  It returns where the range ends up.  The
comparison is the element type's `<`, which need not be an order at all; `lowerBound` runs the
same steps for any Boolean comparison `lt`, on fuel, which the length of the list bounds.

When the list is partitioned by `lt · v` (the elements below `v` first), the search returns
the partition point (`lowerBound_eq_of_partition`).  `halving` is the branch-free variant
that computes the next range size independently of the comparison: a probe below `v` moves
the range start past the lower half only, by the larger half of an odd range and by the half
of an even one, so it may compare an element twice.  It returns the partition point too
(`halving_eq_of_partition`).  A list strictly sorted by a linear order
is partitioned by every value, and there the partition point is where `List.orderedInsert`
puts `v` (`insertIdx_eq_orderedInsert`).
-/

namespace LowerBound

variable {α : Type*}

/-- The loop of `std::__lower_bound` on the range of length `len` from `first`, on fuel. -/
def loop (lt : α → α → Bool) (l : List α) (v : α) : Nat → Nat → Nat → Nat
  | 0, first, _ => first
  | fuel + 1, first, len =>
    if len = 0 then first
    else
      let half := len / 2
      let middle := first + half
      match l[middle]? with
      | some x =>
        if lt x v then loop lt l v fuel (middle + 1) (len - half - 1)
        else loop lt l v fuel first half
      | none => first

/-- `std::lower_bound(l.begin(), l.end(), v)`, as an index. -/
def lowerBound (lt : α → α → Bool) (l : List α) (v : α) : Nat :=
  loop lt l v l.length 0 l.length

section Partition

variable {lt : α → α → Bool} {l : List α} {v : α} {k : Nat}

/-- On a list whose elements below `v` are exactly those before `k`, the loop keeps `k` in its
range and ends there, given fuel for every halving. -/
lemma loop_eq_of_partition
    (hpart : ∀ (i : Nat) (hi : i < l.length), lt l[i] v = true ↔ i < k) :
    ∀ (fuel first len : Nat), len ≤ fuel → first + len ≤ l.length → first ≤ k →
      k ≤ first + len → loop lt l v fuel first len = k := by
  intro fuel
  induction fuel with
  | zero =>
    intro first len hlen _ h₁ h₂
    simp only [Nat.le_zero.mp hlen, Nat.add_zero] at h₂
    exact Nat.le_antisymm h₁ h₂
  | succ fuel ih =>
    intro first len hlen hrange h₁ h₂
    unfold loop
    by_cases h0 : len = 0
    · rw [if_pos h0]
      subst h0
      omega
    · rw [if_neg h0]
      have hmid : first + len / 2 < l.length := by omega
      simp only [List.getElem?_eq_getElem hmid]
      by_cases hlt : lt l[first + len / 2] v = true
      · -- the middle element is below `v`, so `k` lies past it
        have hk' := (hpart _ hmid).mp hlt
        rw [if_pos hlt]
        exact ih _ _ (by omega) (by omega) (by omega) (by omega)
      · -- the middle element is not below `v`, so `k` is at or before it
        have hk' : ¬ first + len / 2 < k := fun h => hlt ((hpart _ hmid).mpr h)
        rw [if_neg hlt]
        exact ih _ _ (by omega) (by omega) h₁ (by omega)

/-- On a partitioned list `lower_bound` returns the partition point. -/
theorem lowerBound_eq_of_partition (hk : k ≤ l.length)
    (hpart : ∀ (i : Nat) (hi : i < l.length), lt l[i] v = true ↔ i < k) :
    lowerBound lt l v = k :=
  loop_eq_of_partition hpart _ _ _ (Nat.le_refl _) (by simp) (Nat.zero_le _) (by simpa using hk)

/-! ## The branch-free variant -/

/-- The range `[low, low + size)` is halved to `[low + (size - size / 2), low + size)` when the
element at `low + size / 2` is below `v`, and to `[low, low + size / 2)` otherwise. -/
def halving (lt : α → α → Bool) (l : List α) (v : α) (low size : Nat) : Nat :=
  if size = 0 then low
  else
    match l[low + size / 2]? with
    | some x =>
      halving lt l v (if lt x v then low + (size - size / 2) else low) (size / 2)
    | none => low
termination_by size
decreasing_by all_goals omega

/-- On a list whose elements below `v` are exactly those before `k`, the halving search keeps
`k` in its range and ends there. -/
lemma halving_eq_of_partition
    (hpart : ∀ (i : Nat) (hi : i < l.length), lt l[i] v = true ↔ i < k) :
    ∀ (size low : Nat), low + size ≤ l.length → low ≤ k → k ≤ low + size →
      halving lt l v low size = k := by
  intro size
  induction size using Nat.strong_induction_on with
  | _ size ih =>
    intro low hrange h₁ h₂
    unfold halving
    by_cases h0 : size = 0
    · rw [if_pos h0]
      omega
    · rw [if_neg h0]
      have hprobe : low + size / 2 < l.length := by omega
      simp only [List.getElem?_eq_getElem hprobe]
      have hhalf : size / 2 < size := by omega
      by_cases hlt : lt l[low + size / 2] v = true
      · -- the probe is below `v`, so `k` lies past it
        have hk' := (hpart _ hprobe).mp hlt
        rw [if_pos hlt]
        exact ih _ hhalf _ (by omega) (by omega) (by omega)
      · -- the probe is not below `v`, so `k` is at or before it
        have hk' : ¬ low + size / 2 < k := fun h => hlt ((hpart _ hprobe).mpr h)
        rw [if_neg hlt]
        exact ih _ hhalf _ (by omega) h₁ (by omega)

/-- The halving search over a whole partitioned list returns the partition point. -/
theorem halving_whole_eq_of_partition (hk : k ≤ l.length)
    (hpart : ∀ (i : Nat) (hi : i < l.length), lt l[i] v = true ↔ i < k) :
    halving lt l v 0 l.length = k :=
  halving_eq_of_partition hpart _ _ (by simp) (Nat.zero_le _) (by simpa using hk)

/-- A test that, once it holds of an element, holds of every earlier one, holds exactly of the
leading run of elements it accepts: the list is partitioned at the length of that run. -/
lemma getElem_iff_lt_length_takeWhile {p : α → Bool} :
    ∀ {l : List α}, (∀ (i j : Nat) (hi : i < l.length) (hj : j < l.length), i < j →
      p l[j] = true → p l[i] = true) →
    ∀ (i : Nat) (hi : i < l.length), p l[i] = true ↔ i < (l.takeWhile p).length
  | [], _, i, hi => absurd hi (Nat.not_lt_zero i)
  | a :: t, hdown, i, hi => by
    have ht : ∀ (i j : Nat) (hi : i < t.length) (hj : j < t.length), i < j →
        p t[j] = true → p t[i] = true := fun i j hi hj hij h =>
      hdown (i + 1) (j + 1) (by simpa using hi) (by simpa using hj) (by omega) h
    by_cases ha : p a = true
    · rw [List.takeWhile_cons_of_pos ha, List.length_cons]
      cases i with
      | zero => simpa using ha
      | succ i =>
        rw [List.getElem_cons_succ, getElem_iff_lt_length_takeWhile ht i (by simpa using hi)]
        omega
    · -- the head fails the test, so no later element passes it
      rw [List.takeWhile_cons_of_neg ha, List.length_nil]
      cases i with
      | zero => simpa using ha
      | succ i =>
        simp only [Nat.not_lt_zero, iff_false]
        exact fun h => ha (hdown 0 (i + 1) (by simp) hi (Nat.succ_pos i) h)

/-- A test that, once it holds of an element, holds of every earlier one, holds of as many
elements as lead the list. -/
lemma length_takeWhile_eq_countP {p : α → Bool} :
    ∀ {l : List α}, l.Pairwise (fun a b => p b = true → p a = true) →
      (l.takeWhile p).length = l.countP p
  | [], _ => rfl
  | a :: t, h => by
    rw [List.pairwise_cons] at h
    by_cases ha : p a = true
    · rw [List.takeWhile_cons_of_pos ha, List.length_cons, List.countP_cons_of_pos ha,
        length_takeWhile_eq_countP h.2]
    · -- the head fails the test, so every later element fails it too
      rw [List.takeWhile_cons_of_neg ha, List.length_nil, List.countP_cons_of_neg ha, eq_comm,
        List.countP_eq_zero]
      exact fun b hb hpb => ha (h.1 b hb hpb)

/-- A list that its test partitions passes it exactly before the number of elements that pass
it. -/
lemma getElem_iff_lt_countP (h : l.Pairwise fun a b => lt b v = true → lt a v = true) :
    ∀ (i : Nat) (hi : i < l.length), lt l[i] v = true ↔ i < l.countP fun a => lt a v := by
  have hdown : ∀ (i j : Nat) (hi : i < l.length) (hj : j < l.length), i < j →
      lt l[j] v = true → lt l[i] v = true :=
    fun i j hi hj hij => List.pairwise_iff_getElem.mp h i j hi hj hij
  rw [← length_takeWhile_eq_countP (p := fun a => lt a v) h]
  exact getElem_iff_lt_length_takeWhile (p := fun a => lt a v) hdown

/-- `std::lower_bound` over a list that its test partitions returns the number of elements that
pass the test. -/
theorem lowerBound_eq_countP (h : l.Pairwise fun a b => lt b v = true → lt a v = true) :
    lowerBound lt l v = l.countP fun a => lt a v :=
  lowerBound_eq_of_partition (List.countP_le_length) (getElem_iff_lt_countP h)

/-- The halving search over a whole list that its test partitions returns the number of
elements that pass the test. -/
theorem halving_eq_countP (h : l.Pairwise fun a b => lt b v = true → lt a v = true) :
    halving lt l v 0 l.length = l.countP fun a => lt a v :=
  halving_whole_eq_of_partition (List.countP_le_length) (getElem_iff_lt_countP h)

/-- Inserting a value at a point of a list ordered by `R` that has the elements before it
below the value and the others above keeps the list ordered. -/
lemma pairwise_insertIdx {R : α → α → Prop} {l : List α} {p : Nat} {a : α}
    (hp : p ≤ l.length) (hl : l.Pairwise R)
    (hbefore : ∀ (i : Nat) (hi : i < l.length), i < p → R l[i] a)
    (hafter : ∀ (i : Nat) (hi : i < l.length), p ≤ i → R a l[i]) :
    (l.insertIdx p a).Pairwise R := by
  rw [List.pairwise_iff_getElem] at hl ⊢
  intro i j hi hj hij
  have hlen : (l.insertIdx p a).length = l.length + 1 := List.length_insertIdx_of_le_length hp a
  rw [List.getElem_insertIdx, List.getElem_insertIdx]
  -- each of the two positions is before, at or after the inserted one
  split_ifs with h₁ h₂ h₃ h₄ h₃ h₄ <;> first
    | omega
    | exact hl _ _ _ _ (by omega)
    | exact hbefore _ _ h₁
    | exact hafter _ _ (by omega)

end Partition

section Sorted

variable [LinearOrder α]

/-- The number of leading elements below `v`. -/
def below (l : List α) (v : α) : Nat := (l.takeWhile fun x => decide (x < v)).length

lemma below_le_length (l : List α) (v : α) : below l v ≤ l.length :=
  (List.takeWhile_sublist _).length_le

lemma below_cons_of_lt {a : α} {v : α} (t : List α) (ha : a < v) :
    below (a :: t) v = below t v + 1 := by
  unfold below
  simp [ha]

lemma below_cons_of_not_lt {a : α} {v : α} (t : List α) (ha : ¬a < v) : below (a :: t) v = 0 := by
  unfold below
  simp [ha]

/-- In a strictly sorted list the elements below `v` are the leading ones. -/
lemma getElem_lt_iff_of_sortedLT {l : List α} (hl : l.SortedLT) (v : α) :
    ∀ (i : Nat) (hi : i < l.length), l[i] < v ↔ i < below l v := by
  induction l with
  | nil => intro i hi; simp at hi
  | cons a t ih =>
    have hpair := List.sortedLT_iff_pairwise.mp hl
    rw [List.pairwise_cons] at hpair
    have ht : t.SortedLT := List.sortedLT_iff_pairwise.mpr hpair.2
    intro i hi
    by_cases ha : a < v
    · rw [below_cons_of_lt t ha]
      cases i with
      | zero => simpa using ha
      | succ i =>
        simp only [List.getElem_cons_succ]
        rw [ih ht i (by simpa using hi)]
        omega
    · -- `a` is not below `v`, and the rest lies above `a`
      rw [below_cons_of_not_lt t ha]
      cases i with
      | zero => simpa using ha
      | succ i =>
        have hi' : i < t.length := by simpa using hi
        simp only [List.getElem_cons_succ]
        have hat := hpair.1 t[i] (List.getElem_mem hi')
        simp only [Nat.not_lt_zero, iff_false, not_lt]
        exact le_of_lt (lt_of_le_of_lt (not_lt.mp ha) hat)

/-- In a strictly sorted list `lower_bound` with `<` returns the number of elements below `v`. -/
theorem lowerBound_eq_below {l : List α} (hl : l.SortedLT) (v : α) :
    lowerBound (fun x y => decide (x < y)) l v = below l v :=
  lowerBound_eq_of_partition (below_le_length l v) fun i hi => by
    rw [decide_eq_true_iff]
    exact getElem_lt_iff_of_sortedLT hl v i hi

/-- In a strictly sorted list, `v` is present exactly when it sits at the partition point. -/
lemma mem_iff_of_sortedLT {l : List α} (hl : l.SortedLT) (v : α) :
    v ∈ l ↔ ∃ h : below l v < l.length, l[below l v] = v := by
  constructor
  · intro hv
    obtain ⟨j, hj, rfl⟩ := List.getElem_of_mem hv
    have hnot : ¬ j < below l l[j] := by
      rw [← getElem_lt_iff_of_sortedLT hl _ j hj]
      exact lt_irrefl _
    have hle : below l l[j] ≤ j := by omega
    refine ⟨by omega, ?_⟩
    rcases Nat.lt_or_eq_of_le hle with hlt | heq
    · -- an element strictly before position `j` is below `l[j]`, contradicting the partition
      have hmono : l[below l l[j]] < l[j] := List.sortedLT_iff_getElem_lt_getElem_of_lt.mp hl hlt
      have hb := (getElem_lt_iff_of_sortedLT hl l[j] (below l l[j]) (by omega)).mp hmono
      omega
    · simp only [heq]
  · rintro ⟨h, hv⟩
    rw [← hv]
    exact List.getElem_mem h

/-- Inserting at the number of leading elements below `v` is the ordered insertion. -/
lemma insertIdx_eq_orderedInsert (v : α) :
    ∀ l : List α, l.insertIdx (below l v) v = l.orderedInsert (· ≤ ·) v
  | [] => rfl
  | a :: t => by
    by_cases ha : a < v
    · rw [below_cons_of_lt t ha, List.insertIdx_succ_cons, insertIdx_eq_orderedInsert v t,
        List.orderedInsert_of_not_le (· ≤ ·) t (not_le.mpr ha)]
    · rw [below_cons_of_not_lt t ha, List.insertIdx_zero, List.orderedInsert_cons_of_le (· ≤ ·) t (not_lt.mp ha)]

/-- Ordered insertion of an absent value keeps a list strictly sorted. -/
lemma sortedLT_orderedInsert {l : List α} (hl : l.SortedLT) {v : α} (hv : v ∉ l) :
    (l.orderedInsert (· ≤ ·) v).SortedLT := by
  rw [List.sortedLT_iff_nodup_and_sortedLE] at hl ⊢
  refine ⟨?_, ?_⟩
  · exact (List.perm_orderedInsert _ v l).nodup_iff.mpr (List.nodup_cons.mpr ⟨hv, hl.1⟩)
  · rw [List.sortedLE_iff_pairwise] at hl ⊢
    exact hl.2.orderedInsert v l

end Sorted

end LowerBound
