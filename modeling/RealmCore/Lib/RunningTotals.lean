import Mathlib
import RealmCore.Lib.LowerBound

/-!
# Running totals

Parts of sizes `s₀, …, sₖ₋₁` laid end to end begin at the positions `0, s₀, s₀ + s₁, …`.  The
running totals `runningTotals s` are those positions but the first: the `k - 1` sums
`(s.take (j + 1)).sum`.  A search by `upper_bound` (`LowerBound.lowerBound` with `≤`) finds in
them the part that holds a position (`lowerBound_runningTotals`).

When one part changes, the running totals change in a way a few list operations describe: a
part that grows or shrinks by one moves the totals after it (`runningTotals_set_add_one`,
`runningTotals_set_sub_one`), a part split in two inserts a total, an empty part removes one
(`runningTotals_eraseIdx_of_eq_zero`), two parts merged into one remove the total between them
(`runningTotals_merge`), and the totals of two lists of parts laid end to end are those of the
first followed by the second's moved by the size of the first (`runningTotals_append`).  The
proofs go through the sums of the prefixes of the changed lists (`sum_take_set`,
`sum_take_insertIdx`, `sum_take_eraseIdx`).
-/

namespace List

/-! ## Sums of prefixes -/

/-- Longer prefixes have larger sums. -/
lemma sum_take_mono (s : List Nat) {a b : Nat} (h : a ≤ b) : (s.take a).sum ≤ (s.take b).sum := by
  obtain ⟨d, rfl⟩ := Nat.exists_eq_add_of_le h
  rw [take_add, sum_append]
  exact Nat.le_add_right _ _

/-- A position below the whole sum, and below the end of part `i` when a part follows it, is
below the end of part `i`. -/
lemma lt_sum_take_succ {s : List Nat} {i n : Nat} (hi : i < s.length)
    (h : i + 1 < s.length → n < (s.take (i + 1)).sum) (hn : n < s.sum) :
    n < (s.take (i + 1)).sum := by
  by_cases h' : i + 1 < s.length
  · exact h h'
  · rwa [take_of_length_le (by omega)]

/-- `lt_sum_take_succ` for a position up to the end. -/
lemma le_sum_take_succ {s : List Nat} {i n : Nat} (hi : i < s.length)
    (h : i + 1 < s.length → n ≤ (s.take (i + 1)).sum) (hn : n ≤ s.sum) :
    n ≤ (s.take (i + 1)).sum := by
  by_cases h' : i + 1 < s.length
  · exact h h'
  · rwa [take_of_length_le (by omega)]

/-- The prefixes of a list with one part replaced, past that part. -/
lemma sum_take_set (s : List Nat) {i m : Nat} (x : Nat) (hi : i < s.length) (hm : i < m) :
    ((s.set i x).take m).sum + s[i] = (s.take m).sum + x := by
  induction s generalizing i m with
  | nil => exact absurd hi (Nat.not_lt_zero _)
  | cons a s ih =>
    obtain ⟨m, rfl⟩ : ∃ m', m = m' + 1 := ⟨m - 1, by omega⟩
    cases i with
    | zero => simp; omega
    | succ i =>
      have := ih (i := i) (m := m) (by simpa using hi) (by omega)
      simp only [set_cons_succ, take_succ_cons, sum_cons, getElem_cons_succ]
      omega

/-- The prefixes of a list with a part inserted, past that part. -/
lemma sum_take_insertIdx (s : List Nat) {i m : Nat} (x : Nat) (hi : i ≤ s.length) (hm : i < m) :
    ((s.insertIdx i x).take m).sum = (s.take (m - 1)).sum + x := by
  induction s generalizing i m with
  | nil =>
    obtain rfl : i = 0 := by simpa using hi
    obtain ⟨m, rfl⟩ : ∃ m', m = m' + 1 := ⟨m - 1, by omega⟩
    simp
  | cons a s ih =>
    obtain ⟨m, rfl⟩ : ∃ m', m = m' + 1 := ⟨m - 1, by omega⟩
    cases i with
    | zero => simp [Nat.add_comm]
    | succ i =>
      obtain ⟨m, rfl⟩ : ∃ m', m = m' + 1 := ⟨m - 1, by omega⟩
      have := ih (i := i) (m := m + 1) (by simpa using hi) (by omega)
      simp only [insertIdx_succ_cons, take_succ_cons, sum_cons, Nat.add_sub_cancel] at this ⊢
      omega

/-- The prefixes of a list with a part removed, past that part. -/
lemma sum_take_eraseIdx (s : List Nat) {i m : Nat} (hi : i < s.length) (hm : i ≤ m) :
    ((s.eraseIdx i).take m).sum + s[i] = (s.take (m + 1)).sum := by
  induction s generalizing i m with
  | nil => exact absurd hi (Nat.not_lt_zero _)
  | cons a s ih =>
    cases i with
    | zero => simp; omega
    | succ i =>
      obtain ⟨m, rfl⟩ : ∃ m', m = m' + 1 := ⟨m - 1, by omega⟩
      have := ih (i := i) (m := m) (by simpa using hi) (by omega)
      simp only [eraseIdx_cons_succ, take_succ_cons, sum_cons, getElem_cons_succ]
      omega

/-! ## Running totals -/

/-- The running totals of a list of sizes but the last: where each part after the first
begins when the parts are laid end to end. -/
def runningTotals (s : List Nat) : List Nat :=
  (range (s.length - 1)).map fun j => (s.take (j + 1)).sum

@[simp] lemma length_runningTotals (s : List Nat) : s.runningTotals.length = s.length - 1 := by
  unfold runningTotals
  simp

@[simp] lemma getElem_runningTotals (s : List Nat) {j : Nat} (hj : j < s.runningTotals.length) :
    s.runningTotals[j] = (s.take (j + 1)).sum := by
  simp [runningTotals]

/-- Where part `i` begins, for `0 < i`. -/
lemma getD_runningTotals (s : List Nat) {i : Nat} (h₀ : 0 < i) (hi : i < s.length) :
    s.runningTotals.getD (i - 1) 0 = (s.take i).sum := by
  have hlt : i - 1 < s.runningTotals.length := by simp; omega
  rw [getD_eq_getElem?_getD, getElem?_eq_getElem hlt, Option.getD_some, getElem_runningTotals,
    Nat.sub_add_cancel h₀]

/-- `upper_bound` in the running totals finds the part that holds position `n`: the last part
that begins at or before `n`. -/
theorem lowerBound_runningTotals (s : List Nat) (n : Nat) (hs : s ≠ []) :
    let i := LowerBound.lowerBound (fun x v => decide (x ≤ v)) s.runningTotals n
    i < s.length ∧ (s.take i).sum ≤ n ∧ (i + 1 < s.length → n < (s.take (i + 1)).sum) := by
  intro i
  -- the totals at or below `n` are the leading ones, as the totals grow
  have hpart := LowerBound.getElem_iff_lt_length_takeWhile (l := s.runningTotals)
    (p := fun x => decide (x ≤ n)) fun j₁ j₂ hj₁ hj₂ hlt h => by
      simp only [getElem_runningTotals, decide_eq_true_eq] at h ⊢
      exact le_trans (sum_take_mono s (by omega)) h
  set p := (s.runningTotals.takeWhile fun x => decide (x ≤ n)).length with hp
  have hplen : p ≤ s.runningTotals.length := (takeWhile_sublist _).length_le
  have hi : i = p := LowerBound.lowerBound_eq_of_partition hplen hpart
  have hlen : 0 < s.length := length_pos_iff.mpr hs
  simp only [length_runningTotals] at hplen
  refine ⟨by omega, ?_, fun hnext => ?_⟩
  · rcases Nat.eq_zero_or_pos i with h0 | hpos
    · simp [h0]
    · have hlt : i - 1 < s.runningTotals.length := by simp; omega
      have := (hpart (i - 1) hlt).mpr (by omega)
      simpa [Nat.sub_add_cancel hpos] using this
  · have hlt : i < s.runningTotals.length := by simp; omega
    have := mt (hpart i hlt).mp (by omega)
    simpa using this

/-- A part grown by one moves the totals from its own on. -/
theorem runningTotals_set_add_one (s : List Nat) {i : Nat} (hi : i < s.length) :
    (s.set i (s[i] + 1)).runningTotals =
      s.runningTotals.take i ++ (s.runningTotals.drop i).map (· + 1) := by
  apply ext_getElem (by simp; omega)
  intro j h₁ h₂
  simp only [getElem_runningTotals, getElem_append, length_take, length_runningTotals,
    getElem_take, getElem_map, getElem_drop]
  split_ifs with hj
  · rw [take_set, set_eq_of_length_le (by simp; omega)]
  · have := sum_take_set s (s[i] + 1) hi (m := j + 1) (by omega)
    have h' : i + (j - min i (s.length - 1)) = j := by omega
    rw [h']
    omega

/-- A part shrunk by one moves the totals from its own on. -/
theorem runningTotals_set_sub_one (s : List Nat) {i : Nat} (hi : i < s.length) (hpos : 0 < s[i]) :
    (s.set i (s[i] - 1)).runningTotals =
      s.runningTotals.take i ++ (s.runningTotals.drop i).map (· - 1) := by
  apply ext_getElem (by simp; omega)
  intro j h₁ h₂
  simp only [getElem_runningTotals, getElem_append, length_take, length_runningTotals,
    getElem_take, getElem_map, getElem_drop]
  split_ifs with hj
  · rw [take_set, set_eq_of_length_le (by simp; omega)]
  · have := sum_take_set s (s[i] - 1) hi (m := j + 1) (by omega)
    have h' : i + (j - min i (s.length - 1)) = j := by omega
    rw [h']
    omega

/-- The entries of a list whose entries from `m` on are mapped. -/
lemma getElem_take_append_map_drop (l : List Nat) (m : Nat) (f : Nat → Nat) {j : Nat}
    (hj : j < (l.take m ++ (l.drop m).map f).length) :
    (l.take m ++ (l.drop m).map f)[j] =
      if h : j < m then getElem l j (by simp at hj; omega)
      else f (getElem l j (by simp at hj; omega)) := by
  have hjl : j < l.length := by simp at hj; omega
  by_cases h : j < m
  · rw [dif_pos h, getElem_append_left (by simp; omega), getElem_take]
  · rw [dif_neg h, getElem_append_right (by simp; omega), getElem_map, getElem_drop]
    congr 2
    simp only [length_take]
    omega

/-- A part split in two parts of sizes `a` and `b`, one more than it together: the total at the
end of the first part comes in, and the totals after it move by one. -/
theorem runningTotals_split (s : List Nat) {i a b : Nat} (hi : i < s.length)
    (hab : a + b = s[i] + 1) :
    ((s.set i a).insertIdx (i + 1) b).runningTotals =
      (s.runningTotals.insertIdx i ((s.take i).sum + a)).take (i + 1) ++
        ((s.runningTotals.insertIdx i ((s.take i).sum + a)).drop (i + 1)).map (· + 1) := by
  have hlen : (s.runningTotals.insertIdx i ((s.take i).sum + a)).length = s.length := by
    rw [length_insertIdx, if_pos (by simp; omega), length_runningTotals]
    omega
  have hlen' : ((s.set i a).insertIdx (i + 1) b).length = s.length + 1 := by
    rw [length_insertIdx, if_pos (by simp; omega), length_set]
  apply ext_getElem (by simp only [length_runningTotals, length_append, length_take, length_map,
    length_drop, hlen, hlen']; omega)
  intro j h₁ h₂
  rw [getElem_take_append_map_drop, getElem_runningTotals]
  simp only [length_runningTotals, hlen'] at h₁
  rcases Nat.lt_trichotomy j i with hji | rfl | hij
  · -- before the split part the prefixes are the old ones
    rw [dif_pos (by omega), getElem_insertIdx, dif_pos hji,
      take_insertIdx_eq_take_of_le _ _ _ _ (by omega), take_set,
      set_eq_of_length_le (by simp; omega), getElem_runningTotals]
  · -- at the end of the first part
    rw [dif_pos (by omega), getElem_insertIdx, dif_neg (lt_irrefl _), dif_pos rfl,
      take_insertIdx_eq_take_of_le _ _ _ _ (by omega)]
    have := sum_take_set s a hi (m := j + 1) (by omega)
    rw [sum_take_succ _ _ hi] at this
    omega
  · -- past the second part the prefixes have grown by one
    rw [dif_neg (by omega), getElem_insertIdx, dif_neg (by omega), dif_neg (by omega),
      getElem_runningTotals, Nat.sub_add_cancel (by omega)]
    have h₃ := sum_take_insertIdx (s.set i a) b (i := i + 1) (m := j + 1) (by simp; omega)
      (by omega)
    have h₄ := sum_take_set s a hi (m := j) (by omega)
    simp only [Nat.add_sub_cancel] at h₃
    omega
/-- An empty part goes with the total at its end, or, for the last part, with the total before
it. -/
theorem runningTotals_eraseIdx_of_eq_zero (s : List Nat) {i : Nat} (hi : i < s.length)
    (h0 : s[i] = 0) :
    (s.eraseIdx i).runningTotals =
      if i < s.runningTotals.length then s.runningTotals.eraseIdx i
      else s.runningTotals.eraseIdx (s.runningTotals.length - 1) := by
  have hlen : (s.eraseIdx i).length = s.length - 1 := by rw [length_eraseIdx, if_pos hi]
  split_ifs with hlt
  · simp only [length_runningTotals] at hlt
    apply ext_getElem (by simp only [length_runningTotals, hlen, length_eraseIdx,
      length_runningTotals, if_pos (show i < s.length - 1 by omega)])
    intro j h₁ h₂
    simp only [length_runningTotals, hlen] at h₁
    rw [getElem_runningTotals, getElem_eraseIdx]
    by_cases hj : j < i
    · rw [dif_pos hj, take_eraseIdx_eq_take_of_le _ _ _ (by omega), getElem_runningTotals]
    · rw [dif_neg hj, getElem_runningTotals]
      have := sum_take_eraseIdx s hi (m := j + 1) (by omega)
      omega
  · simp only [length_runningTotals, not_lt] at hlt
    apply ext_getElem (by
      rw [length_runningTotals, hlen, length_eraseIdx, length_runningTotals]
      split_ifs <;> omega)
    intro j h₁ h₂
    simp only [length_runningTotals, hlen] at h₁
    rw [getElem_runningTotals, getElem_eraseIdx, dif_pos (by simp; omega), getElem_runningTotals,
      take_eraseIdx_eq_take_of_le _ _ _ (by omega)]

/-- Two neighbouring parts merged into one: the total between them goes. -/
theorem runningTotals_merge (s : List Nat) {i : Nat} (hi : i + 1 < s.length) :
    ((s.set i (s[i] + s[i + 1])).eraseIdx (i + 1)).runningTotals =
      if i + 1 < s.runningTotals.length then
        (s.runningTotals.set i (s.runningTotals.getD (i + 1) 0)).eraseIdx (i + 1)
      else s.runningTotals.eraseIdx i := by
  have hlen : ((s.set i (s[i] + s[i + 1])).eraseIdx (i + 1)).length = s.length - 1 := by
    rw [length_eraseIdx, if_pos (by simp; omega), length_set]
  -- the prefixes of the merged list: the old ones before the merged part, and past it the old
  -- ones with one more part
  have hbefore : ∀ m, m ≤ i →
      (((s.set i (s[i] + s[i + 1])).eraseIdx (i + 1)).take m).sum = (s.take m).sum := by
    intro m hm
    rw [take_eraseIdx_eq_take_of_le _ _ _ (by omega), take_set,
      set_eq_of_length_le (by simp; omega)]
  have hafter : ∀ m, i < m →
      (((s.set i (s[i] + s[i + 1])).eraseIdx (i + 1)).take m).sum = (s.take (m + 1)).sum := by
    intro m hm
    have h₁ := sum_take_eraseIdx (s.set i (s[i] + s[i + 1])) (i := i + 1) (m := m) (by simp; omega)
      (by omega)
    have h₂ := sum_take_set s (s[i] + s[i + 1]) (i := i) (m := m + 1) (by omega) (by omega)
    rw [getElem_set_ne (by omega)] at h₁
    have h₃ := sum_take_succ s i (by omega)
    have h₄ := sum_take_succ s (i + 1) hi
    have h₅ : (s.take (i + 2)).sum ≤ (s.take (m + 1)).sum := sum_take_mono s (by omega)
    omega
  split_ifs with hlt
  · simp only [length_runningTotals] at hlt
    apply ext_getElem (by simp only [length_runningTotals, hlen, length_eraseIdx, length_set,
      length_runningTotals, if_pos (show i + 1 < s.length - 1 by omega)])
    intro j h₁ h₂
    simp only [length_runningTotals, hlen] at h₁
    rw [getElem_runningTotals, getElem_eraseIdx]
    by_cases hj : j < i + 1
    · rw [dif_pos hj, getElem_set]
      split_ifs with hij
      · -- the total at the end of the merged part is the one at the end of the second part
        subst hij
        rw [hafter _ (by omega), getD_eq_getElem?_getD, getElem?_eq_getElem (by simp; omega),
          Option.getD_some, getElem_runningTotals]
      · rw [hbefore _ (by omega), getElem_runningTotals]
    · rw [dif_neg hj, getElem_set_ne (by omega), getElem_runningTotals, hafter _ (by omega)]
  · simp only [length_runningTotals, not_lt] at hlt
    apply ext_getElem (by simp only [length_runningTotals, hlen, length_eraseIdx,
      length_runningTotals, if_pos (show i < s.length - 1 by omega)])
    intro j h₁ h₂
    simp only [length_runningTotals, hlen] at h₁
    rw [getElem_runningTotals, getElem_eraseIdx, dif_pos (by omega), getElem_runningTotals,
      hbefore (j + 1) (by omega)]
/-- The totals of two lists of parts laid end to end: the first's, the total at the end of the
first list, and the second's moved by it. -/
theorem runningTotals_append (s t : List Nat) (hs : s ≠ []) (ht : t ≠ []) :
    (s ++ t).runningTotals = s.runningTotals ++ s.sum :: t.runningTotals.map (s.sum + ·) := by
  have hs' : 0 < s.length := length_pos_iff.mpr hs
  have ht' : 0 < t.length := length_pos_iff.mpr ht
  apply ext_getElem (by simp; omega)
  intro j h₁ h₂
  simp only [length_runningTotals, length_append] at h₁
  rw [getElem_runningTotals, getElem_append]
  by_cases hj : j < s.runningTotals.length
  · rw [dif_pos hj, take_append_of_le_length (by simp at hj; omega), getElem_runningTotals]
  · rw [dif_neg hj, take_append, take_of_length_le (by simp at hj; omega), sum_append]
    simp only [length_runningTotals] at hj ⊢
    rcases Nat.eq_zero_or_pos (j - (s.length - 1)) with h0 | hpos
    · simp [h0, show j + 1 - s.length = 0 by omega]
    · rw [getElem_cons, dif_neg (by omega), getElem_map, getElem_runningTotals,
        show j - (s.length - 1) - 1 + 1 = j + 1 - s.length by omega]

/-- The last part does not count: changing it leaves the totals. -/
theorem runningTotals_set_last (s : List Nat) (x : Nat) :
    (s.set (s.length - 1) x).runningTotals = s.runningTotals := by
  apply ext_getElem (by simp)
  intro j h₁ h₂
  simp only [length_runningTotals, length_set] at h₁
  rw [getElem_runningTotals, getElem_runningTotals, take_set, set_eq_of_length_le (by simp; omega)]

/-- The parts before part `i` followed by two parts `a` and `b`: the totals before part `i`, and
the total at the end of `a`. -/
theorem runningTotals_take_append_pair (s : List Nat) {i : Nat} (hi : i < s.length) (a b : Nat) :
    (s.take i ++ [a, b]).runningTotals = s.runningTotals.take i ++ [(s.take i).sum + a] := by
  apply ext_getElem (by simp; omega)
  intro j h₁ h₂
  simp only [length_runningTotals, length_append, length_take, length_cons, length_nil] at h₁
  rw [getElem_runningTotals, getElem_append]
  by_cases hj : j < i
  · rw [dif_pos (by simp only [length_take, length_runningTotals]; omega), getElem_take,
      getElem_runningTotals,
      take_append_of_le_length (by rw [length_take]; omega), take_take, Nat.min_eq_left (by omega)]
  · have hji : j = i := by omega
    subst hji
    rw [dif_neg (by simp only [length_take, length_runningTotals]; omega), take_append, take_of_length_le (by rw [length_take]; omega),
      sum_append, length_take, Nat.min_eq_left (by omega), show j + 1 - j = 1 by omega]
    simp

/-- The totals of the parts from `m + 1` on: the totals of the whole after part `m + 1`, less
the total at the end of part `m`. -/
theorem runningTotals_drop (s : List Nat) (m : Nat) :
    (s.drop (m + 1)).runningTotals =
      (List.range (s.length - (m + 2))).map fun t =>
        (s.take (m + 2 + t)).sum - (s.take (m + 1)).sum := by
  apply ext_getElem (by simp; omega)
  intro j h₁ h₂
  rw [getElem_runningTotals, getElem_map, getElem_range]
  have := sum_take_add_sum_drop (s.take (m + 2 + j)) (m + 1)
  rw [take_take, Nat.min_eq_left (by omega), drop_take,
    show m + 2 + j - (m + 1) = j + 1 by omega] at this
  omega

/-- The running totals of parts of size `e` but the last: the multiples of `e`. -/
theorem runningTotals_of_forall_eq (s : List Nat) {e : Nat}
    (h : ∀ j (hj : j + 1 < s.length), s[j] = e) :
    s.runningTotals = (List.range (s.length - 1)).map fun j => (j + 1) * e := by
  apply ext_getElem (by simp)
  intro j h₁ h₂
  rw [getElem_runningTotals, getElem_map, getElem_range]
  simp only [length_runningTotals] at h₁
  induction j with
  | zero =>
    rw [sum_take_succ _ _ (by omega), h 0 (by omega)]
    simp
  | succ j ih =>
    rw [sum_take_succ _ _ (by omega), ih (by simp; omega) (by omega), h (j + 1) (by omega),
      Nat.succ_mul (j + 1)]
/-! ## Parts laid end to end -/

section Parts

variable {α : Type*}

/-- The values of parts laid end to end, around part `i`. -/
lemma flatten_eq_around (L : List (List α)) {i : Nat} (hi : i < L.length) :
    L.flatten = (L.take i).flatten ++ L[i] ++ (L.drop (i + 1)).flatten := by
  have h := take_append_drop i L
  rw [drop_eq_getElem_cons hi] at h
  conv_lhs => rw [← h]
  simp only [flatten_append, flatten_cons, append_assoc]

/-- The values of the parts before part `i` are as many as the sizes before it add up to. -/
lemma length_flatten_take (L : List (List α)) (i : Nat) :
    (L.take i).flatten.length = ((L.map length).take i).sum := by
  rw [length_flatten, map_take]

/-- Inserting inside the middle part of three. -/
lemma insertIdx_append_middle (A X B : List α) {k : Nat} (hk : k ≤ X.length) (v : α) :
    (A ++ X ++ B).insertIdx (A.length + k) v = A ++ X.insertIdx k v ++ B := by
  induction A with
  | nil =>
    simp only [nil_append, length_nil, Nat.zero_add]
    induction X generalizing k with
    | nil =>
      obtain rfl : k = 0 := by simpa using hk
      simp
    | cons a X ih =>
      cases k with
      | zero => simp
      | succ k => simp [ih (by simpa using hk)]
  | cons a A ih =>
    rw [cons_append, cons_append, length_cons, Nat.add_right_comm, insertIdx_succ_cons, ih]
    rfl

/-- Erasing inside the middle part of three. -/
lemma eraseIdx_append_middle (A X B : List α) {k : Nat} (hk : k < X.length) :
    (A ++ X ++ B).eraseIdx (A.length + k) = A ++ X.eraseIdx k ++ B := by
  rw [append_assoc, eraseIdx_append_of_length_le (by omega), Nat.add_sub_cancel_left,
    eraseIdx_append_of_lt_length hk, append_assoc]

/-- Changing an entry inside the middle part of three. -/
lemma modify_append_middle (A X B : List α) {k : Nat} (hk : k < X.length) (f : α → α) :
    (A ++ X ++ B).modify (A.length + k) f = A ++ X.modify k f ++ B := by
  induction A with
  | nil =>
    simp only [nil_append, length_nil, Nat.zero_add]
    induction X generalizing k with
    | nil => simp at hk
    | cons a X ih =>
      cases k with
      | zero => simp
      | succ k => simp [ih (by simpa using hk)]
  | cons a A ih =>
    rw [cons_append, cons_append, length_cons, Nat.add_right_comm, modify_succ_cons, ih]
    rfl

/-- An entry inside the middle part of three. -/
lemma getElem?_append_middle (A X B : List α) {k : Nat} (hk : k < X.length) :
    (A ++ X ++ B)[A.length + k]? = X[k]? := by
  rw [append_assoc, getElem?_append_right (by omega), Nat.add_sub_cancel_left,
    getElem?_append_left hk]

/-- Part `i` replaced. -/
lemma flatten_set_around (L : List (List α)) {i : Nat} (hi : i < L.length) (x : List α) :
    (L.set i x).flatten = (L.take i).flatten ++ x ++ (L.drop (i + 1)).flatten := by
  rw [flatten_eq_around (L.set i x) (i := i) (by simpa using hi), getElem_set_self, take_set,
    set_eq_of_length_le (by simp), drop_set_of_lt (by omega)]

/-- Part `i` replaced by two parts. -/
lemma flatten_insertIdx_set_around (L : List (List α)) {i : Nat} (hi : i < L.length)
    (x y : List α) :
    ((L.set i x).insertIdx (i + 1) y).flatten =
      (L.take i).flatten ++ x ++ y ++ (L.drop (i + 1)).flatten := by
  have hlen : (L.take i).length = i := length_take_of_le (by omega)
  have hset : L.set i x = L.take i ++ [x] ++ L.drop (i + 1) := by
    rw [set_eq_take_append_cons_drop, if_pos hi, append_assoc, singleton_append]
  have hins := insertIdx_append_middle (L.take i) [x] (L.drop (i + 1)) (k := 1) (by simp) y
  rw [hlen] at hins
  rw [hset, hins]
  simp only [flatten_append, insertIdx_succ_cons, insertIdx_zero, flatten_cons, flatten_nil,
    append_nil, append_assoc]

/-- A part inserted at `i`. -/
lemma flatten_insertIdx_around (L : List (List α)) {i : Nat} (hi : i ≤ L.length) (x : List α) :
    (L.insertIdx i x).flatten = (L.take i).flatten ++ x ++ (L.drop i).flatten := by
  have hins := insertIdx_append_middle (L.take i) [] (L.drop i) (k := 0) (Nat.zero_le _) x
  rw [length_take_of_le hi, Nat.add_zero, append_nil, take_append_drop] at hins
  rw [hins, insertIdx_zero, flatten_append, flatten_append, flatten_cons, flatten_nil, append_nil]

/-- Part `i` removed. -/
lemma flatten_eraseIdx_around (L : List (List α)) (i : Nat) :
    (L.eraseIdx i).flatten = (L.take i).flatten ++ (L.drop (i + 1)).flatten := by
  rw [eraseIdx_eq_take_drop_succ, flatten_append]

end Parts

end List
