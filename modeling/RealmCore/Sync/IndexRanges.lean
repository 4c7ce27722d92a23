import Mathlib
import RealmCore.Lib.LowerBound

/-!
# The ranges of a conflict group

For each changeset, a conflict group of the `ChangesetIndex`
(src/realm/sync/noinst/changeset_index.cpp) keeps the instructions that touch its objects as a
vector of `Changeset::Range`s.  A position is an instruction's place in the changeset's
iteration order, which counts a tombstone as one place; a range holds the positions from
`begin` up to `end`.

`add_instruction_at` inserts the one-instruction range of a new position where
`std::lower_bound` by `begin` puts it, steps back to the range before it, and then walks to the
end of the vector merging each range into the one before when they overlap or touch.
`Separated` says that the ranges are sorted, pairwise disjoint and not adjacent, and each
nonempty: each range ends before the next begins.  Over separated ranges `add_instruction_at`
keeps them separated (`separated_addInstructionAt`) and adds exactly the new position to the
positions they cover (`inRanges_addInstructionAt`).

The merge walk is `mergeAdjacent`, on indices as the code has it; from index `it` on it does
what the structural `coalesce` does to the range at `it` and those after
(`mergeAdjacent_eq`), and the facts about the walk are proved of `coalesce`.
-/

namespace Realm.Sync

/-- `Changeset::Range`: the positions from `begin` up to, not including, `end`. -/
structure Changeset.Range where
  begin : Nat
  end_ : Nat
deriving DecidableEq, Repr

namespace ChangesetIndex

open Changeset (Range)

/-- The loop `while (it + 1 != ranges_for_changeset.end())` of `add_instruction_at`, from the
index `it`: a range that reaches the next one takes its end and the next one is erased, and
otherwise the walk moves on. -/
def mergeAdjacent (v : List Range) (it : Nat) : List Range :=
  if h : it + 1 < v.length then
    if v[it + 1].begin ≤ v[it].end_ then
      mergeAdjacent ((v.set it ⟨v[it].begin, max v[it].end_ v[it + 1].end_⟩).eraseIdx (it + 1)) it
    else mergeAdjacent v (it + 1)
  else v
termination_by 2 * v.length - it
decreasing_by
  · simp only [List.length_eraseIdx, List.length_set, if_pos h]
    omega
  · omega

/-- `add_instruction_at(ranges, changeset, pos)` on the ranges of the changeset: the range
`{pos, next}` inserted at `std::lower_bound` by `begin`, and merged from the range before it
on (`--it` unless it is the first). -/
def addInstructionAt (v : List Range) (pos : Nat) : List Range :=
  let incoming : Range := ⟨pos, pos + 1⟩
  let i := LowerBound.lowerBound (fun a b => decide (a.begin < b.begin)) v incoming
  mergeAdjacent (v.insertIdx i incoming) (i - 1)

/-- Ranges sorted, pairwise disjoint and not adjacent, each nonempty: each range ends before
the next one begins, and begins before it ends. -/
def Separated (v : List Range) : Prop :=
  v.IsChain (fun r s => r.end_ < s.begin) ∧ ∀ r ∈ v, r.begin < r.end_

/-- A position lies in one of the ranges. -/
def InRanges (v : List Range) (p : Nat) : Prop := ∃ r ∈ v, r.begin ≤ p ∧ p < r.end_

lemma inRanges_iff (v : List Range) (p : Nat) :
    InRanges v p ↔ ∃ r ∈ v, r.begin ≤ p ∧ p < r.end_ := Iff.rfl

@[simp] lemma inRanges_nil (p : Nat) : ¬InRanges [] p := by simp [inRanges_iff]

@[simp] lemma inRanges_cons (r : Range) (l : List Range) (p : Nat) :
    InRanges (r :: l) p ↔ (r.begin ≤ p ∧ p < r.end_) ∨ InRanges l p := by
  simp [inRanges_iff]

@[simp] lemma inRanges_append (l₁ l₂ : List Range) (p : Nat) :
    InRanges (l₁ ++ l₂) p ↔ InRanges l₁ p ∨ InRanges l₂ p := by
  simp only [inRanges_iff, List.mem_append]
  constructor
  · rintro ⟨r, hr | hr, h⟩
    · exact Or.inl ⟨r, hr, h⟩
    · exact Or.inr ⟨r, hr, h⟩
  · rintro (⟨r, hr, h⟩ | ⟨r, hr, h⟩)
    · exact ⟨r, Or.inl hr, h⟩
    · exact ⟨r, Or.inr hr, h⟩

/-! ### The merge walk as a structural recursion -/

/-- The range `cur` merged with those after it while they reach it, as the walk does. -/
def coalesce (cur : Range) : List Range → List Range
  | [] => [cur]
  | n :: rest =>
    if n.begin ≤ cur.end_ then coalesce ⟨cur.begin, max cur.end_ n.end_⟩ rest
    else cur :: coalesce n rest

lemma coalesce_nil (cur : Range) : coalesce cur [] = [cur] := rfl

lemma coalesce_cons (cur n : Range) (rest : List Range) :
    coalesce cur (n :: rest) =
      if n.begin ≤ cur.end_ then coalesce ⟨cur.begin, max cur.end_ n.end_⟩ rest
      else cur :: coalesce n rest := rfl

/-- Merging the range at `it` into the next one, as a list around them. -/
lemma eraseIdx_set_eq {v : List Range} {it : Nat} (h : it + 1 < v.length) (m : Range) :
    (v.set it m).eraseIdx (it + 1) = v.take it ++ m :: v.drop (it + 1 + 1) := by
  have hit : it < v.length := by omega
  have hv : v = v.take it ++ v[it] :: v[it + 1] :: v.drop (it + 1 + 1) := by
    rw [← List.drop_eq_getElem_cons h, ← List.drop_eq_getElem_cons hit, List.take_append_drop]
  have htk : (v.take it).length = it := by simp only [List.length_take]; omega
  conv_lhs => rw [hv]
  rw [List.set_append_right _ _ (by omega), List.eraseIdx_append_of_length_le (by omega), htk,
    Nat.sub_self, Nat.add_sub_cancel_left]
  rfl

/-- From index `it` on, the walk coalesces the range there with those after it. -/
lemma mergeAdjacent_eq (v : List Range) (it : Nat) (hit : it < v.length) :
    mergeAdjacent v it = v.take it ++ coalesce v[it] (v.drop (it + 1)) := by
  induction v, it using mergeAdjacent.induct with
  | case1 v it h hle ih =>
    -- the range at `it` absorbs the next one, and the walk stays at `it`
    have hw := eraseIdx_set_eq h ⟨v[it].begin, max v[it].end_ v[it + 1].end_⟩
    have htk : (v.take it).length = it := by simp only [List.length_take]; omega
    rw [mergeAdjacent, dif_pos h, if_pos hle, ih (by rw [hw]; simp; omega),
      List.drop_eq_getElem_cons h, coalesce_cons, if_pos hle]
    simp only [hw, List.take_left' htk, List.getElem_append_right (Nat.le_of_eq htk)]
    simp only [htk, Nat.sub_self, List.getElem_cons_zero, List.drop_append,
      List.drop_eq_nil_of_le (Nat.le_succ_of_le (Nat.le_of_eq htk)), List.nil_append,
      Nat.add_sub_cancel_left, List.drop_succ_cons, List.drop_zero]
  | case2 v it h hle ih =>
    -- the next range starts past this one: it stays, and the walk moves on
    rw [mergeAdjacent, dif_pos h, if_neg hle, ih h, List.drop_eq_getElem_cons h, coalesce_cons,
      if_neg hle, List.take_succ_eq_append_getElem hit, List.append_assoc]
    rfl
  | case3 v it h =>
    -- the last range: nothing after it
    rw [mergeAdjacent, dif_neg h]
    have hlast : it + 1 = v.length := by omega
    rw [List.drop_of_length_le (by omega), coalesce_nil]
    conv_lhs => rw [← List.take_append_drop it v]
    rw [List.drop_eq_getElem_cons hit, List.drop_of_length_le (by omega)]

/-- The walk from just after a prefix. -/
lemma mergeAdjacent_append (pre rest : List Range) (cur : Range) :
    mergeAdjacent (pre ++ cur :: rest) pre.length = pre ++ coalesce cur rest := by
  rw [mergeAdjacent_eq _ _ (by simp)]
  simp [List.take_left', List.getElem_append_right]

/-! ### What coalescing keeps -/

/-- Coalescing keeps the first range's start. -/
lemma head_coalesce (cur : Range) (l : List Range) :
    ∃ e rest, coalesce cur l = ⟨cur.begin, e⟩ :: rest := by
  induction l generalizing cur with
  | nil => exact ⟨cur.end_, [], rfl⟩
  | cons n rest ih =>
    rw [coalesce_cons]
    split_ifs
    · exact ih _
    · exact ⟨cur.end_, _, rfl⟩

/-- Coalescing nonempty ranges sorted by start gives separated ranges. -/
lemma separated_coalesce (cur : Range) (l : List Range)
    (hsorted : (cur :: l).Pairwise fun r s => r.begin ≤ s.begin)
    (hne : ∀ r ∈ cur :: l, r.begin < r.end_) : Separated (coalesce cur l) := by
  induction l generalizing cur with
  | nil => exact ⟨List.isChain_singleton _, by simpa [coalesce_nil] using hne⟩
  | cons n rest ih =>
    rw [List.pairwise_cons, List.pairwise_cons] at hsorted
    rw [coalesce_cons]
    split_ifs with hreach
    · -- the merged range keeps `cur`'s start, below every later one
      refine ih _ (List.pairwise_cons.mpr ⟨fun s hs => hsorted.1 s (by simp [hs]), hsorted.2.2⟩) ?_
      intro r hr
      rcases List.mem_cons.mp hr with rfl | hr
      · have := hne cur (by simp)
        simp only
        omega
      · exact hne r (by simp [hr])
    · -- `cur` ends before `n` begins, and `n` starts what follows
      obtain ⟨hchain, hne'⟩ := ih n (List.pairwise_cons.mpr hsorted.2) (fun r hr => hne r (by simp [hr]))
      obtain ⟨e, tail, htail⟩ := head_coalesce n rest
      refine ⟨?_, ?_⟩
      · rw [htail] at hchain ⊢
        exact List.isChain_cons_cons.mpr ⟨by simp only; omega, hchain⟩
      · intro r hr
        rcases List.mem_cons.mp hr with rfl | hr
        · exact hne r (by simp)
        · exact hne' r hr

/-- Coalescing ranges sorted by start covers what they cover. -/
lemma inRanges_coalesce (cur : Range) (l : List Range)
    (hsorted : (cur :: l).Pairwise fun r s => r.begin ≤ s.begin) (p : Nat) :
    InRanges (coalesce cur l) p ↔ InRanges (cur :: l) p := by
  induction l generalizing cur with
  | nil => rfl
  | cons n rest ih =>
    rw [List.pairwise_cons, List.pairwise_cons] at hsorted
    have hn : cur.begin ≤ n.begin := hsorted.1 n (by simp)
    rw [coalesce_cons]
    split_ifs with hreach
    · -- the merged range covers exactly what `cur` and `n` cover
      rw [ih ⟨cur.begin, max cur.end_ n.end_⟩
        (List.pairwise_cons.mpr ⟨fun s hs => hsorted.1 s (by simp [hs]), hsorted.2.2⟩)]
      have key : (cur.begin ≤ p ∧ p < max cur.end_ n.end_) ↔
          (cur.begin ≤ p ∧ p < cur.end_) ∨ (n.begin ≤ p ∧ p < n.end_) := by
        omega
      simp only [inRanges_cons, key, or_assoc]
    · rw [inRanges_cons, ih n (List.pairwise_cons.mpr hsorted.2), inRanges_cons cur]

/-! ### `add_instruction_at` -/

variable {v : List Range}

/-- Separated ranges are in order pairwise, not only next to each other. -/
lemma Separated.pairwise (hv : Separated v) : v.Pairwise fun r s => r.end_ < s.begin := by
  obtain ⟨hchain, hne⟩ := hv
  induction v with
  | nil => exact List.Pairwise.nil
  | cons r rest ih =>
    have hrest := ih hchain.tail fun s hs => hne s (by simp [hs])
    refine List.pairwise_cons.mpr ⟨?_, hrest⟩
    intro s hs
    -- through the range right after `r`
    cases rest with
    | nil => simp at hs
    | cons n rest =>
      have hrn : r.end_ < n.begin := (List.isChain_cons_cons.mp hchain).1
      rcases List.mem_cons.mp hs with rfl | hs
      · exact hrn
      · have := (List.pairwise_cons.mp hrest).1 s hs
        have := hne n (by simp)
        omega

/-- Separated ranges are sorted by start. -/
lemma Separated.pairwise_begin (hv : Separated v) : v.Pairwise fun r s => r.begin ≤ s.begin :=
  hv.pairwise.imp_of_mem fun {r} _ hr _ hrs => by have := hv.2 r hr; omega

/-- The ranges that start before `pos` lead the list. -/
lemma not_lt_of_mem_dropWhile (hv : Separated v) {pos : Nat} {r : Range}
    (hr : r ∈ v.dropWhile fun a => decide (a.begin < pos)) : ¬r.begin < pos := by
  have hsorted := hv.pairwise_begin
  induction v with
  | nil => simp at hr
  | cons a rest ih =>
    have hrest : Separated rest :=
      ⟨hv.1.tail, fun s hs => hv.2 s (by simp [hs])⟩
    rw [List.dropWhile_cons] at hr
    split_ifs at hr with ha
    · exact ih hrest hr (List.pairwise_cons.mp hsorted).2
    · rcases List.mem_cons.mp hr with rfl | hr
      · simpa using ha
      · have := (List.pairwise_cons.mp hsorted).1 r hr
        simp only [decide_eq_true_eq] at ha
        omega

/-- `std::lower_bound` by start puts the new range after the ranges that start before it. -/
lemma addInstructionAt_eq (hv : Separated v) (pos : Nat) :
    addInstructionAt v pos =
      let pre := v.takeWhile fun a => decide (a.begin < pos)
      mergeAdjacent (pre ++ ⟨pos, pos + 1⟩ :: v.dropWhile fun a => decide (a.begin < pos))
        (pre.length - 1) := by
  have hpart : v.Pairwise fun a b =>
      decide (b.begin < pos) = true → decide (a.begin < pos) = true := by
    refine hv.pairwise_begin.imp fun hab hb => ?_
    simp only [decide_eq_true_eq] at hb ⊢
    omega
  have hlb := @LowerBound.lowerBound_eq_countP Range (fun a b => decide (a.begin < b.begin)) v
    ⟨pos, pos + 1⟩ hpart
  rw [← LowerBound.length_takeWhile_eq_countP hpart] at hlb
  -- inserting at the end of the leading ranges puts the new one between the two parts
  have hsplit : ∀ x : Range, v.insertIdx (v.takeWhile fun a => decide (a.begin < pos)).length x =
      (v.takeWhile fun a => decide (a.begin < pos)) ++
        x :: v.dropWhile fun a => decide (a.begin < pos) := by
    intro x
    have hins : ∀ pre post : List Range, (pre ++ post).insertIdx pre.length x = pre ++ x :: post := by
      intro pre post
      induction pre <;> simp_all
    have := hins (v.takeWhile fun a => decide (a.begin < pos))
      (v.dropWhile fun a => decide (a.begin < pos))
    rwa [List.takeWhile_append_dropWhile] at this
  simp only [addInstructionAt, hlb, hsplit]

/-- Over separated ranges, `add_instruction_at` coalesces the new range with the last range
that starts before it and everything after. -/
lemma addInstructionAt_cases (hv : Separated v) (pos : Nat) :
    let post := v.dropWhile fun a => decide (a.begin < pos)
    (v.takeWhile fun a => decide (a.begin < pos)) = [] ∧
        addInstructionAt v pos = coalesce ⟨pos, pos + 1⟩ post ∨
      ∃ pre last, (v.takeWhile fun a => decide (a.begin < pos)) = pre ++ [last] ∧
        addInstructionAt v pos = pre ++ coalesce last (⟨pos, pos + 1⟩ :: post) := by
  intro post
  rw [addInstructionAt_eq hv]
  rcases List.eq_nil_or_concat (v.takeWhile fun a => decide (a.begin < pos)) with hpre | ⟨pre, last, hpre⟩
  · refine Or.inl ⟨hpre, ?_⟩
    simp only [hpre, List.length_nil, List.nil_append]
    exact mergeAdjacent_append [] post _
  · rw [List.concat_eq_append] at hpre
    refine Or.inr ⟨pre, last, hpre, ?_⟩
    simp only [hpre, List.length_append, List.length_singleton,
      Nat.add_sub_cancel, List.append_assoc, List.singleton_append]
    exact mergeAdjacent_append pre _ last

/-- The ranges of `v`, split at the new position: those that start before it, then the rest. -/
lemma split_at_pos (hv : Separated v) (pos : Nat) :
    v = (v.takeWhile fun a => decide (a.begin < pos)) ++ (v.dropWhile fun a => decide (a.begin < pos)) ∧
      (∀ r ∈ v.takeWhile fun a => decide (a.begin < pos), r.begin < pos) ∧
      ∀ r ∈ v.dropWhile fun a => decide (a.begin < pos), pos ≤ r.begin :=
  ⟨List.takeWhile_append_dropWhile.symm,
    fun _ hr => by simpa using List.mem_takeWhile_imp hr,
    fun _ hr => Nat.le_of_not_lt (not_lt_of_mem_dropWhile hv hr)⟩

/-- `add_instruction_at` keeps the ranges of a changeset sorted, disjoint, not adjacent and
nonempty. -/
theorem separated_addInstructionAt (hv : Separated v) (pos : Nat) :
    Separated (addInstructionAt v pos) := by
  obtain ⟨hsplit, hpre, hpost⟩ := split_at_pos hv pos
  have hsorted := hv.pairwise_begin
  have hne := hv.2
  rcases addInstructionAt_cases hv pos with ⟨hnil, heq⟩ | ⟨pre, last, hlast, heq⟩
  · -- no range starts before the new one: it leads, and the rest follow it
    rw [heq]
    rw [hnil, List.nil_append] at hsplit
    rw [hsplit] at hsorted hne
    refine separated_coalesce _ _ (List.pairwise_cons.mpr ⟨fun r hr => hpost r hr, hsorted⟩) ?_
    intro r hr
    rcases List.mem_cons.mp hr with rfl | hr
    · simp
    · exact hne r hr
  · -- the last range that starts before the new one is where the walk begins
    rw [heq]
    rw [hlast, List.append_assoc, List.singleton_append] at hsplit
    have hlastpos : last.begin < pos := hpre last (by simp [hlast])
    rw [hsplit] at hsorted hne
    have hchain := hv.1
    rw [hsplit] at hchain
    obtain ⟨hchainpre, -, hjoin⟩ := List.isChain_append.mp hchain
    have hrest := (List.pairwise_append.mp hsorted).2.1
    -- `last`, the new range and the ranges after it are sorted by start, and nonempty
    have hsorted' : (last :: ⟨pos, pos + 1⟩ :: v.dropWhile fun a => decide (a.begin < pos)).Pairwise
        fun r s => r.begin ≤ s.begin := by
      refine List.pairwise_cons.mpr ⟨?_, List.pairwise_cons.mpr ⟨fun r hr => hpost r hr,
        (List.pairwise_cons.mp hrest).2⟩⟩
      intro r hr
      rcases List.mem_cons.mp hr with rfl | hr
      · exact Nat.le_of_lt hlastpos
      · exact (List.pairwise_cons.mp hrest).1 r hr
    have hne' : ∀ r ∈ last :: ⟨pos, pos + 1⟩ :: v.dropWhile fun a => decide (a.begin < pos),
        r.begin < r.end_ := by
      intro r hr
      rcases List.mem_cons.mp hr with rfl | hr
      · exact hne r (by simp)
      · rcases List.mem_cons.mp hr with rfl | hr
        · simp
        · exact hne r (by simp [hr])
    obtain ⟨hcoal, hcoalne⟩ := separated_coalesce _ _ hsorted' hne'
    obtain ⟨e, tail, htail⟩ :=
      head_coalesce last (⟨pos, pos + 1⟩ :: v.dropWhile fun a => decide (a.begin < pos))
    refine ⟨List.isChain_append.mpr ⟨hchainpre, hcoal, ?_⟩, ?_⟩
    · -- the range before the walk ends before `last` begins, and the walk keeps that start
      intro x hx y hy
      rw [htail] at hy
      cases hy
      exact hjoin x hx last (by simp)
    · intro r hr
      rcases List.mem_append.mp hr with hr | hr
      · exact hne r (by simp [hr])
      · exact hcoalne r hr

/-- `add_instruction_at` adds exactly the new position to the positions the ranges cover. -/
theorem inRanges_addInstructionAt (hv : Separated v) (pos p : Nat) :
    InRanges (addInstructionAt v pos) p ↔ InRanges v p ∨ p = pos := by
  obtain ⟨hsplit, hpre, hpost⟩ := split_at_pos hv pos
  have hsorted := hv.pairwise_begin
  have hnew : (pos ≤ p ∧ p < pos + 1) ↔ p = pos := by omega
  rcases addInstructionAt_cases hv pos with ⟨hnil, heq⟩ | ⟨pre, last, hlast, heq⟩
  · rw [hnil, List.nil_append] at hsplit
    rw [hsplit] at hsorted
    conv_rhs => rw [hsplit]
    rw [heq, inRanges_coalesce _ _ (List.pairwise_cons.mpr ⟨fun r hr => hpost r hr, hsorted⟩),
      inRanges_cons, hnew, or_comm]
  · rw [hlast, List.append_assoc, List.singleton_append] at hsplit
    have hlastpos : last.begin < pos := hpre last (by simp [hlast])
    rw [hsplit] at hsorted
    have hrest := (List.pairwise_append.mp hsorted).2.1
    have hsorted' : (last :: ⟨pos, pos + 1⟩ :: v.dropWhile fun a => decide (a.begin < pos)).Pairwise
        fun r s => r.begin ≤ s.begin := by
      refine List.pairwise_cons.mpr ⟨?_, List.pairwise_cons.mpr ⟨fun r hr => hpost r hr,
        (List.pairwise_cons.mp hrest).2⟩⟩
      intro r hr
      rcases List.mem_cons.mp hr with rfl | hr
      · exact Nat.le_of_lt hlastpos
      · exact (List.pairwise_cons.mp hrest).1 r hr
    conv_rhs => rw [hsplit]
    rw [heq, inRanges_append, inRanges_coalesce _ _ hsorted']
    simp only [inRanges_append, inRanges_cons, hnew]
    tauto

end ChangesetIndex

end Realm.Sync
