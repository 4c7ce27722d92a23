import Mathlib
import RealmCore.BPlusTree.Shape

/-!
# Inserting a value into a B+tree

`bptree_insert(n, state, func)` descends to the leaf of position `n` (or of `npos`, the end)
and inserts there.  A full leaf is split, and so is a full inner node that gets a new child;
the split travels up as the new sibling and the split state `{split_offset, split_size}`.  On a
node in the shape `WF`, the node and the sibling hold the values with the new one at its
position, each in the shape at the same height, and the split state is where the sibling
begins and how many values both hold (`Inserted`).  An append to a compact node keeps it
compact and splits it exactly when it is full, at its end (`Appended`): that is why
`elems_per_child` stays the capacity of a compact child.

The inner case (`bptreeInsert_inner_spec`) has four outcomes: no split below, and the three of
`insert_bp_node` (room for the sibling, a split after the last child, a split in the middle),
each a lemma of its own for the form of the node.
-/

namespace Realm

namespace BPlusTreeNode

open BPlusTreeInner LeafCache

variable {α : Type} {M h : Nat}

/-- The values of the new sibling of a split; none without a split. -/
def splitValues : Option (BPlusTreeNode α × BptreeState) → List α
  | none => []
  | some (s, _) => s.values

@[simp] lemma splitValues_none : splitValues (none : Option (BPlusTreeNode α × BptreeState)) = [] :=
  rfl

@[simp] lemma splitValues_some (s : BPlusTreeNode α) (st : BptreeState) :
    splitValues (some (s, st)) = s.values := rfl

/-- What an insertion of `v` at position `k` of a node `c` of height `h` answers: the node `c'`
and, when it was split, a new sibling, which hold the values of `c` with `v` at `k`, each in the
shape at height `h`; the split state says where the sibling begins and how many values both
hold. -/
structure Inserted (M h : Nat) (c : BPlusTreeNode α) (k : Nat) (v : α) (c' : BPlusTreeNode α)
    (split : Option (BPlusTreeNode α × BptreeState)) : Prop where
  values_eq : c'.values ++ splitValues split = c.values.insertIdx k v
  wf : WF M h c'
  wf_split : ∀ s st, split = some (s, st) → WF M h s ∧ c'.values ≠ [] ∧ s.values ≠ [] ∧
    st.splitOffset = c'.values.length ∧ st.splitSize = c'.values.length + s.values.length

/-- What an append to a compact node `c` of height `h` answers besides: compact nodes, and a
split exactly when `c` was full, which keeps the values of `c` in `c'`. -/
structure Appended (M h : Nat) (c c' : BPlusTreeNode α)
    (split : Option (BPlusTreeNode α × BptreeState)) : Prop where
  compact : c'.isCompact
  isSome_iff : split.isSome ↔ c.values.length = M ^ (h + 1)
  compact_split : ∀ s st, split = some (s, st) → s.isCompact ∧ c'.values = c.values

/-- The spec of `bptree_insert` of `v` at `ndx` (`none` for `npos`) in a node `c` of height `h`
whose first value is at position `offset`: what it answers was inserted, an append to a compact
node was an append, and the cache fits the node and its new sibling. -/
def InsertSpec (M h : Nat) (v : α) (c : BPlusTreeNode α) (ndx : Option Nat) (offset : Nat)
    (res : Except String (BPlusTreeNode α × Option (BPlusTreeNode α × BptreeState) × LeafCache α)) :
    Prop :=
  ∃ c' split cache', res = .ok (c', split, cache') ∧
    Inserted M h c (ndx.getD c.values.length) v c' split ∧
    (ndx = none → c.isCompact → Appended M h c c' split) ∧
    cache'.Fits (c'.values ++ splitValues split) offset

/-! ## Leaves -/

lemma insertIdx_eq_take_append_drop (l : List α) {k : Nat} (hk : k ≤ l.length) (v : α) :
    l.insertIdx k v = l.take k ++ [v] ++ l.drop k := by
  have h := List.insertIdx_append_middle (l.take k) [] (l.drop k) (k := 0) (Nat.zero_le _) v
  rwa [List.length_take_of_le hk, Nat.add_zero, List.append_nil, List.take_append_drop,
    List.insertIdx_zero] at h

/-- `BPlusTreeLeaf::bptree_insert` of `v` at `ndx`, with the position clamped as asked. -/
lemma leafInsert_eq (l : List α) {ndx : Option Nat} (hndx : ∀ n, ndx = some n → n ≤ l.length)
    (v : α) (bounds : Option (Nat × Nat)) :
    BPlusTreeLeaf.bptreeInsert M l ndx v bounds =
      if l.length < M then (l.insertIdx (ndx.getD l.length) v, none, adjustBounds bounds 1)
      else if ndx.getD l.length = l.length then
        (l, some ([v], ⟨ndx.getD l.length, l.length + 1⟩), bounds)
      else (l.take (ndx.getD l.length) ++ [v],
        some (l.drop (ndx.getD l.length), ⟨ndx.getD l.length + 1, l.length + 1⟩), none) := by
  cases ndx with
  | none => rfl
  | some n => simp only [BPlusTreeLeaf.bptreeInsert, Option.getD_some, Nat.min_eq_left (hndx n rfl)]

/-- `BPlusTreeLeaf::bptree_insert` of `v` at `ndx` in a leaf of at most `M` values: the leaf and
the new leaf were inserted into, an append was an append, and the three outcomes for the bounds
of the cache. -/
lemma leafInsert_spec (hM : 0 < M) {l : List α} (hl : l.length ≤ M) {ndx : Option Nat}
    (hndx : ∀ n, ndx = some n → n ≤ l.length) (v : α) (bounds : Option (Nat × Nat))
    {l' : List α} {split : Option (List α × BptreeState)} {bounds' : Option (Nat × Nat)}
    (hres : BPlusTreeLeaf.bptreeInsert M l ndx v bounds = (l', split, bounds')) :
    Inserted M 0 (leaf l) (ndx.getD l.length) v (leaf l') (split.map fun p => (leaf p.1, p.2)) ∧
      (ndx = none → Appended M 0 (leaf l) (leaf l') (split.map fun p => (leaf p.1, p.2))) ∧
      ((split = none ∧ l' = l.insertIdx (ndx.getD l.length) v ∧ bounds' = adjustBounds bounds 1) ∨
        (l' = l ∧ bounds' = bounds) ∨ bounds' = none) := by
  have hkle : ndx.getD l.length ≤ l.length := by
    cases ndx with
    | none => exact le_rfl
    | some n => exact hndx n rfl
  rw [leafInsert_eq l hndx v bounds] at hres
  by_cases hroom : l.length < M
  · -- room in the leaf
    simp only [if_pos hroom, Prod.mk.injEq] at hres
    obtain ⟨rfl, rfl, rfl⟩ := hres
    refine ⟨⟨by simp, by simp [List.length_insertIdx_of_le_length hkle]; omega,
      fun _ _ h => by cases h⟩, fun _ => ⟨rfl, ?_, fun _ _ h => by cases h⟩, .inl ⟨rfl, rfl, rfl⟩⟩
    simp only [Option.map_none, Option.isSome_none, Bool.false_eq_true, false_iff, values_leaf,
      zero_add, pow_one]
    omega
  · simp only [if_neg hroom] at hres
    by_cases hend : ndx.getD l.length = l.length
    · -- a full leaf split at its end: the value goes alone to the new leaf
      simp only [if_pos hend, Prod.mk.injEq] at hres
      obtain ⟨rfl, rfl, rfl⟩ := hres
      have hne : l ≠ [] := by
        simpa [← List.length_pos_iff] using lt_of_lt_of_le hM (not_lt.mp hroom)
      refine ⟨⟨by simp [hend, List.insertIdx_length_self], by simpa using hl, ?_⟩,
        fun _ => ⟨rfl, by simp; omega, ?_⟩, .inr (.inl ⟨rfl, rfl⟩)⟩
      · intro s st hs
        simp only [Option.map_some, Option.some.injEq, Prod.mk.injEq] at hs
        obtain ⟨rfl, rfl⟩ := hs
        exact ⟨by simp; omega, by simpa using hne, by simp, by simp [hend], by simp⟩
      · intro s st hs
        simp only [Option.map_some, Option.some.injEq, Prod.mk.injEq] at hs
        obtain ⟨rfl, rfl⟩ := hs
        exact ⟨rfl, rfl⟩
    · -- a full leaf split in the middle: the values from the position on go to the new leaf
      simp only [if_neg hend, Prod.mk.injEq] at hres
      obtain ⟨rfl, rfl, rfl⟩ := hres
      have hlt : ndx.getD l.length < l.length := lt_of_le_of_ne hkle hend
      refine ⟨⟨?_, ?_, ?_⟩, fun hnone => absurd (by simp [hnone]) hend, .inr (.inr rfl)⟩
      · simp only [Option.map_some, splitValues_some, values_leaf]
        rw [insertIdx_eq_take_append_drop l hkle]
      · simp only [wf_zero_leaf, List.length_append, List.length_take, List.length_singleton]
        omega
      · intro s st hs
        simp only [Option.map_some, Option.some.injEq, Prod.mk.injEq] at hs
        obtain ⟨rfl, rfl⟩ := hs
        refine ⟨by simp; omega, by simp, by simp; omega, by simp; omega, by simp; omega⟩

/-! ## The outcomes of `insert_bp_node` -/

section InsertBpNode

variable (M : Nat) (cs : List (BPlusTreeNode α)) (ts i : Nat) (s : BPlusTreeNode α) (st : BptreeState)

/-- Room for the new sibling, in the general form. -/
lemma insertBpNode_room_general (o : List Nat) (hk : cs.length < M) :
    insertBpNode M (.general o) cs ts i s st =
      .ok (inner (.general (adjust (o.insertIdx i (getBpNodeOffset o i + st.splitOffset)) (i + 1) 1))
        (cs.insertIdx (i + 1) s) (ts + 1), none) := by
  simp only [insertBpNode, if_pos hk]

/-- Room for the new sibling, in the compact form. -/
lemma insertBpNode_room_compact (e : Nat) (hk : cs.length < M) :
    insertBpNode M (.compact e) cs ts i s st =
      .ok (inner (.compact e) (cs.insertIdx (i + 1) s) (ts + 1), none) := by
  simp only [insertBpNode, if_pos hk]

/-- A full node split after its last child, in the general form: the new sibling goes alone to
a new node. -/
lemma insertBpNode_last_general (o : List Nat) (hk : ¬cs.length < M) (hlast : i + 1 = cs.length) :
    insertBpNode M (.general o) cs ts i s st =
      .ok (inner (.general o) cs (getBpNodeOffset o i + st.splitOffset),
        some (inner (.general []) [s]
            (getBpNodeOffset o i + st.splitSize - (getBpNodeOffset o i + st.splitOffset)),
          ⟨getBpNodeOffset o i + st.splitOffset, getBpNodeOffset o i + st.splitSize⟩)) := by
  simp only [insertBpNode, if_neg hk, if_pos hlast]
  rfl

/-- A full node split after its last child, in the compact form. -/
lemma insertBpNode_last_compact (e : Nat) (hk : ¬cs.length < M) (hlast : i + 1 = cs.length) :
    insertBpNode M (.compact e) cs ts i s st =
      .ok (inner (.compact e) cs (i * e + st.splitOffset),
        some (inner (.compact e) [s] (i * e + st.splitSize - (i * e + st.splitOffset)),
          ⟨i * e + st.splitOffset, i * e + st.splitSize⟩)) := by
  simp only [insertBpNode, if_neg hk, if_pos hlast]
  rfl

/-- A full node split in the middle: the children after the new sibling move to a new node. -/
lemma insertBpNode_middle_general (o : List Nat) (hk : ¬cs.length < M)
    (hmid : i + 1 ≠ cs.length) :
    insertBpNode M (.general o) cs ts i s st =
      .ok (inner (addBpNodeRef (.general (o.take i), cs.take (i + 1)) s
            ((getBpNodeOffset o i + st.splitOffset : Nat) : Int)).1
          (addBpNodeRef (.general (o.take i), cs.take (i + 1)) s
            ((getBpNodeOffset o i + st.splitOffset : Nat) : Int)).2
          (getBpNodeOffset o i + st.splitSize),
        some (inner
            (move o cs (i + 1) (((getBpNodeOffset o i + st.splitSize : Nat) : Int) - 1) (.general [], [])).1
            (move o cs (i + 1) (((getBpNodeOffset o i + st.splitSize : Nat) : Int) - 1) (.general [], [])).2
            (ts + 1 - (getBpNodeOffset o i + st.splitSize)),
          ⟨getBpNodeOffset o i + st.splitSize, ts + 1⟩)) := by
  simp only [insertBpNode, if_neg hk, if_neg hmid, Nat.add_sub_cancel]
  rfl

/-- A compact node is never split in the middle: `insert_bp_node` asserts the offsets. -/
lemma insertBpNode_middle_compact (e : Nat) (hk : ¬cs.length < M) (hmid : i + 1 ≠ cs.length) :
    insertBpNode M (.compact e) cs ts i s st = .error "get_bp_node_offset: m_offsets is not attached" := by
  simp only [insertBpNode, if_neg hk, if_neg hmid]

end InsertBpNode

/-! ## The parent of a child that took a value -/

section Parent

variable {cs : List (BPlusTreeNode α)} {ts i : Nat} {c' s : BPlusTreeNode α}

/-- What a parent answers after child `i` answered `X`, the values of the child and of its new
sibling: the node and its own new sibling hold the values of the other children around `X`,
each in the shape at height `h + 1`, with the split state of `insert_bp_node`. -/
structure Reassembled (M h : Nat) (cs : List (BPlusTreeNode α)) (i : Nat) (X : List α)
    (node : BPlusTreeNode α) (split : Option (BPlusTreeNode α × BptreeState)) : Prop where
  values_eq : node.values ++ splitValues split =
    ((cs.take i).map values).flatten ++ X ++ ((cs.drop (i + 1)).map values).flatten
  wf : WF M (h + 1) node
  wf_split : ∀ s st, split = some (s, st) → WF M (h + 1) s ∧ node.values ≠ [] ∧ s.values ≠ [] ∧
    st.splitOffset = node.values.length ∧ st.splitSize = node.values.length + s.values.length

/-- A parent reassembled around a child that was inserted into was inserted into. -/
lemma Reassembled.inserted {r : BptreeRouting} {node : BPlusTreeNode α}
    {split split' : Option (BPlusTreeNode α × BptreeState)} {kc : Nat} {v : α}
    (hr : Reassembled M h cs i (c'.values ++ splitValues split) node split')
    (hi : i < cs.length) (hc : Inserted M h cs[i] kc v c' split)
    (hkc : kc ≤ cs[i].values.length) :
    Inserted M (h + 1) (inner r cs ts) (((sizes cs).take i).sum + kc) v node split' := by
  refine ⟨?_, hr.wf, hr.wf_split⟩
  rw [hr.values_eq, hc.values_eq, values_inner, flatten_values_eq_around hi,
    ← length_flatten_take_values, List.insertIdx_append_middle _ _ _ hkc]

/-- The sizes of the children after child `i` was replaced. -/
lemma sum_sizes_set (hi : i < cs.length) (c' : BPlusTreeNode α) :
    (sizes (cs.set i c')).sum + cs[i].values.length = (sizes cs).sum + c'.values.length := by
  rw [sum_sizes, sum_sizes, flatten_values_set hi, flatten_values_eq_around hi]
  simp only [List.length_append]
  omega

/-- After child `i` was replaced by a child with values, every child has values. -/
lemma ChildrenOK.values_ne_nil_of_mem_set (hch : ChildrenOK M cs ts) (hi : i < cs.length)
    (hc' : c'.values ≠ []) : ∀ x ∈ cs.set i c', x.values ≠ [] := by
  intro x hx hx0
  rcases List.mem_or_eq_of_mem_set hx with hx' | rfl
  · -- an empty child was the only one, and it was replaced
    obtain ⟨y, rfl⟩ := List.length_eq_one_iff.mp (hch.single_of_empty x hx' hx0)
    obtain rfl : i = 0 := by simp at hi; omega
    simp only [List.set_cons_zero, List.mem_singleton] at hx
    exact hc' (hx ▸ hx0)
  · exact hc' hx0

/-- The children after child `i` grew by one value. -/
lemma ChildrenOK.set_succ (hch : ChildrenOK M cs ts) (hi : i < cs.length)
    (hlen : c'.values.length = cs[i].values.length + 1) : ChildrenOK M (cs.set i c') (ts + 1) := by
  have hne : c'.values ≠ [] := by rw [← List.length_pos_iff]; omega
  refine ⟨by simpa using hch.ne_nil, by simpa using hch.length_le, ?_,
    fun x hx hx0 => absurd hx0 (hch.values_ne_nil_of_mem_set hi hne x hx)⟩
  have := sum_sizes_set hi c'
  rw [hch.treeSize_eq]
  omega

/-- The children after child `i` was split in two. -/
lemma ChildrenOK.split (hch : ChildrenOK M cs ts) (hi : i < cs.length) (hk : cs.length < M)
    (hc' : c'.values ≠ []) (hs : s.values ≠ [])
    (hlen : c'.values.length + s.values.length = cs[i].values.length + 1) :
    ChildrenOK M ((cs.set i c').insertIdx (i + 1) s) (ts + 1) := by
  have hle : i + 1 ≤ (cs.set i c').length := by simp; omega
  refine ⟨?_, ?_, ?_, fun x hx hx0 => ?_⟩
  · rw [← List.length_pos_iff, List.length_insertIdx_of_le_length hle]
    omega
  · rw [List.length_insertIdx_of_le_length hle, List.length_set]
    omega
  · rw [hch.treeSize_eq, sum_sizes, sum_sizes, List.map_insertIdx, List.map_set,
      List.flatten_insertIdx_set_around _ (by simpa using hi),
      List.flatten_eq_around (cs.map values) (i := i) (by simpa using hi)]
    simp only [List.length_append, List.getElem_map]
    omega
  · rcases (List.mem_insertIdx hle).mp hx with rfl | hx
    · exact absurd hx0 hs
    · exact absurd hx0 (hch.values_ne_nil_of_mem_set hi hc' x hx)

/-- The values of the children after child `i` was split in two. -/
lemma flatten_values_split (hi : i < cs.length) (c' s : BPlusTreeNode α) :
    (((cs.set i c').insertIdx (i + 1) s).map values).flatten =
      ((cs.take i).map values).flatten ++ (c'.values ++ s.values) ++
        ((cs.drop (i + 1)).map values).flatten := by
  rw [List.map_insertIdx, List.map_set, List.flatten_insertIdx_set_around _ (by simpa using hi),
    List.map_take, List.map_drop, List.append_assoc _ c'.values]

/-- The values beneath the children, up to the last, child `i`. -/
lemma sum_sizes_of_last (hlast : i + 1 = cs.length) :
    (sizes cs).sum = ((sizes cs).take i).sum + cs[i].values.length := by
  rw [← getElem_sizes (by omega) (by simp; omega), ← List.sum_take_succ _ _ (by simp; omega),
    List.take_of_length_le (by simp; omega)]

/-- The children of an inner node with two children or more all have values. -/
lemma ChildrenOK.values_ne_nil (hch : ChildrenOK M cs ts) (h2 : 1 < cs.length) :
    ∀ x ∈ cs, x.values ≠ [] := fun x hx hx0 => by
  have := hch.single_of_empty x hx hx0
  omega

/-! ### No split below -/

/-- The child grew by one value, in the general form: the running totals from it on move by
one. -/
lemma reassembled_noSplit_general {r : BptreeRouting} (hw : WF M (h + 1) (inner r cs ts))
    (hi : i < cs.length) (hc' : WF M h c') (hlen : c'.values.length = cs[i].values.length + 1) :
    Reassembled M h cs i (c'.values ++ splitValues none)
      (inner (.general (adjust (sizes cs).runningTotals i 1)) (cs.set i c') (ts + 1)) none := by
  obtain ⟨hch, hcs⟩ := hw.children
  refine ⟨by rw [values_inner, flatten_values_set hi, splitValues_none, List.append_nil,
      List.append_nil], ⟨hch.set_succ hi hlen, fun x hx => ?_, ?_⟩, fun _ _ h => by cases h⟩
  · rcases List.mem_or_eq_of_mem_set hx with hx | rfl
    · exact hcs x hx
    · exact hc'
  · have hi' : i < (sizes cs).length := by simpa using hi
    rw [sizes_set, hlen, ← getElem_sizes hi hi', List.runningTotals_set_add_one _ hi', adjust_one]

/-- The last child grew by one value, in the compact form. -/
lemma reassembled_noSplit_compact {e : Nat} (hw : WF M (h + 1) (inner (.compact e) cs ts))
    (hi : i < cs.length) (hlast : i + 1 = cs.length) (hc' : WF M h c') (hcomp : c'.isCompact)
    (hlen : c'.values.length = cs[i].values.length + 1) :
    Reassembled M h cs i (c'.values ++ splitValues none)
      (inner (.compact e) (cs.set i c') (ts + 1)) none := by
  obtain ⟨hch, hcs, he, hfull⟩ := hw
  refine ⟨by rw [values_inner, flatten_values_set hi, splitValues_none, List.append_nil,
      List.append_nil], ⟨hch.set_succ hi hlen, fun x hx => ?_, he, ?_⟩, fun _ _ h => by cases h⟩
  · rcases List.mem_or_eq_of_mem_set hx with hx | rfl
    · exact hcs x hx
    · exact ⟨hc', hcomp⟩
  · intro j hj
    rw [sizes_set, List.getElem?_set_ne (by simp at hj; omega)]
    exact hfull j (by simpa using hj)

/-! ### Room for the new sibling -/

/-- The child split in two, with room in the general form: the running total at the end of the
first part comes in, and those after it move by one. -/
lemma reassembled_room_general {r : BptreeRouting} (hw : WF M (h + 1) (inner r cs ts))
    (hi : i < cs.length) (hk : cs.length < M) (hc' : WF M h c') (hs : WF M h s)
    (hne' : c'.values ≠ []) (hnes : s.values ≠ [])
    (hlen : c'.values.length + s.values.length = cs[i].values.length + 1) (st : BptreeState)
    (hst : st.splitOffset = c'.values.length) :
    Reassembled M h cs i (c'.values ++ splitValues (some (s, st)))
      (inner (.general (adjust ((sizes cs).runningTotals.insertIdx i
          (getBpNodeOffset (sizes cs).runningTotals i + st.splitOffset)) (i + 1) 1))
        ((cs.set i c').insertIdx (i + 1) s) (ts + 1)) none := by
  obtain ⟨hch, hcs⟩ := hw.children
  have hi' : i < (sizes cs).length := by simpa using hi
  refine ⟨?_, ⟨hch.split hi hk hne' hnes hlen, fun x hx => ?_, ?_⟩, fun _ _ h => by cases h⟩
  · rw [values_inner, splitValues_none, List.append_nil, splitValues_some,
      flatten_values_split hi]
  · rcases (List.mem_insertIdx (by simp; omega)).mp hx with rfl | hx
    · exact hs
    · rcases List.mem_or_eq_of_mem_set hx with hx | rfl
      · exact hcs x hx
      · exact hc'
  · rw [sizes_insertIdx, sizes_set, List.runningTotals_split _ hi' (by rw [getElem_sizes hi _]; omega),
      getBpNodeOffset_runningTotals _ hi', hst, adjust_one]

/-- The last child split at its end, with room in the compact form: the full child stays, and
the new sibling is the last child. -/
lemma reassembled_room_compact {e : Nat} (hw : WF M (h + 1) (inner (.compact e) cs ts))
    (hi : i < cs.length) (hlast : i + 1 = cs.length) (hk : cs.length < M) (hc' : WF M h c')
    (hs : WF M h s) (hcomp' : c'.isCompact) (hcomps : s.isCompact) (hne' : c'.values ≠ [])
    (hnes : s.values ≠ []) (hfull' : c'.values.length = e)
    (hlen : c'.values.length + s.values.length = cs[i].values.length + 1) (st : BptreeState) :
    Reassembled M h cs i (c'.values ++ splitValues (some (s, st)))
      (inner (.compact e) ((cs.set i c').insertIdx (i + 1) s) (ts + 1)) none := by
  obtain ⟨hch, hcs, he, hfull⟩ := hw
  refine ⟨?_, ⟨hch.split hi hk hne' hnes hlen, fun x hx => ?_, he, fun j hj => ?_⟩,
    fun _ _ h => by cases h⟩
  · rw [values_inner, splitValues_none, List.append_nil, splitValues_some,
      flatten_values_split hi]
  · rcases (List.mem_insertIdx (by simp; omega)).mp hx with rfl | hx
    · exact ⟨hs, hcomps⟩
    · rcases List.mem_or_eq_of_mem_set hx with hx | rfl
      · exact hcs x hx
      · exact ⟨hc', hcomp'⟩
  · -- the children before the new sibling are full, the split child too
    simp only [List.length_insertIdx_of_le_length (show i + 1 ≤ (cs.set i c').length by simp; omega),
      List.length_set] at hj
    have hj' : j < i + 1 := by omega
    rw [sizes_insertIdx, List.getElem?_insertIdx_of_lt hj', sizes_set]
    by_cases hji : j = i
    · subst hji
      rw [List.getElem?_set_self (by simpa using hi), hfull']
    · rw [List.getElem?_set_ne (Ne.symm hji)]
      exact hfull j (by omega)

/-! ### A split after the last child -/

/-- The children of a node whose last child, child `i`, was replaced. -/
lemma ChildrenOK.set_last (hch : ChildrenOK M cs ts) (hi : i < cs.length) (hlast : i + 1 = cs.length)
    (hne' : c'.values ≠ []) :
    ChildrenOK M (cs.set i c') (((sizes cs).take i).sum + c'.values.length) := by
  have hsum := sum_sizes_set hi c'
  have hlast' := sum_sizes_of_last hlast
  exact ⟨by simpa using hch.ne_nil, by simpa using hch.length_le, by omega,
    fun x hx hx0 => absurd hx0 (hch.values_ne_nil_of_mem_set hi hne' x hx)⟩

/-- The values of a node whose last child, child `i`, was replaced. -/
lemma length_flatten_values_set_last (hi : i < cs.length) (hlast : i + 1 = cs.length) :
    ((cs.set i c').map values).flatten.length = ((sizes cs).take i).sum + c'.values.length := by
  have hsum := sum_sizes_set hi c'
  have hlast' := sum_sizes_of_last hlast
  rw [← sum_sizes]
  omega

/-- The new node that takes the new sibling alone. -/
lemma childrenOK_singleton (hM : 1 ≤ M) (s : BPlusTreeNode α) :
    ChildrenOK M [s] s.values.length :=
  ⟨by simp, by simpa using hM, by simp [sizes], fun _ _ _ => rfl⟩

/-- The values of a node split after its last child, child `i`, and of the new node. -/
lemma values_split_last {r r' : BptreeRouting} (hi : i < cs.length) (hlast : i + 1 = cs.length)
    (ts' ts'' : Nat) (st st' : BptreeState) :
    (inner r (cs.set i c') ts').values ++ splitValues (some (inner r' [s] ts'', st')) =
      ((cs.take i).map values).flatten ++ (c'.values ++ splitValues (some (s, st))) ++
        ((cs.drop (i + 1)).map values).flatten := by
  rw [splitValues_some, splitValues_some, values_inner, values_inner, flatten_values_set hi,
    List.drop_eq_nil_of_le (by omega)]
  simp

/-- A full node split after its last child, in the general form: the node keeps its children,
and the new sibling goes alone to a new node. -/
lemma reassembled_last_general {r : BptreeRouting} (hw : WF M (h + 1) (inner r cs ts))
    (hi : i < cs.length) (hlast : i + 1 = cs.length) (hc' : WF M h c') (hs : WF M h s)
    (hne' : c'.values ≠ []) (hnes : s.values ≠ []) (st : BptreeState)
    (hst₁ : st.splitOffset = c'.values.length)
    (hst₂ : st.splitSize = c'.values.length + s.values.length) :
    Reassembled M h cs i (c'.values ++ splitValues (some (s, st)))
      (inner (.general (sizes cs).runningTotals) (cs.set i c')
        (((sizes cs).take i).sum + st.splitOffset))
      (some (inner (.general []) [s]
          (((sizes cs).take i).sum + st.splitSize - (((sizes cs).take i).sum + st.splitOffset)),
        ⟨((sizes cs).take i).sum + st.splitOffset, ((sizes cs).take i).sum + st.splitSize⟩)) := by
  obtain ⟨hch, hcs⟩ := hw.children
  have hnode : ((cs.set i c').map values).flatten.length =
      ((sizes cs).take i).sum + c'.values.length := length_flatten_values_set_last hi hlast
  have hM : 1 ≤ M := le_trans (List.length_pos_iff.mpr hch.ne_nil) hch.length_le
  have hpos := List.length_pos_iff.mpr hne'
  refine ⟨values_split_last hi hlast _ _ _ _, ⟨hst₁ ▸ hch.set_last hi hlast hne', fun x hx => ?_, ?_⟩,
    fun s' st' hs' => ?_⟩
  · rcases List.mem_or_eq_of_mem_set hx with hx | rfl
    · exact hcs x hx
    · exact hc'
  · rw [sizes_set, show i = (sizes cs).length - 1 by simp; omega, List.runningTotals_set_last]
  · simp only [Option.some.injEq, Prod.mk.injEq] at hs'
    obtain ⟨rfl, rfl⟩ := hs'
    refine ⟨⟨by convert childrenOK_singleton hM s using 1; omega, by simpa using hs,
      by simp [List.runningTotals]⟩, ?_, by simpa using hnes, ?_, ?_⟩ <;>
      simp only [values_inner, List.map_cons, List.map_nil, List.flatten_cons, List.flatten_nil,
        List.append_nil, hnode, ne_eq, ← List.length_eq_zero_iff] <;> omega

/-- A full compact node split after its last child: the node keeps its children, and the new
sibling goes alone to a new compact node. -/
lemma reassembled_last_compact {e : Nat} (hw : WF M (h + 1) (inner (.compact e) cs ts))
    (hi : i < cs.length) (hlast : i + 1 = cs.length) (hc' : WF M h c') (hs : WF M h s)
    (hcomp' : c'.isCompact) (hcomps : s.isCompact) (hne' : c'.values ≠ []) (hnes : s.values ≠ [])
    (st : BptreeState) (hst₁ : st.splitOffset = c'.values.length)
    (hst₂ : st.splitSize = c'.values.length + s.values.length) :
    Reassembled M h cs i (c'.values ++ splitValues (some (s, st)))
      (inner (.compact e) (cs.set i c') (((sizes cs).take i).sum + st.splitOffset))
      (some (inner (.compact e) [s]
          (((sizes cs).take i).sum + st.splitSize - (((sizes cs).take i).sum + st.splitOffset)),
        ⟨((sizes cs).take i).sum + st.splitOffset, ((sizes cs).take i).sum + st.splitSize⟩)) := by
  obtain ⟨hch, hcs, he, hfull⟩ := hw
  have hnode : ((cs.set i c').map values).flatten.length =
      ((sizes cs).take i).sum + c'.values.length := length_flatten_values_set_last hi hlast
  have hM : 1 ≤ M := le_trans (List.length_pos_iff.mpr hch.ne_nil) hch.length_le
  have hpos := List.length_pos_iff.mpr hne'
  refine ⟨values_split_last hi hlast _ _ _ _,
    ⟨hst₁ ▸ hch.set_last hi hlast hne', fun x hx => ?_, he, fun j hj => ?_⟩, fun s' st' hs' => ?_⟩
  · rcases List.mem_or_eq_of_mem_set hx with hx | rfl
    · exact hcs x hx
    · exact ⟨hc', hcomp'⟩
  · rw [List.length_set] at hj
    rw [sizes_set, List.getElem?_set_ne (by omega)]
    exact hfull j hj
  · simp only [Option.some.injEq, Prod.mk.injEq] at hs'
    obtain ⟨rfl, rfl⟩ := hs'
    refine ⟨⟨by convert childrenOK_singleton hM s using 1; omega, by simpa using ⟨hs, hcomps⟩, he,
      fun j hj => absurd hj (by simp)⟩, ?_, by simpa using hnes, ?_, ?_⟩ <;>
      simp only [values_inner, List.map_cons, List.map_nil, List.flatten_cons, List.flatten_nil,
        List.append_nil, hnode, ne_eq, ← List.length_eq_zero_iff] <;> omega

/-! ### A split in the middle -/

/-- A full node split in the middle, in the general form: the node keeps the children up to the
new sibling, and those after it go to a new node. -/
lemma reassembled_middle_general {r : BptreeRouting} (hw : WF M (h + 1) (inner r cs ts))
    (hi : i < cs.length) (hmid : i + 1 < cs.length) (hc' : WF M h c') (hs : WF M h s)
    (hne' : c'.values ≠ []) (hnes : s.values ≠ [])
    (hlen : c'.values.length + s.values.length = cs[i].values.length + 1) (st : BptreeState)
    (hst₁ : st.splitOffset = c'.values.length)
    (hst₂ : st.splitSize = c'.values.length + s.values.length) :
    Reassembled M h cs i (c'.values ++ splitValues (some (s, st)))
      (inner (.general ((sizes cs).runningTotals.take i ++ [((sizes cs).take i).sum + st.splitOffset]))
        (cs.take i ++ [c', s]) (((sizes cs).take i).sum + st.splitSize))
      (some (inner (.general (sizes (cs.drop (i + 1))).runningTotals) (cs.drop (i + 1))
          (ts + 1 - (((sizes cs).take i).sum + st.splitSize)),
        ⟨((sizes cs).take i).sum + st.splitSize, ts + 1⟩)) := by
  obtain ⟨hch, hcs⟩ := hw.children
  have hall := hch.values_ne_nil (by omega)
  have hA := length_flatten_take_values cs i
  have hV := flatten_values_eq_around hi
  have hts : ts = (((cs.take i).map values).flatten ++ cs[i].values ++
      ((cs.drop (i + 1)).map values).flatten).length := by
    rw [← hV, ← sum_sizes, hch.treeSize_eq]
  simp only [List.length_append] at hts
  have hB : ((cs.drop (i + 1)).map values).flatten ≠ [] := by
    have hmem : cs[i + 1] ∈ cs.drop (i + 1) := by
      rw [List.drop_eq_getElem_cons hmid]
      exact List.mem_cons_self
    intro hnil
    exact hall _ (List.mem_of_mem_drop hmem)
      (List.flatten_eq_nil_iff.mp hnil _ (List.mem_map_of_mem hmem))
  have hnode : ((cs.take i ++ [c', s]).map values).flatten =
      ((cs.take i).map values).flatten ++ c'.values ++ s.values := by simp
  refine ⟨?_, ⟨⟨by simp, ?_, ?_, fun x hx hx0 => ?_⟩, fun x hx => ?_, ?_⟩, fun s' st' hs' => ?_⟩
  · rw [values_inner, splitValues_some, values_inner, hnode, splitValues_some]
    simp
  · simp only [List.length_append, List.length_take, List.length_cons, List.length_nil]
    have := hch.length_le
    omega
  · rw [sum_sizes, hnode]
    simp only [List.length_append]
    omega
  · simp only [List.mem_append, List.mem_cons, List.not_mem_nil, or_false] at hx
    rcases hx with hx | rfl | rfl
    · exact absurd hx0 (hall x (List.mem_of_mem_take hx))
    · exact absurd hx0 hne'
    · exact absurd hx0 hnes
  · simp only [List.mem_append, List.mem_cons, List.not_mem_nil, or_false] at hx
    rcases hx with hx | rfl | rfl
    · exact hcs x (List.mem_of_mem_take hx)
    · exact hc'
    · exact hs
  · rw [sizes_append, sizes_take, sizes_cons, sizes_cons, sizes_nil,
      List.runningTotals_take_append_pair _ (by simpa using hi), hst₁]
  · simp only [Option.some.injEq, Prod.mk.injEq] at hs'
    obtain ⟨rfl, rfl⟩ := hs'
    have hdrop_len : (cs.drop (i + 1)).length ≤ M := by
      have := hch.length_le
      simp
      omega
    refine ⟨⟨⟨by simpa [List.drop_eq_nil_iff] using hmid, hdrop_len, ?_, fun x hx hx0 => ?_⟩,
      fun x hx => hcs x (List.mem_of_mem_drop hx), rfl⟩, ?_, ?_, ?_, ?_⟩
    · rw [sum_sizes]
      omega
    · exact absurd hx0 (hall x (List.mem_of_mem_drop hx))
    · rw [values_inner, hnode]
      simp [hne']
    · simpa using hB
    · rw [values_inner, hnode]
      simp only [List.length_append]
      omega
    · rw [values_inner, hnode, values_inner]
      simp only [List.length_append]
      have := List.length_pos_iff.mpr hB
      omega

/-- The node and the new node `insert_bp_node` answers for a split in the middle. -/
lemma insertBpNode_middle_eq {r : BptreeRouting} (hw : WF M (h + 1) (inner r cs ts))
    (hi : i < cs.length) (hmid : i + 1 < cs.length) (hk : ¬cs.length < M)
    (hne' : c'.values ≠ []) (hlen : c'.values.length + s.values.length = cs[i].values.length + 1)
    (st : BptreeState) (hst₁ : st.splitOffset = c'.values.length)
    (hst₂ : st.splitSize = c'.values.length + s.values.length) :
    insertBpNode M (.general (sizes cs).runningTotals) (cs.set i c') ts i s st =
      .ok (inner (.general ((sizes cs).runningTotals.take i ++ [((sizes cs).take i).sum + st.splitOffset]))
          (cs.take i ++ [c', s]) (((sizes cs).take i).sum + st.splitSize),
        some (inner (.general (sizes (cs.drop (i + 1))).runningTotals) (cs.drop (i + 1))
            (ts + 1 - (((sizes cs).take i).sum + st.splitSize)),
          ⟨((sizes cs).take i).sum + st.splitSize, ts + 1⟩)) := by
  have hi' : i < (sizes cs).length := by simpa using hi
  have hall := hw.children.1.values_ne_nil (by omega)
  have hoff := getBpNodeOffset_runningTotals _ hi'
  rw [insertBpNode_middle_general M (cs.set i c') ts i s st _ (by simpa using hk)
    (by simp; omega), hoff, addBpNodeRef_general, if_pos (by have := List.length_pos_iff.mpr hne'; omega)]
  -- the children after the new sibling move out with their offsets
  have hadj : (((((sizes cs).take i).sum + st.splitSize : Nat) : Int) - 1) =
      (((sizes cs).take (i + 1)).sum : Int) := by
    rw [List.sum_take_succ _ _ hi', getElem_sizes hi hi']
    omega
  rw [hadj, move_drop_runningTotals (sizes cs) (cs.set i c') (by simp) (m := i)
    fun j hj hij => by
      rw [getElem_sizes (by simpa using hj) hj]
      exact List.length_pos_iff.mpr (hall _ (List.getElem_mem _)),
    List.drop_set_of_lt (by omega), List.take_succ_eq_append_getElem (by simpa using hi),
    List.take_set_of_le le_rfl, List.getElem_set_self, sizes_drop]
  simp
  rw [← List.map_take, ← Nat.cast_list_sum]
  omega

/-! ### Appends to a compact node -/

/-- A child replaced by one with the same values leaves the values of the node. -/
lemma map_values_set_of_eq (hi : i < cs.length) (h : c'.values = cs[i].values) :
    (cs.set i c').map values = cs.map values := by
  have hi' : i < (cs.map values).length := by simpa using hi
  have hget : (cs.map values)[i] = cs[i].values := List.getElem_map values
  rw [List.map_set, h, ← hget, List.set_getElem_self]

/-- The values beneath a compact node whose last child is child `i`. -/
lemma sum_sizes_of_compact {e : Nat} (hw : WF M (h + 1) (inner (.compact e) cs ts))
    (hlast : i + 1 = cs.length) : (sizes cs).sum = i * e + cs[i].values.length := by
  rw [sum_sizes_of_last hlast, sum_take_sizes_of_compact hw.2.2.2 i (by omega)]

/-- An append to a compact node whose last child did not split: the node was not full. -/
lemma appended_noSplit {e : Nat} (hw : WF M (h + 1) (inner (.compact e) cs ts))
    (hi : i < cs.length) (hlast : i + 1 = cs.length) (hlt : cs[i].values.length < e) (node : BPlusTreeNode α) (hnode : node.isCompact) :
    Appended M (h + 1) (inner (.compact e) cs ts) node none := by
  refine ⟨hnode, ?_, fun _ _ h => by cases h⟩
  have hsum := sum_sizes_of_compact hw hlast
  have hk := hw.1.length_le
  have he : e = M ^ (h + 1) := hw.2.2.1
  rw [values_inner, ← sum_sizes, hsum, pow_succ', ← he]
  simp only [Option.isSome_none, Bool.false_eq_true, false_iff]
  intro heq
  have : (i + 1) * e ≤ M * e := Nat.mul_le_mul_right _ (by omega)
  rw [Nat.succ_mul] at this
  omega

/-- An append to a compact node with room for the new sibling: the node was not full. -/
lemma appended_room {e : Nat} (hM : 0 < M) (hw : WF M (h + 1) (inner (.compact e) cs ts))
    (hi : i < cs.length) (hlast : i + 1 = cs.length) (hk : cs.length < M)
    (hfull : cs[i].values.length = e) (node : BPlusTreeNode α) (hnode : node.isCompact) :
    Appended M (h + 1) (inner (.compact e) cs ts) node none := by
  refine ⟨hnode, ?_, fun _ _ h => by cases h⟩
  have hsum := sum_sizes_of_compact hw hlast
  have he : e = M ^ (h + 1) := hw.2.2.1
  have hepos : 0 < e := he ▸ Nat.pow_pos hM
  rw [values_inner, ← sum_sizes, hsum, pow_succ', ← he, hfull]
  simp only [Option.isSome_none, Bool.false_eq_true, false_iff]
  intro heq
  have : (i + 1) * e < M * e := Nat.mul_lt_mul_of_pos_right (by omega) hepos
  rw [Nat.succ_mul] at this
  omega

/-- An append to a full compact node: it splits after its last child, keeping its values. -/
lemma appended_last {e : Nat} (hw : WF M (h + 1) (inner (.compact e) cs ts))
    (hi : i < cs.length) (hlast : i + 1 = cs.length) (hk : ¬cs.length < M)
    (hfull : cs[i].values.length = e) (hc'v : c'.values = cs[i].values)
    (ts' ts'' : Nat) (st : BptreeState) :
    Appended M (h + 1) (inner (.compact e) cs ts) (inner (.compact e) (cs.set i c') ts')
      (some (inner (.compact e) [s] ts'', st)) := by
  refine ⟨rfl, ?_, fun s' st' hs' => ?_⟩
  · have hsum := sum_sizes_of_compact hw hlast
    have he : e = M ^ (h + 1) := hw.2.2.1
    have hkM : cs.length = M := le_antisymm hw.1.length_le (not_lt.mp hk)
    rw [values_inner, ← sum_sizes, hsum, pow_succ', ← he, hfull]
    simp only [Option.isSome_some, true_iff]
    rw [← hkM, ← hlast, Nat.succ_mul]
  · simp only [Option.some.injEq, Prod.mk.injEq] at hs'
    obtain ⟨rfl, rfl⟩ := hs'
    refine ⟨rfl, ?_⟩
    rw [values_inner, values_inner, map_values_set_of_eq hi hc'v]

/-- What was inserted grew by one value. -/
lemma Inserted.length_eq {c : BPlusTreeNode α} {k : Nat} {v : α}
    {split : Option (BPlusTreeNode α × BptreeState)} (hc : Inserted M h c k v c' split)
    (hk : k ≤ c.values.length) :
    c'.values.length + (splitValues split).length = c.values.length + 1 := by
  rw [← List.length_append, hc.values_eq, List.length_insertIdx_of_le_length hk]

end Parent

/-! ## The inner node -/

section InnerNode

variable {cs : List (BPlusTreeNode α)} {ts : Nat} {r : BptreeRouting} {v : α}

/-- The routing of `bptree_insert` at `ndx` in a node in the shape: the child `i` that takes the
value, at a position within it, after the running total of the children before it.  A position
turns the node to the general form; `npos` keeps the form and goes to the last child. -/
lemma insertRoute_spec (hw : WF M (h + 1) (inner r cs ts)) {ndx : Option Nat}
    (hndx : ∀ n, ndx = some n → n ≤ (sizes cs).sum) :
    ∃ r₁ i ndx₁, ∃ hi : i < cs.length,
      insertRoute r cs.length ndx = .ok (r₁, i, ((sizes cs).take i).sum, ndx₁) ∧
      WF M (h + 1) (inner r₁ cs ts) ∧ (∀ n, ndx₁ = some n → n ≤ cs[i].values.length) ∧
      ((sizes cs).take i).sum + ndx₁.getD cs[i].values.length = ndx.getD (sizes cs).sum ∧
      (ndx = none → ndx₁ = none ∧ r₁ = r ∧ i + 1 = cs.length) ∧
      (∀ e, r₁ = .compact e → ndx = none) := by
  cases ndx with
  | some n =>
    obtain ⟨i, hroute, hi, hle, hge⟩ := insertRoute_some hw (hndx n rfl)
    have hi' : i < (sizes cs).length := by simpa using hi
    have hsucc := List.sum_take_succ _ _ hi'
    rw [getElem_sizes hi hi'] at hsucc
    refine ⟨_, i, _, hi, hroute, ⟨hw.children.1, hw.children.2, rfl⟩, ?_, ?_, nofun, nofun⟩
    · rintro m ⟨⟩
      omega
    · simp only [Option.getD_some]
      omega
  | none =>
    have hpos : 0 < cs.length := List.length_pos_iff.mpr hw.children.1.ne_nil
    have hlast : cs.length - 1 + 1 = cs.length := by omega
    refine ⟨r, _, none, by omega, insertRoute_none hw, hw, nofun, ?_, fun _ => ⟨rfl, rfl, hlast⟩,
      fun _ _ => rfl⟩
    rw [Option.getD_none, Option.getD_none, sum_sizes_of_last hlast]

/-- The spec of `bptree_insert` in an inner node, from its reassembly around child `i`, which
was inserted into at `kc`, the position within it. -/
lemma insertSpec_of_reassembled {node : BPlusTreeNode α}
    {split split' : Option (BPlusTreeNode α × BptreeState)} {i kc : Nat} {ndx : Option Nat}
    {c' : BPlusTreeNode α} {offset : Nat} {cache' : LeafCache α}
    (hr : Reassembled M h cs i (c'.values ++ splitValues split) node split') (hi : i < cs.length)
    (hc : Inserted M h cs[i] kc v c' split) (hkc : kc ≤ cs[i].values.length)
    (hk : ((sizes cs).take i).sum + kc = ndx.getD (sizes cs).sum)
    (happ : ndx = none → (inner r cs ts).isCompact → Appended M (h + 1) (inner r cs ts) node split')
    (hfits : cache'.Fits (c'.values ++ splitValues split) (((sizes cs).take i).sum + offset)) :
    InsertSpec M (h + 1) v (inner r cs ts) ndx offset (.ok (node, split', cache')) := by
  refine ⟨node, split', cache', rfl, ?_, happ, ?_⟩
  · rw [values_inner, ← sum_sizes, ← hk]
    exact hr.inserted hi hc hkc
  · rw [hr.values_eq]
    apply Fits.lift
    rwa [length_flatten_take_values, Nat.add_comm]

/-- `bptree_insert` in an inner node in the shape, from the spec of the insertion in its
children: the four outcomes (no split below, room for the new sibling, a split after the last
child, a split in the middle) each reassemble the node. -/
theorem bptreeInsert_inner_spec (hM : 0 < M) (hw : WF M (h + 1) (inner r cs ts))
    (ih : ∀ c, WF M h c → ∀ ndx, (∀ n, ndx = some n → n ≤ c.values.length) → ∀ offset cache,
      InsertSpec M h v c ndx offset (insertChild M v [c] 0 ndx offset cache))
    {ndx : Option Nat} (hndx : ∀ n, ndx = some n → n ≤ (sizes cs).sum) (offset : Nat)
    (cache : LeafCache α) :
    InsertSpec M (h + 1) v (inner r cs ts) ndx offset
      (bptreeInsert M v (inner r cs ts) ndx offset cache) := by
  obtain ⟨hch, hcs⟩ := hw.children
  obtain ⟨r₁, i, ndx₁, hi, hroute, hw₁, hndx₁, hk, hnone, hcomp⟩ := insertRoute_spec hw hndx
  obtain ⟨c', split, cache', hres, hins, happ, hfits⟩ :=
    ih cs[i] (hcs _ (List.getElem_mem hi)) ndx₁ hndx₁ (((sizes cs).take i).sum + offset) cache
  have hkc : ndx₁.getD cs[i].values.length ≤ cs[i].values.length := by
    cases ndx₁ with
    | none => exact le_rfl
    | some n => exact hndx₁ n rfl
  have hlen := hins.length_eq hkc
  have hi' : i < (sizes cs).length := by simpa using hi
  rw [bptreeInsert, hroute, except_ok_bind]
  dsimp only
  rw [insertChild_eq M v ndx₁ cs i hi, hres, except_ok_bind]
  dsimp only
  cases r₁ with
  | general o =>
    obtain rfl : o = (sizes cs).runningTotals := hw₁.2.2
    -- an append to a node of the general form is no append to a compact node
    have hgen : ndx = none → (inner r cs ts).isCompact → False := fun hn hc => by
      obtain ⟨-, rfl, -⟩ := hnone hn
      cases hc
    cases split with
    | none =>
      exact insertSpec_of_reassembled (reassembled_noSplit_general hw hi hins.wf (by simpa using hlen))
        hi hins hkc hk (fun hn hc => (hgen hn hc).elim) hfits
    | some p =>
      obtain ⟨s, st⟩ := p
      obtain ⟨hs, hne', hnes, hst₁, hst₂⟩ := hins.wf_split s st rfl
      rw [splitValues_some] at hlen
      dsimp only
      by_cases hroom : cs.length < M
      · rw [insertBpNode_room_general M (cs.set i c') ts i s st _ (by simpa using hroom),
          except_ok_bind]
        exact insertSpec_of_reassembled
          (reassembled_room_general hw hi hroom hins.wf hs hne' hnes hlen st hst₁)
          hi hins hkc hk (fun hn hc => (hgen hn hc).elim) hfits
      · by_cases hlast : i + 1 = cs.length
        · rw [insertBpNode_last_general M (cs.set i c') ts i s st _ (by simpa using hroom)
            (by simpa using hlast), getBpNodeOffset_runningTotals _ hi', except_ok_bind]
          exact insertSpec_of_reassembled
            (reassembled_last_general hw hi hlast hins.wf hs hne' hnes st hst₁ hst₂)
            hi hins hkc hk (fun hn hc => (hgen hn hc).elim) hfits
        · rw [insertBpNode_middle_eq hw hi (by omega) hroom hne' hlen st hst₁ hst₂, except_ok_bind]
          exact insertSpec_of_reassembled
            (reassembled_middle_general hw hi (by omega) hins.wf hs hne' hnes hlen st hst₁ hst₂)
            hi hins hkc hk (fun hn hc => (hgen hn hc).elim) hfits
  | compact e =>
    -- only an append keeps the compact form: it goes to the last child, which is compact
    obtain ⟨rfl, rfl, hlast⟩ := hnone (hcomp e rfl)
    have hndx₀ : ndx = none := hcomp e rfl
    subst hndx₀
    obtain ⟨-, hcsc, he, -⟩ := hw
    have hcc : cs[i].isCompact := (hcsc _ (List.getElem_mem hi)).2
    have happ' := happ rfl hcc
    have hle : cs[i].values.length ≤ e := he ▸ (hcsc _ (List.getElem_mem hi)).1.length_values_le hcc
    cases split with
    | none =>
      have hlt : cs[i].values.length < e :=
        lt_of_le_of_ne hle fun heq => by simpa using happ'.isSome_iff.mpr (heq.trans he)
      exact insertSpec_of_reassembled
        (reassembled_noSplit_compact hw₁ hi hlast hins.wf happ'.compact (by simpa using hlen))
        hi hins hkc hk (fun _ _ => appended_noSplit hw₁ hi hlast hlt _ rfl) hfits
    | some p =>
      obtain ⟨s, st⟩ := p
      obtain ⟨hs, hne', hnes, hst₁, hst₂⟩ := hins.wf_split s st rfl
      obtain ⟨hcomps, hc'v⟩ := happ'.compact_split s st rfl
      have hfull : cs[i].values.length = e := he ▸ happ'.isSome_iff.mp rfl
      rw [splitValues_some] at hlen
      dsimp only
      by_cases hroom : cs.length < M
      · rw [insertBpNode_room_compact M (cs.set i c') ts i s st _ (by simpa using hroom),
          except_ok_bind]
        exact insertSpec_of_reassembled
          (reassembled_room_compact hw₁ hi hlast hroom hins.wf hs happ'.compact hcomps hne' hnes
            (by rw [hc'v, hfull]) hlen st)
          hi hins hkc hk (fun _ _ => appended_room hM hw₁ hi hlast hroom hfull _ rfl) hfits
      · rw [insertBpNode_last_compact M (cs.set i c') ts i s st _ (by simpa using hroom)
          (by simpa using hlast), ← sum_take_sizes_of_compact hw₁.2.2.2 i hi, except_ok_bind]
        dsimp only
        exact insertSpec_of_reassembled
          (reassembled_last_compact hw₁ hi hlast hins.wf hs happ'.compact hcomps hne' hnes st hst₁
            hst₂)
          hi hins hkc hk (fun _ _ => appended_last hw₁ hi hlast hroom hfull hc'v _ _ _) hfits

end InnerNode

/-! ## The whole insertion -/

/-- `bptree_insert` in a leaf reached from an inner node: the leaf is cached first, and the
cache takes the leaf the value went to. -/
lemma insertChild_leaf_spec (hM : 0 < M) {l : List α} (hl : l.length ≤ M) {ndx : Option Nat}
    (hndx : ∀ n, ndx = some n → n ≤ l.length) (v : α) (offset : Nat) (cache : LeafCache α) :
    InsertSpec M 0 v (leaf l) ndx offset (insertChild M v [leaf l] 0 ndx offset cache) := by
  have hkle : ndx.getD l.length ≤ l.length := by
    cases ndx with
    | none => exact le_rfl
    | some n => exact hndx n rfl
  rcases hres : BPlusTreeLeaf.bptreeInsert M l ndx v (cacheLeaf l offset).bounds with
    ⟨l', split, bounds'⟩
  obtain ⟨hins, happ, hbounds⟩ := leafInsert_spec hM hl hndx v _ hres
  refine ⟨leaf l', split.map fun p => (leaf p.1, p.2), ⟨bounds', l'⟩, ?_, by simpa using hins,
    fun hn _ => happ hn, ?_⟩
  · simp only [insertChild, hres]
  · intro b e hb
    rcases hbounds with ⟨-, rfl, rfl⟩ | ⟨rfl, rfl⟩ | rfl
    · simp only [cacheLeaf, adjustBounds, Option.map_some, Option.some.injEq, Prod.mk.injEq] at hb
      obtain ⟨rfl, rfl⟩ := hb
      refine ⟨le_rfl, ?_, by simp⟩
      simp [List.length_insertIdx_of_le_length hkle]
      omega
    · simp only [cacheLeaf, Option.some.injEq, Prod.mk.injEq] at hb
      obtain ⟨rfl, rfl⟩ := hb
      exact ⟨le_rfl, rfl, by simp⟩
    · cases hb

/-- `bptree_insert` of `v` at a position up to the end (or at `npos`) of a node in the shape that
is a child: the node and its new sibling hold the values with `v` at the position, each in the
shape; an append to a compact node keeps it compact and splits it exactly when it is full; and
the cache fits the node and its sibling. -/
theorem insertChild_spec (hM : 0 < M) (v : α) :
    ∀ (h : Nat) (c : BPlusTreeNode α), WF M h c → ∀ (ndx : Option Nat),
      (∀ n, ndx = some n → n ≤ c.values.length) → ∀ (offset : Nat) (cache : LeafCache α),
        InsertSpec M h v c ndx offset (insertChild M v [c] 0 ndx offset cache) := by
  intro h
  -- induction on the height: an inner node inserts in one of its children
  induction h with
  | zero =>
    intro c hw ndx hndx offset cache
    obtain ⟨l, rfl, hl⟩ := hw.eq_leaf
    exact insertChild_leaf_spec hM hl hndx v offset cache
  | succ h ih =>
    intro c hw ndx hndx offset cache
    obtain ⟨r, cs, ts, rfl⟩ := hw.eq_inner
    rw [insertChild_inner]
    exact bptreeInsert_inner_spec hM hw ih (by simpa [sum_sizes] using hndx) offset cache

/-- A full leaf of four values takes a value in the middle: it splits. -/
theorem insertChild_spec_full_leaf :
    0 < 4 ∧ WF 4 0 (leaf [1, 2, 3, 4]) ∧
      (∀ n, some 2 = some n → n ≤ (leaf [1, 2, 3, 4] : BPlusTreeNode Nat).values.length) ∧
      InsertSpec 4 0 9 (leaf [1, 2, 3, 4]) (some 2) 0
        (insertChild 4 9 [leaf [1, 2, 3, 4]] 0 (some 2) 0 ⟨none, []⟩) :=
  have hw : WF 4 0 (leaf [1, 2, 3, 4] : BPlusTreeNode Nat) := by simp
  have hndx : ∀ n, some 2 = some n → n ≤ (leaf [1, 2, 3, 4] : BPlusTreeNode Nat).values.length := by
    simp
  ⟨by decide, hw, hndx, insertChild_spec (by decide) 9 0 _ hw (some 2) hndx 0 _⟩

end BPlusTreeNode

end Realm
