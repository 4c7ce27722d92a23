import Mathlib
import RealmCore.BPlusTree.Insert

/-!
# Erasing a value from a B+tree

`bptree_erase(n, func)` descends to the leaf of position `n` and erases there.  On the way back
each inner node takes the general form and fixes its offsets: an emptied child is destroyed
unless it is the only one, and a child left with fewer than `REALM_MAX_BPNODE_SIZE / 2` entries
is merged with its next sibling when the two have fewer than `3/4` of it together.  On a node in
the shape `WF`, the node holds the values without the one at `n`, in the shape at the same
height, and answers `0` exactly when it was emptied and its number of entries otherwise
(`Erased`); an emptied node leaves the cache invalidated.

`BPlusTreeBase::bptree_erase` makes the only child of an inner root the root, and does not touch
the cache.  A leaf root must not keep a cache: an insertion into it moves the bounds of the
cache but not the cached leaf.  `CollapseOK` is why it does not: an inner node of two children
or more that answers one child invalidated the cache, or its child is an inner node of two
children or more, which stays the root.
-/

namespace Realm

namespace BPlusTreeNode

open BPlusTreeInner LeafCache

variable {α : Type} {M h : Nat}

/-- What an erase at position `n` of a node `c` of height `h` answers: the node `c'`, which holds
the values of `c` without the one at `n` in the shape at height `h`, and its size, `0` when it
was emptied and `get_node_size` otherwise. -/
structure Erased (M h : Nat) (c : BPlusTreeNode α) (n : Nat) (c' : BPlusTreeNode α) (size : Nat) :
    Prop where
  values_eq : c'.values = c.values.eraseIdx n
  wf : WF M h c'
  size_eq : size = if c'.values = [] then 0 else c'.getNodeSize

/-- What the root loop of `bptree_erase` needs of an inner node that answers one child: the cache
was invalidated, or the child is an inner node of two children or more. -/
def CollapseOK (c : BPlusTreeNode α) (cache : LeafCache α) : Prop :=
  cache.bounds = none ∨
    ∃ r c₁ ts, c = inner r [c₁] ts ∧ ∃ r₁ ds ts₁, c₁ = inner r₁ ds ts₁ ∧ 1 < ds.length

/-- The spec of `bptree_erase` at `n` in a node `c` of height `h` whose first value is at
`offset`: what it answers was erased, the cache fits the node, an emptied node invalidated the
cache, and an inner node of two children or more that answers one child can collapse. -/
def EraseSpec (M h : Nat) (c : BPlusTreeNode α) (n offset : Nat)
    (res : Except String (BPlusTreeNode α × Nat × LeafCache α)) : Prop :=
  ∃ c' size cache', res = .ok (c', size, cache') ∧ Erased M h c n c' size ∧
    cache'.Fits c'.values offset ∧ (size = 0 → cache'.bounds = none) ∧
    ∀ r cs ts, c = inner r cs ts → 1 < cs.length → size = 1 → CollapseOK c' cache'

/-- A node in the shape with values has entries. -/
lemma WF.getNodeSize_pos {c : BPlusTreeNode α} (hw : WF M h c) (hne : c.values ≠ []) :
    0 < c.getNodeSize := by
  cases h with
  | zero =>
    obtain ⟨l, rfl, -⟩ := hw.eq_leaf
    exact List.length_pos_iff.mpr hne
  | succ h =>
    obtain ⟨r, cs, ts, rfl⟩ := hw.eq_inner
    exact List.length_pos_iff.mpr hw.children.1.ne_nil

/-- The size answered is `0` exactly when the node was emptied. -/
lemma Erased.size_eq_zero_iff {c c' : BPlusTreeNode α} {n size : Nat} (he : Erased M h c n c' size) :
    size = 0 ↔ c'.values = [] := by
  rw [he.size_eq]
  split_ifs with hne
  · exact ⟨fun _ => hne, fun _ => rfl⟩
  · exact ⟨fun h0 => absurd h0 (he.wf.getNodeSize_pos hne).ne', fun h => absurd h hne⟩

/-- The erase took one value. -/
lemma Erased.length_add_one {c c' : BPlusTreeNode α} {n size : Nat} (he : Erased M h c n c' size)
    (hn : n < c.values.length) : c'.values.length + 1 = c.values.length := by
  rw [he.values_eq, List.length_eraseIdx_of_lt hn]
  omega

/-! ## Leaves -/

lemma leafErase_eq (l : List α) {n : Nat} (hn : n < l.length) :
    BPlusTreeLeaf.erase l n = .ok (l.eraseIdx n) := if_pos hn

/-- `bptree_erase` in a leaf at the root: the cache stays as it is. -/
lemma bptreeErase_leaf (l : List α) {n : Nat} (hn : n < l.length) (offset : Nat)
    (cache : LeafCache α) :
    bptreeErase M (leaf l) n offset cache = .ok (leaf (l.eraseIdx n), (l.eraseIdx n).length, cache) := by
  simp only [bptreeErase, leafErase_eq l hn, except_ok_bind]

/-- `bptree_erase` in a leaf reached from an inner node: the leaf is cached first, and its end
moves back by one, or the cache is invalidated when the leaf was emptied. -/
lemma eraseChild_leaf_spec {l : List α} (hl : l.length ≤ M) {n : Nat} (hn : n < l.length)
    (offset : Nat) (cache : LeafCache α) :
    EraseSpec M 0 (leaf l) n offset (eraseChild M [leaf l] 0 n offset cache) := by
  have hlen : (l.eraseIdx n).length + 1 = l.length := by
    rw [List.length_eraseIdx_of_lt hn]
    omega
  refine ⟨leaf (l.eraseIdx n), (l.eraseIdx n).length,
    ⟨if (l.eraseIdx n).length = 0 then none else adjustBounds (cacheLeaf l offset).bounds (-1),
      l.eraseIdx n⟩, ?_, ⟨rfl, ?_, ?_⟩, ?_, ?_, fun _ _ _ h => nomatch h⟩
  · simp only [eraseChild, leafErase_eq l hn, except_ok_bind]
  · simp only [wf_zero_leaf]
    omega
  · simp only [values_leaf, getNodeSize, ← List.length_eq_zero_iff]
    split_ifs <;> omega
  · intro b e hb
    -- an emptied leaf left no bounds
    split_ifs at hb with h0
    simp only [cacheLeaf, adjustBounds, Option.map_some, Option.some.injEq, Prod.mk.injEq] at hb
    obtain ⟨rfl, rfl⟩ := hb
    refine ⟨le_rfl, ?_, by simp⟩
    dsimp only
    omega
  · intro h0
    simp only [if_pos h0]

/-! ## The offsets of a node whose children go or merge -/

/-- `erase_and_destroy_bp_node` of an emptied child of a node of two children or more, in the
running totals of the sizes: the totals of the sizes without it. -/
lemma eraseAndDestroyBpNode_runningTotals {s : List Nat} {i : Nat} (hi : i < s.length)
    (h0 : s[i] = 0) (h2 : 1 < s.length) (children : List (BPlusTreeNode α)) :
    eraseAndDestroyBpNode s.runningTotals children i =
      ((s.eraseIdx i).runningTotals, children.eraseIdx i) := by
  have hsz : s.runningTotals.length ≠ 0 := by simp; omega
  rw [List.runningTotals_eraseIdx_of_eq_zero s hi h0]
  simp only [eraseAndDestroyBpNode, if_pos hsz]

/-- `erase_and_destroy_bp_node` of the sibling after a merge: with the offset the merge moved, the
totals of the sizes with the two merged. -/
lemma eraseAndDestroyBpNode_merge {s : List Nat} {i : Nat} (hi : i + 1 < s.length)
    (children : List (BPlusTreeNode α)) :
    eraseAndDestroyBpNode (if i + 1 < s.runningTotals.length then
        s.runningTotals.set i (s.runningTotals.getD (i + 1) 0) else s.runningTotals) children (i + 1) =
      (((s.set i (getElem s i (Nat.lt_of_succ_lt hi) + s[i + 1])).eraseIdx (i + 1)).runningTotals,
        children.eraseIdx (i + 1)) := by
  have hsz : s.runningTotals.length ≠ 0 := by simp; omega
  rw [List.runningTotals_merge s hi]
  split_ifs with hlt
  · simp only [eraseAndDestroyBpNode, List.length_set, if_pos hsz, if_pos hlt]
  · -- the sibling was the last child: the last offset goes
    have hlast : s.runningTotals.length - 1 = i := by simp at hlt ⊢; omega
    simp only [eraseAndDestroyBpNode, if_pos hsz, if_neg hlt, hlast]

/-! ## Merging siblings -/

section MergeSiblings

variable (o : List Nat) (i : Nat) (cache : LeafCache α)

/-- Two leaves merged: the values of the sibling go to the end of the leaf, and the cache is
invalidated. -/
lemma mergeSiblings_leaf (l s : List α) :
    mergeSiblings o i (leaf l) (leaf s) cache =
      .ok (leaf (l ++ s), if i + 1 < o.length then o.set i (o.getD (i + 1) 0) else o,
        ⟨none, l ++ s⟩) := by
  simp only [mergeSiblings, Nat.add_sub_cancel]

/-- Two inner nodes merged: the children of the sibling move to the end of the node, their
offsets re-based by where the sibling began. -/
lemma mergeSiblings_inner (r₁ r₂ : BptreeRouting) (cs₁ cs₂ : List (BPlusTreeNode α))
    (ts₁ ts₂ : Nat) :
    mergeSiblings o i (inner r₁ cs₁ ts₁) (inner r₂ cs₂ ts₂) cache =
      .ok (inner
          (move (ensureOffsets r₂ cs₂.length) cs₂ 0
            ((getBpNodeOffset o i : Int) - (o.getD i 0 : Int))
            (.general (ensureOffsets r₁ cs₁.length), cs₁)).1
          (move (ensureOffsets r₂ cs₂.length) cs₂ 0
            ((getBpNodeOffset o i : Int) - (o.getD i 0 : Int))
            (.general (ensureOffsets r₁ cs₁.length), cs₁)).2 (ts₁ + ts₂),
        if i + 1 < o.length then o.set i (o.getD (i + 1) 0) else o, cache) := by
  simp only [mergeSiblings, Nat.add_sub_cancel]

end MergeSiblings

/-- In a node with values, every child has values. -/
lemma ChildrenOK.values_ne_nil_of_flatten {cs : List (BPlusTreeNode α)} {ts : Nat}
    (hch : ChildrenOK M cs ts) (hne : (cs.map values).flatten ≠ []) : ∀ x ∈ cs, x.values ≠ [] := by
  intro x hx hx0
  obtain ⟨y, rfl⟩ := List.length_eq_one_iff.mp (hch.single_of_empty x hx hx0)
  obtain rfl : x = y := List.mem_singleton.mp hx
  exact hne (by simpa using hx0)

/-- Two inner nodes with values, in the shape, merged into one of the general form. -/
lemma WF.merge {r₁ r₂ : BptreeRouting} {cs₁ cs₂ : List (BPlusTreeNode α)} {ts₁ ts₂ : Nat}
    (hw₁ : WF M (h + 1) (inner r₁ cs₁ ts₁)) (hw₂ : WF M (h + 1) (inner r₂ cs₂ ts₂))
    (hne₁ : (cs₁.map values).flatten ≠ []) (hne₂ : (cs₂.map values).flatten ≠ [])
    (hlen : cs₁.length + cs₂.length ≤ M) :
    WF M (h + 1) (inner (.general (sizes (cs₁ ++ cs₂)).runningTotals) (cs₁ ++ cs₂) (ts₁ + ts₂)) := by
  obtain ⟨hch₁, hcs₁⟩ := hw₁.children
  obtain ⟨hch₂, hcs₂⟩ := hw₂.children
  refine ⟨⟨by simp [hch₁.ne_nil], by simpa using hlen, ?_, fun x hx hx0 => ?_⟩, fun x hx => ?_, rfl⟩
  · rw [sizes_append, List.sum_append, ← hch₁.treeSize_eq, ← hch₂.treeSize_eq]
  · rcases List.mem_append.mp hx with hx | hx
    · exact (hch₁.values_ne_nil_of_flatten hne₁ x hx hx0).elim
    · exact (hch₂.values_ne_nil_of_flatten hne₂ x hx hx0).elim
  · rcases List.mem_append.mp hx with hx | hx
    · exact hcs₁ x hx
    · exact hcs₂ x hx

/-- `merge_siblings` of a node in the shape with its next sibling, in a node whose offsets are the
running totals of the sizes `s`, the node at `i`: the merged node holds the values of both, in the
shape; a merge of leaves invalidates the cache, and a merge of inner nodes keeps it and gives a
node with the children of both. -/
lemma mergeSiblings_spec {s : List Nat} {i : Nat} (hi1 : i + 1 < s.length)
    {c sib : BPlusTreeNode α} (hc : WF M h c) (hsib : WF M h sib)
    (hs : getElem s i (Nat.lt_of_succ_lt hi1) = c.values.length)
    (hne : c.values ≠ []) (hnesib : sib.values ≠ []) (hfit : c.getNodeSize + sib.getNodeSize ≤ M)
    (cache : LeafCache α) :
    ∃ merged cache', mergeSiblings s.runningTotals i c sib cache = .ok (merged,
        if i + 1 < s.runningTotals.length then
          s.runningTotals.set i (s.runningTotals.getD (i + 1) 0) else s.runningTotals, cache') ∧
      merged.values = c.values ++ sib.values ∧ WF M h merged ∧
      (cache'.bounds = none ∨ cache' = cache ∧ ∃ r ds ts, merged = inner r ds ts ∧ 1 < ds.length) := by
  cases h with
  | zero =>
    obtain ⟨l, rfl, -⟩ := hc.eq_leaf
    obtain ⟨t, rfl, -⟩ := hsib.eq_leaf
    refine ⟨_, _, mergeSiblings_leaf _ _ _ l t, by simp, ?_, .inl rfl⟩
    simpa [getNodeSize] using hfit
  | succ h =>
    obtain ⟨r₁, cs₁, ts₁, rfl⟩ := hc.eq_inner
    obtain ⟨r₂, cs₂, ts₂, rfl⟩ := hsib.eq_inner
    simp only [values_inner] at hne hnesib hs ⊢
    -- the sibling began where the node ended: its offsets move back by the size of the node
    have hstart := getBpNodeOffset_runningTotals s (show i < s.length by omega)
    have hnext := List.getD_runningTotals s (show 0 < i + 1 by omega) hi1
    rw [Nat.add_sub_cancel] at hnext
    have hsucc := List.sum_take_succ s i (by omega)
    have hadj : ((getBpNodeOffset s.runningTotals i : Nat) : Int) - ((s.runningTotals.getD i 0 : Nat) : Int) =
        -((sizes cs₁).sum : Int) := by
      rw [hstart, hnext, hsucc, hs, sum_sizes]
      push_cast
      ring
    have hmove := move_append_runningTotals (sizes cs₁) (sizes cs₂) cs₁ cs₂ (by simp [sizes])
      (by simpa [sizes] using hc.children.1.ne_nil) (by simpa [sizes] using hsib.children.1.ne_nil)
      (by rw [sum_sizes]; exact List.length_pos_iff.mpr hne) hadj
    refine ⟨_, _, ?_, ?_, hc.merge hsib hne hnesib (by simpa [getNodeSize] using hfit),
      .inr ⟨rfl, _, _, _, rfl, ?_⟩⟩
    · rw [mergeSiblings_inner, hc.ensureOffsets_eq, hsib.ensureOffsets_eq, hmove, sizes_append]
    · simp
    · have h₁ := List.length_pos_iff.mpr hc.children.1.ne_nil
      have h₂ := List.length_pos_iff.mpr hsib.children.1.ne_nil
      simp only [List.length_append]
      omega


/-! ## The end of `bptree_erase` in an inner node -/

section EraseTail

variable (M : Nat) (o : List Nat) (cs : List (BPlusTreeNode α)) (ts i size : Nat)
  (cache : LeafCache α)

/-- The only child was emptied: it stays, and the node answers `0`. -/
lemma bptreeEraseTail_only (h0 : size = 0) (hk : cs.length = 1) :
    bptreeEraseTail M o cs ts i size cache =
      .ok (inner (.general (adjust o i (-1))) cs (ts - 1), 0, cache) := by
  simp only [bptreeEraseTail, if_pos h0, if_pos hk]

/-- An emptied child of a node of two children or more is destroyed. -/
lemma bptreeEraseTail_destroy (h0 : size = 0) (hk : cs.length ≠ 1) :
    bptreeEraseTail M o cs ts i size cache =
      .ok (inner (.general (eraseAndDestroyBpNode (adjust o i (-1)) cs i).1)
        (eraseAndDestroyBpNode (adjust o i (-1)) cs i).2 (ts - 1), cs.length - 1, cache) := by
  simp only [bptreeEraseTail, if_pos h0, if_neg hk]

/-- A child that keeps enough entries, or is the last one, stays. -/
lemma bptreeEraseTail_kept (h0 : size ≠ 0) (hsmall : ¬(size < M / 2 ∧ i < cs.length - 1)) :
    bptreeEraseTail M o cs ts i size cache =
      .ok (inner (.general (adjust o i (-1))) cs (ts - 1), cs.length, cache) := by
  simp only [bptreeEraseTail, if_neg h0, if_neg hsmall]

/-- A small child whose next sibling has too many entries to merge with stays. -/
lemma bptreeEraseTail_unmerged (h0 : size ≠ 0) (hsmall : size < M / 2 ∧ i < cs.length - 1)
    (hi1 : i + 1 < cs.length) (hbig : ¬cs[i + 1].getNodeSize + size < M * 3 / 4) :
    bptreeEraseTail M o cs ts i size cache =
      .ok (inner (.general (adjust o i (-1))) cs (ts - 1), cs.length, cache) := by
  simp only [bptreeEraseTail, if_neg h0, if_pos hsmall,
    List.getElem?_eq_getElem (show i < cs.length by omega), List.getElem?_eq_getElem hi1,
    if_neg hbig]

/-- A small child merged with its next sibling: the sibling goes. -/
lemma bptreeEraseTail_merge (h0 : size ≠ 0) (hsmall : size < M / 2 ∧ i < cs.length - 1)
    (hi1 : i + 1 < cs.length) (hfit : cs[i + 1].getNodeSize + size < M * 3 / 4)
    {merged : BPlusTreeNode α} {o' : List Nat} {cache' : LeafCache α}
    (hmerge : mergeSiblings (adjust o i (-1)) i cs[i] cs[i + 1] cache = .ok (merged, o', cache')) :
    bptreeEraseTail M o cs ts i size cache =
      .ok (inner (.general (eraseAndDestroyBpNode o' (cs.set i merged) (i + 1)).1)
        (eraseAndDestroyBpNode o' (cs.set i merged) (i + 1)).2 (ts - 1), cs.length - 1, cache') := by
  simp only [bptreeEraseTail, if_neg h0, if_pos hsmall,
    List.getElem?_eq_getElem (show i < cs.length by omega), List.getElem?_eq_getElem hi1,
    if_pos hfit, hmerge, except_ok_bind]

end EraseTail

/-! ## The parent of a child that lost a value -/

section Parent

variable {cs : List (BPlusTreeNode α)} {ts i : Nat} {r : BptreeRouting} {c' : BPlusTreeNode α}

/-- What a parent answers after child `i` answered `X`, its values after the erase: the node
holds the values of the other children around `X`, in the shape at height `h + 1`. -/
structure Shrunk (M h : Nat) (cs : List (BPlusTreeNode α)) (i : Nat) (X : List α)
    (node : BPlusTreeNode α) : Prop where
  values_eq : node.values =
    ((cs.take i).map values).flatten ++ X ++ ((cs.drop (i + 1)).map values).flatten
  wf : WF M (h + 1) node

/-- Children that all have values, at least one, hold values. -/
lemma flatten_values_ne_nil (hne : cs ≠ []) (hall : ∀ x ∈ cs, x.values ≠ []) :
    (cs.map values).flatten ≠ [] := by
  intro hnil
  obtain ⟨x, hx⟩ := List.exists_mem_of_ne_nil cs hne
  exact hall x hx (List.flatten_eq_nil_iff.mp hnil _ (List.mem_map_of_mem hx))

/-- A node whose children all have values answers its number of children. -/
lemma length_eq_size_of_values_ne_nil (r : BptreeRouting) (ts : Nat) (hne : cs ≠ [])
    (hall : ∀ x ∈ cs, x.values ≠ []) :
    cs.length = if (inner r cs ts).values = [] then 0 else (inner r cs ts).getNodeSize := by
  rw [if_neg (by rw [values_inner]; exact flatten_values_ne_nil hne hall)]
  rfl

/-- The offsets after the erase in child `i`: the running totals from it on move back by one. -/
lemma adjust_runningTotals_erase (hi : i < cs.length)
    (hlen : c'.values.length + 1 = cs[i].values.length) :
    adjust (sizes cs).runningTotals i (-1) = (sizes (cs.set i c')).runningTotals := by
  have hi' : i < (sizes cs).length := by simpa using hi
  have hget := getElem_sizes hi hi'
  have hpos : 0 < (sizes cs)[i] := by omega
  rw [adjust_neg_one, sizes_set, show c'.values.length = (sizes cs)[i] - 1 by omega,
    List.runningTotals_set_sub_one _ hi' hpos]

/-- Child `i` set and its next sibling erased. -/
lemma set_eraseIdx_succ (hi1 : i + 1 < cs.length) (x : BPlusTreeNode α) :
    (cs.set i x).eraseIdx (i + 1) = cs.take i ++ x :: cs.drop (i + 2) := by
  rw [List.eraseIdx_eq_take_drop_succ, List.take_succ_eq_append_getElem (by simp; omega),
    List.take_set_of_le le_rfl, List.getElem_set_self, List.drop_set_of_lt (by omega)]
  simp

/-- Child `i`, after the erase, kept: it has values, or it is the only child. -/
lemma shrunk_kept (hw : WF M (h + 1) (inner r cs ts)) (hi : i < cs.length) (hc' : WF M h c')
    (hlen : c'.values.length + 1 = cs[i].values.length) (hne : c'.values ≠ [] ∨ cs.length = 1) :
    Shrunk M h cs i c'.values
      (inner (.general (sizes (cs.set i c')).runningTotals) (cs.set i c') (ts - 1)) := by
  obtain ⟨hch, hcs⟩ := hw.children
  have hsum := sum_sizes_set hi c'
  refine ⟨by rw [values_inner, flatten_values_set hi], ⟨⟨by simpa using hch.ne_nil,
    by simpa using hch.length_le, ?_, fun x hx hx0 => ?_⟩, fun x hx => ?_, rfl⟩⟩
  · rw [hch.treeSize_eq]
    omega
  · rcases hne with hne | hk
    · exact absurd hx0 (hch.values_ne_nil_of_mem_set hi hne x hx)
    · simpa using hk
  · rcases List.mem_or_eq_of_mem_set hx with hx | rfl
    · exact hcs x hx
    · exact hc'

/-- An emptied child `i` of a node of two children or more destroyed. -/
lemma shrunk_destroyed (hw : WF M (h + 1) (inner r cs ts)) (hi : i < cs.length)
    (h2 : 1 < cs.length) (h1 : cs[i].values.length = 1) :
    Shrunk M h cs i []
      (inner (.general (sizes (cs.eraseIdx i)).runningTotals) (cs.eraseIdx i) (ts - 1)) := by
  obtain ⟨hch, hcs⟩ := hw.children
  have hall := hch.values_ne_nil h2
  have hlen : (cs.eraseIdx i).length = cs.length - 1 := List.length_eraseIdx_of_lt hi
  have hvals : ((cs.eraseIdx i).map values).flatten =
      ((cs.take i).map values).flatten ++ ((cs.drop (i + 1)).map values).flatten := by
    simp [List.eraseIdx_eq_take_drop_succ]
  have hV := flatten_values_eq_around hi
  refine ⟨by rw [values_inner, hvals, List.append_nil], ⟨⟨?_, ?_, ?_,
    fun x hx hx0 => (hall x (List.mem_of_mem_eraseIdx hx) hx0).elim⟩,
    fun x hx => hcs x (List.mem_of_mem_eraseIdx hx), rfl⟩⟩
  · rw [← List.length_pos_iff, hlen]
    omega
  · have := hch.length_le
    omega
  · rw [hch.treeSize_eq, sum_sizes, sum_sizes, hvals, hV]
    simp only [List.length_append, h1]
    omega

/-- Child `i`, with values after the erase, merged with its next sibling into `merged`. -/
lemma shrunk_merged (hw : WF M (h + 1) (inner r cs ts)) (hi1 : i + 1 < cs.length)
    (hlen : c'.values.length + 1 = cs[i].values.length) (hne : c'.values ≠ [])
    {merged : BPlusTreeNode α} (hm : WF M h merged)
    (hmv : merged.values = c'.values ++ cs[i + 1].values) :
    Shrunk M h cs i c'.values
      (inner (.general (sizes ((cs.set i merged).eraseIdx (i + 1))).runningTotals)
        ((cs.set i merged).eraseIdx (i + 1)) (ts - 1)) := by
  obtain ⟨hch, hcs⟩ := hw.children
  have hall := hch.values_ne_nil (by omega)
  have hB : ((cs.drop (i + 1)).map values).flatten =
      cs[i + 1].values ++ ((cs.drop (i + 2)).map values).flatten := by
    conv_lhs => rw [List.drop_eq_getElem_cons hi1]
    simp only [List.map_cons, List.flatten_cons]
  have hvals : (((cs.set i merged).eraseIdx (i + 1)).map values).flatten =
      ((cs.take i).map values).flatten ++ c'.values ++ ((cs.drop (i + 1)).map values).flatten := by
    rw [set_eraseIdx_succ hi1, hB]
    simp [hmv]
  have hV := flatten_values_eq_around (show i < cs.length by omega)
  have hlen' : ((cs.set i merged).eraseIdx (i + 1)).length = cs.length - 1 := by
    rw [set_eraseIdx_succ hi1]
    simp
    omega
  -- the children are those of the node but the two, and the merged one
  have hmem : ∀ x ∈ (cs.set i merged).eraseIdx (i + 1), x = merged ∨ x ∈ cs := by
    intro x hx
    rw [set_eraseIdx_succ hi1] at hx
    simp only [List.mem_append, List.mem_cons] at hx
    rcases hx with hx | rfl | hx
    · exact .inr (List.mem_of_mem_take hx)
    · exact .inl rfl
    · exact .inr (List.mem_of_mem_drop hx)
  refine ⟨by rw [values_inner, hvals], ⟨⟨?_, ?_, ?_, fun x hx hx0 => ?_⟩, fun x hx => ?_, rfl⟩⟩
  · rw [← List.length_pos_iff, hlen']
    omega
  · have := hch.length_le
    omega
  · rw [hch.treeSize_eq, sum_sizes, sum_sizes, hvals, hV]
    simp only [List.length_append]
    omega
  · rcases hmem x hx with rfl | hx
    · exact absurd hx0 (by rw [hmv]; simpa using fun h' => absurd h' hne)
    · exact (hall x hx hx0).elim
  · rcases hmem x hx with rfl | hx
    · exact hm
    · exact hcs x hx

/-- The spec of `bptree_erase` in an inner node, from its reassembly after the erase at `m` in
child `i`. -/
lemma eraseSpec_of_shrunk {node : BPlusTreeNode α} {m size₀ size offset : Nat}
    {cache : LeafCache α} (hr : Shrunk M h cs i c'.values node) (hi : i < cs.length)
    (hc : Erased M h cs[i] m c' size₀) (hm : m < cs[i].values.length)
    (hsize : size = if node.values = [] then 0 else node.getNodeSize)
    (hfits : cache.Fits c'.values (((sizes cs).take i).sum + offset))
    (hb : size = 0 → cache.bounds = none)
    (hcol : 1 < cs.length → size = 1 → CollapseOK node cache) :
    EraseSpec M (h + 1) (inner r cs ts) (((sizes cs).take i).sum + m) offset
      (.ok (node, size, cache)) := by
  refine ⟨node, size, cache, rfl, ⟨?_, hr.wf, hsize⟩, ?_, hb, fun r' cs' ts' heq => ?_⟩
  · rw [hr.values_eq, hc.values_eq, values_inner, flatten_values_eq_around hi,
      ← length_flatten_take_values, List.eraseIdx_append_middle _ _ _ hm]
  · rw [hr.values_eq]
    apply Fits.lift
    rwa [length_flatten_take_values, Nat.add_comm]
  · obtain ⟨-, rfl, -⟩ := inner.inj heq
    exact hcol

/-- The spec of the node kept after the erase in child `i`, which still has values. -/
lemma eraseSpec_kept (hw : WF M (h + 1) (inner r cs ts)) (hi : i < cs.length) {m size₀ offset : Nat}
    {cache : LeafCache α} (hc : Erased M h cs[i] m c' size₀) (hm : m < cs[i].values.length)
    (hne : c'.values ≠ []) (hfits : cache.Fits c'.values (((sizes cs).take i).sum + offset)) :
    EraseSpec M (h + 1) (inner r cs ts) (((sizes cs).take i).sum + m) offset
      (.ok (inner (.general (sizes (cs.set i c')).runningTotals) (cs.set i c') (ts - 1),
        cs.length, cache)) := by
  have hk := List.length_pos_iff.mpr hw.children.1.ne_nil
  have hall := hw.children.1.values_ne_nil_of_mem_set hi hne
  refine eraseSpec_of_shrunk (shrunk_kept hw hi hc.wf (hc.length_add_one hm) (.inl hne)) hi hc hm
    ?_ hfits (fun h0 => by omega) (fun h2 h1 => by omega)
  rw [show cs.length = (cs.set i c').length by simp]
  exact length_eq_size_of_values_ne_nil _ _ (by simpa using hw.children.1.ne_nil) hall

/-- The spec of the node after child `i`, with values after the erase, was merged with its next
sibling into `merged`. -/
lemma eraseSpec_merged (hw : WF M (h + 1) (inner r cs ts)) (hi1 : i + 1 < cs.length)
    {m size₀ offset : Nat} (hc : Erased M h cs[i] m c' size₀) (hm : m < cs[i].values.length)
    (hne : c'.values ≠ []) {merged : BPlusTreeNode α} (hmw : WF M h merged)
    (hmv : merged.values = c'.values ++ cs[i + 1].values) {cache cache' : LeafCache α}
    (hfits : cache.Fits c'.values (((sizes cs).take i).sum + offset))
    (hcache : cache'.bounds = none ∨
      cache' = cache ∧ ∃ r₁ ds ts₁, merged = inner r₁ ds ts₁ ∧ 1 < ds.length) :
    EraseSpec M (h + 1) (inner r cs ts) (((sizes cs).take i).sum + m) offset
      (.ok (inner (.general (sizes ((cs.set i merged).eraseIdx (i + 1))).runningTotals)
        ((cs.set i merged).eraseIdx (i + 1)) (ts - 1), cs.length - 1, cache')) := by
  have hi : i < cs.length := by omega
  have hr := shrunk_merged hw hi1 (hc.length_add_one hm) hne hmw hmv
  have hall := hw.children.1.values_ne_nil (show 1 < cs.length by omega)
  have hlen : ((cs.set i merged).eraseIdx (i + 1)).length = cs.length - 1 := by
    rw [List.length_eraseIdx_of_lt (by simp; omega), List.length_set]
  have hmerged : merged.values ≠ [] := by simp [hmv, hne]
  refine eraseSpec_of_shrunk hr hi hc hm ?_ ?_ (fun h0 => by omega) fun h2 h1 => ?_
  · rw [← hlen]
    refine length_eq_size_of_values_ne_nil _ _ (by rw [← List.length_pos_iff, hlen]; omega) ?_
    intro x hx
    rw [set_eraseIdx_succ hi1] at hx
    simp only [List.mem_append, List.mem_cons] at hx
    rcases hx with hx | rfl | hx
    · exact hall x (List.mem_of_mem_take hx)
    · exact hmerged
    · exact hall x (List.mem_of_mem_drop hx)
  · rcases hcache with hnone | ⟨rfl, -⟩
    · exact fits_of_bounds_eq_none hnone
    · exact hfits
  · -- two children merged into one: the node has the merged node alone
    have hone : (cs.set i merged).eraseIdx (i + 1) = [merged] := by
      rw [set_eraseIdx_succ hi1, show i = 0 by omega, List.drop_eq_nil_of_le (by omega)]
      rfl
    rw [hone]
    rcases hcache with hnone | ⟨-, r₁, ds, ts₁, rfl, hds⟩
    · exact .inl hnone
    · exact .inr ⟨_, _, _, rfl, r₁, ds, ts₁, rfl, hds⟩

end Parent

/-! ## The erase -/

section Erase

variable {cs : List (BPlusTreeNode α)} {ts i : Nat} {r : BptreeRouting} {c' : BPlusTreeNode α}

/-- The destroy case of the end of `bptree_erase`: a child emptied among two or more is removed
with its offset, and the node keeps its shape. -/
lemma eraseSpec_tail_destroyed (hw : WF M (h + 1) (inner r cs ts)) (hi : i < cs.length)
    {m size offset : Nat} {cache : LeafCache α} (hc : Erased M h cs[i] m c' size)
    (hm : m < cs[i].values.length) (hfits : cache.Fits c'.values (((sizes cs).take i).sum + offset))
    (hb : size = 0 → cache.bounds = none) (h0 : size = 0) (h2 : 1 < cs.length) :
    EraseSpec M (h + 1) (inner r cs ts) (((sizes cs).take i).sum + m) offset
      (bptreeEraseTail M (sizes cs).runningTotals (cs.set i c') ts i size cache) := by
  have hlen := hc.length_add_one hm
  have hk : (cs.set i c').length = cs.length := List.length_set ..
  have hc0 : c'.values = [] := hc.size_eq_zero_iff.mp h0
  have hsi : i < (sizes (cs.set i c')).length := by simpa using hi
  have hs0 : (sizes (cs.set i c'))[i] = 0 := by
    rw [getElem_sizes (by simpa using hi) hsi, List.getElem_set_self, hc0, List.length_nil]
  have herase : (cs.set i c').eraseIdx i = cs.eraseIdx i := by
    rw [List.eraseIdx_eq_take_drop_succ, List.eraseIdx_eq_take_drop_succ,
      List.take_set_of_le le_rfl, List.drop_set_of_lt (by omega)]
  rw [bptreeEraseTail_destroy M _ _ ts i size cache h0 (by omega), adjust_runningTotals_erase hi hlen,
    eraseAndDestroyBpNode_runningTotals hsi hs0 (by simpa using h2), ← sizes_eraseIdx, herase, hk]
  -- the children left are all nonempty, so their count is the node's new size
  have hall := hw.children.1.values_ne_nil h2
  have hlen' : (cs.eraseIdx i).length = cs.length - 1 := List.length_eraseIdx_of_lt hi
  have h1 : cs[i].values.length = 1 := by rw [← hlen, hc0, List.length_nil]
  refine eraseSpec_of_shrunk (by rw [hc0]; exact shrunk_destroyed hw hi h2 h1) hi hc hm
    ?_ hfits (fun h1 => by omega) (fun _ _ => .inl (hb h0))
  rw [← hlen']
  exact length_eq_size_of_values_ne_nil _ _ (by rw [← List.length_pos_iff, hlen']; omega)
    fun x hx => hall x (List.mem_of_mem_eraseIdx hx)

/-- The merge case of the end of `bptree_erase`: a small nonempty child merged with its next
sibling leaves a node in the shape with the value erased. -/
lemma eraseSpec_tail_merged (hw : WF M (h + 1) (inner r cs ts)) (hi : i < cs.length)
    {m size offset : Nat} {cache : LeafCache α} (hc : Erased M h cs[i] m c' size)
    (hm : m < cs[i].values.length) (hfits : cache.Fits c'.values (((sizes cs).take i).sum + offset))
    (h0 : ¬size = 0) (hsmall : size < M / 2 ∧ i < (cs.set i c').length - 1)
    (hi1' : i + 1 < (cs.set i c').length)
    (hfit : (cs.set i c')[i + 1].getNodeSize + size < M * 3 / 4) :
    EraseSpec M (h + 1) (inner r cs ts) (((sizes cs).take i).sum + m) offset
      (bptreeEraseTail M (sizes cs).runningTotals (cs.set i c') ts i size cache) := by
  obtain ⟨hch, hcs⟩ := hw.children
  have hne : c'.values ≠ [] := fun h' => h0 (hc.size_eq_zero_iff.mpr h')
  -- the size the erase answers is the child's node size, which the merge bound is about
  have hsz : size = c'.getNodeSize := by rw [hc.size_eq, if_neg hne]
  have hk : (cs.set i c').length = cs.length := List.length_set ..
  have hi1 : i + 1 < cs.length := by omega
  have hsib : (cs.set i c')[i + 1] = cs[i + 1] := List.getElem_set_ne (by omega) ..
  have hsnext : cs[i + 1].values ≠ [] := hch.values_ne_nil (by omega) _ (List.getElem_mem hi1)
  have hsi1 : i + 1 < (sizes (cs.set i c')).length := by simpa using hi1'
  have hs_i : (sizes (cs.set i c'))[i] = c'.values.length := by
    rw [getElem_sizes (by simpa using hi) (by simpa using hi), List.getElem_set_self]
  have hs_i1 : (sizes (cs.set i c'))[i + 1] = cs[i + 1].values.length := by
    rw [getElem_sizes hi1' hsi1, hsib]
  obtain ⟨merged, cache', hmerge, hmv, hmw, hcache⟩ :=
    mergeSiblings_spec hsi1 hc.wf (hcs _ (List.getElem_mem hi1)) hs_i hne hsnext
      (by rw [hsib] at hfit; omega) cache
  have hoff := adjust_runningTotals_erase hi (hc.length_add_one hm)
  rw [bptreeEraseTail_merge M _ _ ts i size cache h0 hsmall hi1' hfit
      (by rw [hoff, List.getElem_set_self, hsib]; exact hmerge),
    eraseAndDestroyBpNode_merge hsi1, List.set_set, hs_i, hs_i1,
    show c'.values.length + cs[i + 1].values.length = merged.values.length by
      rw [hmv, List.length_append], hk]
  rw [show ((sizes (cs.set i c')).set i merged.values.length).eraseIdx (i + 1) =
      sizes ((cs.set i merged).eraseIdx (i + 1)) by
    rw [sizes_eraseIdx, sizes_set, sizes_set, List.set_set]]
  exact eraseSpec_merged hw hi1 hc hm hne hmw hmv hfits hcache

/-- The end of `bptree_erase` in an inner node in the shape, after the erase at `m` in child `i`:
the four outcomes (the only child emptied, an emptied child destroyed, a small child merged with
its next sibling, the child kept) each give a node in the shape with the value erased. -/
theorem bptreeEraseTail_spec (hw : WF M (h + 1) (inner r cs ts)) (hi : i < cs.length)
    {m size offset : Nat} {cache : LeafCache α} (hc : Erased M h cs[i] m c' size)
    (hm : m < cs[i].values.length) (hfits : cache.Fits c'.values (((sizes cs).take i).sum + offset))
    (hb : size = 0 → cache.bounds = none) :
    EraseSpec M (h + 1) (inner r cs ts) (((sizes cs).take i).sum + m) offset
      (bptreeEraseTail M (sizes cs).runningTotals (cs.set i c') ts i size cache) := by
  have hlen := hc.length_add_one hm
  have hoff := adjust_runningTotals_erase hi hlen
  have hk : (cs.set i c').length = cs.length := List.length_set ..
  by_cases h0 : size = 0
  · by_cases hk1 : cs.length = 1
    · -- the only child was emptied: it stays, and the node answers `0`
      have hc0 : c'.values = [] := hc.size_eq_zero_iff.mp h0
      rw [bptreeEraseTail_only M _ _ ts i size cache h0 (by rw [hk, hk1]), hoff]
      refine eraseSpec_of_shrunk (shrunk_kept hw hi hc.wf hlen (.inr hk1)) hi hc hm ?_ hfits
        (fun _ => hb h0) (fun h2 => by omega)
      obtain ⟨x, rfl⟩ := List.length_eq_one_iff.mp hk1
      obtain rfl : i = 0 := by simp at hi; omega
      simp [hc0]
    · exact eraseSpec_tail_destroyed hw hi hc hm hfits hb h0 (by omega)
  · have hne : c'.values ≠ [] := fun h' => h0 (hc.size_eq_zero_iff.mpr h')
    by_cases hsmall : size < M / 2 ∧ i < (cs.set i c').length - 1
    · have hi1' : i + 1 < (cs.set i c').length := by omega
      by_cases hfit : (cs.set i c')[i + 1].getNodeSize + size < M * 3 / 4
      · exact eraseSpec_tail_merged hw hi hc hm hfits h0 hsmall hi1' hfit
      · -- the sibling is too large to merge with
        rw [bptreeEraseTail_unmerged M _ _ ts i size cache h0 hsmall hi1' hfit, hoff, hk]
        exact eraseSpec_kept hw hi hc hm hne hfits
    · rw [bptreeEraseTail_kept M _ _ ts i size cache h0 hsmall, hoff, hk]
      exact eraseSpec_kept hw hi hc hm hne hfits

/-- `bptree_erase` at a position of an inner node in the shape, from the spec of the erase in its
children. -/
theorem bptreeErase_inner_spec (hw : WF M (h + 1) (inner r cs ts))
    (ih : ∀ c : BPlusTreeNode α, WF M h c → ∀ n, n < c.values.length → ∀ offset
      (cache : LeafCache α), EraseSpec M h c n offset (eraseChild M [c] 0 n offset cache))
    {n : Nat} (hn : n < (sizes cs).sum) (offset : Nat) (cache : LeafCache α) :
    EraseSpec M (h + 1) (inner r cs ts) n offset (bptreeErase M (inner r cs ts) n offset cache) := by
  obtain ⟨hch, hcs⟩ := hw.children
  simp only [bptreeErase, hw.ensureOffsets_eq]
  obtain ⟨hi, hoff, hle, hlt⟩ := upperBound_runningTotals cs hch.ne_nil n
  set i := upperBound (sizes cs).runningTotals n
  set start := ((sizes cs).take i).sum with hstart
  -- the child that holds `n`, and `n` within it
  have hni : n - start < cs[i].values.length := by
    have hi' : i < (sizes cs).length := by simpa using hi
    have hlt' := List.lt_sum_take_succ hi' (fun h' => hlt (by simpa using h')) hn
    rw [List.sum_take_succ _ _ hi', getElem_sizes hi hi'] at hlt'
    omega
  obtain ⟨c', size, cache', hres, hc, hfits, hb, -⟩ :=
    ih cs[i] (hcs _ (List.getElem_mem hi)) (n - start) hni (start + offset) cache
  have hspec := bptreeEraseTail_spec hw hi hc hni hfits hb
  rw [Nat.add_sub_cancel' hle] at hspec
  rw [if_pos hi, hoff, eraseChild_eq M cs i hi, hres, except_ok_bind]
  exact hspec

/-- `bptree_erase` at a position of a node in the shape that is a child: the node holds the values
without the one at the position, in the shape at its height; it answers `0` exactly when it was
emptied, which invalidated the cache, and its number of entries otherwise; the cache fits it. -/
theorem eraseChild_spec :
    ∀ (h : Nat) (c : BPlusTreeNode α), WF M h c → ∀ (n : Nat), n < c.values.length →
      ∀ (offset : Nat) (cache : LeafCache α), EraseSpec M h c n offset (eraseChild M [c] 0 n offset cache) := by
  intro h
  -- induction on the height: an inner node erases in one of its children
  induction h with
  | zero =>
    intro c hw n hn offset cache
    obtain ⟨l, rfl, hl⟩ := hw.eq_leaf
    exact eraseChild_leaf_spec hl hn offset cache
  | succ h ih =>
    intro c hw n hn offset cache
    obtain ⟨r, cs, ts, rfl⟩ := hw.eq_inner
    rw [eraseChild_inner]
    exact bptreeErase_inner_spec hw ih (by rwa [sum_sizes, ← values_inner r cs ts]) offset cache

/-- The last value of a node of two leaves erased: the emptied leaf is destroyed, and the node
answers one child. -/
theorem eraseChild_spec_two_leaves :
    WF 4 1 (inner (.general [2]) [leaf [5, 6], leaf [7]] 3 : BPlusTreeNode Nat) ∧
      2 < (inner (.general [2]) [leaf [5, 6], leaf [7]] 3 : BPlusTreeNode Nat).values.length ∧
      EraseSpec 4 1 (inner (.general [2]) [leaf [5, 6], leaf [7]] 3) 2 0
        (eraseChild 4 [inner (.general [2]) [leaf [5, 6], leaf [7]] 3] 0 2 0 ⟨none, []⟩) :=
  have hw : WF 4 1 (inner (.general [2]) [leaf [5, 6], leaf [7]] 3 : BPlusTreeNode Nat) :=
    ⟨⟨by simp, by simp, by simp [sizes], by simp⟩, by simp, by simp [sizes, List.runningTotals]⟩
  have hn : 2 < (inner (.general [2]) [leaf [5, 6], leaf [7]] 3 : BPlusTreeNode Nat).values.length := by
    simp
  ⟨hw, hn, eraseChild_spec 1 _ hw 2 hn 0 _⟩

end Erase

end BPlusTreeNode

end Realm
