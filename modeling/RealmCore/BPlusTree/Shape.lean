import Mathlib
import RealmCore.BPlusTree.Tree
import RealmCore.Lib.RunningTotals

/-!
# The shape of a B+tree, and the list it holds

A node of a `BPlusTree<T>` holds the values of its leaves, one leaf after the other
(`BPlusTreeNode.values`).  What the functions of src/realm/bplustree.cpp rely on is the shape
that `BPlusTreeInner::verify` checks, here `BPlusTreeNode.WF maxSize h`: every leaf at depth
`h`; at most `maxSize` values in a leaf and at most `maxSize` children in an inner node; the
`tree_size` of an inner node the number of values beneath it; and slot 0 right for the
children, in the general form the running totals of their sizes, in the compact form
`elems_per_child` the capacity `maxSize ^ h` of a compact child, with every child but the last
full.  A child without values is the only child of its parent, as the erase of the last value
of a child destroys it unless it is the only one.  The leaf cache is right when it is a run of
the values at its bounds (`LeafCache.Fits`).

Over this shape the routing of an inner node finds the child that holds a position
(`accessRoute_spec`, `insertRoute_some`, `insertRoute_none`), the walk down a list of children
reaches the child the routing chose (`accessChild_eq`, `insertChild_eq`, `eraseChild_eq`), and
the offsets that `move` and `erase_and_destroy_bp_node` leave are running totals again.
-/

namespace Realm

/-- A step that succeeds passes its value on to the rest of the computation. -/
@[simp] lemma except_ok_bind {ε α β : Type} (a : α) (f : α → Except ε β) :
    (Except.ok a >>= f) = f a := rfl

namespace BPlusTreeNode

variable {α : Type}

mutual

/-- The values beneath a node, leaf after leaf. -/
def values : BPlusTreeNode α → List α
  | leaf l => l
  | inner _ children _ => valuesOf children

/-- The values beneath a list of children, child after child. -/
def valuesOf : List (BPlusTreeNode α) → List α
  | [] => []
  | c :: cs => c.values ++ valuesOf cs

end

lemma valuesOf_eq (cs : List (BPlusTreeNode α)) : valuesOf cs = (cs.map values).flatten := by
  induction cs with
  | nil => rfl
  | cons c cs ih =>
    change c.values ++ valuesOf cs = _
    rw [ih, List.map_cons, List.flatten_cons]

@[simp] lemma values_leaf (l : List α) : (leaf l).values = l := rfl

@[simp] lemma values_inner (r : BptreeRouting) (cs : List (BPlusTreeNode α)) (ts : Nat) :
    (inner r cs ts).values = (cs.map values).flatten :=
  valuesOf_eq cs

/-- The number of values beneath each of a list of children. -/
def sizes (cs : List (BPlusTreeNode α)) : List Nat := cs.map fun c => c.values.length

section Sizes

variable {cs : List (BPlusTreeNode α)} {i : Nat}

/-- The lemmas below rewrite with this rather than unfold `sizes`. -/
lemma sizes_eq_map : sizes cs = cs.map fun c => c.values.length := rfl

@[simp] lemma length_sizes : (sizes cs).length = cs.length := by simp [sizes_eq_map]

@[simp] lemma sizes_nil : sizes ([] : List (BPlusTreeNode α)) = [] := rfl

@[simp] lemma sizes_cons (c : BPlusTreeNode α) (cs : List (BPlusTreeNode α)) :
    sizes (c :: cs) = c.values.length :: sizes cs := rfl

@[simp] lemma sizes_append (cs cs' : List (BPlusTreeNode α)) :
    sizes (cs ++ cs') = sizes cs ++ sizes cs' := by simp [sizes_eq_map]

lemma getElem?_sizes : (sizes cs)[i]? = cs[i]?.map fun c => c.values.length := by
  simp [sizes_eq_map]

lemma getElem_sizes (hi : i < cs.length) (hi' : i < (sizes cs).length) :
    (sizes cs)[i] = cs[i].values.length := by
  simp [sizes_eq_map]

lemma sizes_set (c : BPlusTreeNode α) : sizes (cs.set i c) = (sizes cs).set i c.values.length := by
  simp [sizes_eq_map, List.map_set]

lemma sizes_insertIdx (c : BPlusTreeNode α) :
    sizes (cs.insertIdx i c) = (sizes cs).insertIdx i c.values.length := by
  simp [sizes_eq_map, List.map_insertIdx]

lemma sizes_eraseIdx : sizes (cs.eraseIdx i) = (sizes cs).eraseIdx i := by
  simp [sizes_eq_map, List.eraseIdx_map]

lemma sizes_take : sizes (cs.take i) = (sizes cs).take i := by simp [sizes_eq_map]

lemma sizes_drop : sizes (cs.drop i) = (sizes cs).drop i := by simp [sizes_eq_map]

/-- The sizes add up to the number of values beneath the children. -/
lemma sum_sizes (cs : List (BPlusTreeNode α)) : (sizes cs).sum = (cs.map values).flatten.length := by
  simp [sizes_eq_map, List.length_flatten, Function.comp_def]


/-- The values of the children around child `i`. -/
lemma flatten_values_eq_around (hi : i < cs.length) :
    (cs.map values).flatten =
      ((cs.take i).map values).flatten ++ cs[i].values ++ ((cs.drop (i + 1)).map values).flatten := by
  rw [List.flatten_eq_around (cs.map values) (i := i) (by simpa using hi), List.getElem_map,
    List.map_take, List.map_drop]

/-- Child `i` replaced. -/
lemma flatten_values_set (hi : i < cs.length) (c : BPlusTreeNode α) :
    ((cs.set i c).map values).flatten =
      ((cs.take i).map values).flatten ++ c.values ++ ((cs.drop (i + 1)).map values).flatten := by
  rw [List.map_set, List.flatten_set_around (cs.map values) (i := i) (by simpa using hi),
    List.map_take, List.map_drop]

/-- The children before child `i` hold as many values as their sizes add up to. -/
lemma length_flatten_take_values (cs : List (BPlusTreeNode α)) (i : Nat) :
    ((cs.take i).map values).flatten.length = ((sizes cs).take i).sum := by
  rw [List.map_take, List.length_flatten_take, List.map_map]
  rfl

/-- Sizes do not change when a child is replaced by one of its own size. -/
lemma sizes_set_of_length_eq (hi : i < cs.length) {c : BPlusTreeNode α}
    (hlen : c.values.length = cs[i].values.length) : sizes (cs.set i c) = sizes cs := by
  rw [sizes_set, hlen, ← getElem_sizes hi (by simpa using hi), List.set_getElem_self]

end Sizes

/-! ## The shape -/

/-- The children of an inner node as `BPlusTreeInner::verify` checks them: at least one and at
most `maxSize`, `treeSize` values beneath them, and a child without values only as the only
child. -/
structure ChildrenOK (maxSize : Nat) (cs : List (BPlusTreeNode α)) (treeSize : Nat) : Prop where
  ne_nil : cs ≠ []
  length_le : cs.length ≤ maxSize
  treeSize_eq : treeSize = (sizes cs).sum
  single_of_empty : ∀ c ∈ cs, c.values = [] → cs.length = 1

/-- A node of height `h` in the shape the B+tree keeps: leaves at depth `h`, and slot 0 of
every inner node right for its children.  A compact node has compact children, each full but
the last. -/
def WF (maxSize : Nat) : Nat → BPlusTreeNode α → Prop
  | 0, leaf l => l.length ≤ maxSize
  | h + 1, inner (.general offsets) cs treeSize =>
    ChildrenOK maxSize cs treeSize ∧ (∀ c ∈ cs, WF maxSize h c) ∧
      offsets = (sizes cs).runningTotals
  | h + 1, inner (.compact elemsPerChild) cs treeSize =>
    ChildrenOK maxSize cs treeSize ∧ (∀ c ∈ cs, WF maxSize h c ∧ c.isCompact) ∧
      elemsPerChild = maxSize ^ (h + 1) ∧
      ∀ j, j + 1 < cs.length → (sizes cs)[j]? = some elemsPerChild
  | _, _ => False

section WF

variable {M h : Nat}

@[simp] lemma wf_zero_leaf (l : List α) : WF M 0 (leaf l) ↔ l.length ≤ M := Iff.rfl

@[simp] lemma not_wf_zero_inner (r : BptreeRouting) (cs : List (BPlusTreeNode α)) (ts : Nat) :
    ¬WF M 0 (inner r cs ts) := id

@[simp] lemma not_wf_succ_leaf (l : List α) : ¬WF M (h + 1) (leaf l) := id

/-- A node of height `0` is a leaf. -/
lemma WF.eq_leaf {c : BPlusTreeNode α} (hw : WF M 0 c) : ∃ l, c = leaf l ∧ l.length ≤ M := by
  cases c with
  | leaf l => exact ⟨l, rfl, hw⟩
  | inner r cs ts => exact absurd hw (not_wf_zero_inner r cs ts)

/-- A node of a positive height is an inner node. -/
lemma WF.eq_inner {c : BPlusTreeNode α} (hw : WF M (h + 1) c) :
    ∃ r cs ts, c = inner r cs ts := by
  cases c with
  | leaf l => exact absurd hw (not_wf_succ_leaf l)
  | inner r cs ts => exact ⟨r, cs, ts, rfl⟩

/-- The capacity of a compact node: `maxSize` values in a leaf, `maxSize` full children in an
inner node. -/
lemma WF.length_values_le {c : BPlusTreeNode α} (hw : WF M h c) (hc : c.isCompact) :
    c.values.length ≤ M ^ (h + 1) := by
  induction h generalizing c with
  | zero =>
    obtain ⟨l, rfl, hl⟩ := hw.eq_leaf
    simpa using hl
  | succ h ih =>
    obtain ⟨r, cs, ts, rfl⟩ := hw.eq_inner
    cases r with
    | general offsets => simp [isCompact] at hc
    | compact e =>
      obtain ⟨hch, hcs, -, -⟩ := hw
      have hle : ∀ x ∈ sizes cs, x ≤ M ^ (h + 1) := by
        intro x hx
        obtain ⟨c, hc, rfl⟩ := List.mem_map.mp hx
        exact ih (hcs c hc).1 (hcs c hc).2
      calc (inner (.compact e) cs ts).values.length = (sizes cs).sum := by simp [sum_sizes]
        _ ≤ (sizes cs).length • M ^ (h + 1) := List.sum_le_card_nsmul _ _ hle
        _ ≤ M * M ^ (h + 1) := by
          rw [smul_eq_mul, length_sizes]
          exact Nat.mul_le_mul_right _ hch.length_le
        _ = M ^ (h + 1 + 1) := (pow_succ' M (h + 1)).symm

/-- The sizes of the first children of a compact node, all full. -/
lemma sum_take_sizes_of_compact {cs : List (BPlusTreeNode α)} {e : Nat}
    (hfull : ∀ j, j + 1 < cs.length → (sizes cs)[j]? = some e) :
    ∀ i, i < cs.length → ((sizes cs).take i).sum = i * e := by
  intro i
  induction i with
  | zero => simp
  | succ i ih =>
    intro hi
    have hj : (sizes cs)[i]? = some e := hfull i hi
    rw [List.sum_take_succ _ _ (by simpa using Nat.lt_of_succ_lt hi), ih (by omega),
      (List.getElem_eq_iff _).mpr hj, Nat.succ_mul]

/-- The routing of an inner node after `ensure_offsets`, in either form, is the running totals
of the sizes of its children. -/
lemma WF.ensureOffsets_eq {r : BptreeRouting} {cs : List (BPlusTreeNode α)} {ts : Nat}
    (hw : WF M (h + 1) (inner r cs ts)) :
    BPlusTreeInner.ensureOffsets r cs.length = (sizes cs).runningTotals := by
  cases r with
  | general offsets => exact hw.2.2
  | compact e =>
    obtain ⟨-, -, -, hfull⟩ := hw
    rw [List.runningTotals_of_forall_eq (sizes cs) (e := e) fun j hj =>
      (List.getElem_eq_iff _).mpr (hfull j (by simpa using hj)), length_sizes]
    rfl

/-- What the routing of an inner node of either form rests on: its children, each of the
height below, and the running totals of their sizes after `ensure_offsets`. -/
lemma WF.children {r : BptreeRouting} {cs : List (BPlusTreeNode α)} {ts : Nat}
    (hw : WF M (h + 1) (inner r cs ts)) :
    ChildrenOK M cs ts ∧ ∀ c ∈ cs, WF M h c := by
  cases r with
  | general offsets => exact ⟨hw.1, hw.2.1⟩
  | compact e => exact ⟨hw.1, fun c hc => (hw.2.1 c hc).1⟩

/-- `get_tree_size` counts the values beneath a node. -/
lemma WF.getTreeSize_eq {c : BPlusTreeNode α} (hw : WF M h c) :
    c.getTreeSize = c.values.length := by
  cases h with
  | zero =>
    obtain ⟨l, rfl, -⟩ := hw.eq_leaf
    rfl
  | succ h =>
    obtain ⟨r, cs, ts, rfl⟩ := hw.eq_inner
    rw [getTreeSize, hw.children.1.treeSize_eq, sum_sizes, values_inner]


/-- A child replaced by one of the same size, shape and form leaves an inner node in its
shape. -/
lemma WF.set_child {r : BptreeRouting} {cs : List (BPlusTreeNode α)} {ts i : Nat}
    (hw : WF M (h + 1) (inner r cs ts)) (hi : i < cs.length) {c : BPlusTreeNode α}
    (hc : WF M h c) (hlen : c.values.length = cs[i].values.length)
    (hcomp : c.isCompact = cs[i].isCompact) : WF M (h + 1) (inner r (cs.set i c) ts) := by
  have hs := sizes_set_of_length_eq hi hlen
  obtain ⟨hch, hcs⟩ := hw.children
  have hch' : ChildrenOK M (cs.set i c) ts := by
    refine ⟨by simpa using hch.ne_nil, by simpa using hch.length_le, hs ▸ hch.treeSize_eq, ?_⟩
    intro x hx hx0
    rw [List.length_set]
    rcases List.mem_or_eq_of_mem_set hx with hx | rfl
    · exact hch.single_of_empty x hx hx0
    · exact hch.single_of_empty _ (List.getElem_mem hi)
        (List.eq_nil_of_length_eq_zero (by rw [← hlen, hx0, List.length_nil]))
  cases r with
  | general offsets =>
    refine ⟨hch', fun x hx => ?_, hs ▸ hw.2.2⟩
    rcases List.mem_or_eq_of_mem_set hx with hx | rfl
    · exact hcs x hx
    · exact hc
  | compact e =>
    obtain ⟨-, hcs', he, hfull⟩ := hw
    refine ⟨hch', fun x hx => ?_, he, by simpa [hs] using hfull⟩
    rcases List.mem_or_eq_of_mem_set hx with hx | rfl
    · exact hcs' x hx
    · exact ⟨hc, hcomp ▸ (hcs' _ (List.getElem_mem hi)).2⟩

end WF

/-! ## The walk down a list of children -/

section Walk

variable {β : Type} {n offset : Nat} {cache : LeafCache α}

/-- `bptree_access` reaches child `i` of a list of children. -/
lemma accessChild_eq (func : List α → Nat → Except String (List α × β)) :
    ∀ (cs : List (BPlusTreeNode α)) (i : Nat) (hi : i < cs.length),
      accessChild func cs i n offset cache = accessChild func [cs[i]] 0 n offset cache
  | [], _, hi => absurd hi (Nat.not_lt_zero _)
  | c :: cs, 0, _ => rfl
  | c :: cs, i + 1, hi => accessChild_eq func cs i (by simpa using hi)

/-- `bptree_insert` reaches child `i` of a list of children. -/
lemma insertChild_eq (maxSize : Nat) (value : α) (ndx : Option Nat) :
    ∀ (cs : List (BPlusTreeNode α)) (i : Nat) (hi : i < cs.length),
      insertChild maxSize value cs i ndx offset cache =
        insertChild maxSize value [cs[i]] 0 ndx offset cache
  | [], _, hi => absurd hi (Nat.not_lt_zero _)
  | c :: cs, 0, _ => rfl
  | c :: cs, i + 1, hi => insertChild_eq maxSize value ndx cs i (by simpa using hi)

/-- `bptree_erase` reaches child `i` of a list of children. -/
lemma eraseChild_eq (maxSize : Nat) :
    ∀ (cs : List (BPlusTreeNode α)) (i : Nat) (hi : i < cs.length),
      eraseChild maxSize cs i n offset cache = eraseChild maxSize [cs[i]] 0 n offset cache
  | [], _, hi => absurd hi (Nat.not_lt_zero _)
  | c :: cs, 0, _ => rfl
  | c :: cs, i + 1, hi => eraseChild_eq maxSize cs i (by simpa using hi)

@[simp] lemma accessChild_inner (func : List α → Nat → Except String (List α × β))
    (r : BptreeRouting) (cs : List (BPlusTreeNode α)) (ts : Nat) :
    accessChild func [inner r cs ts] 0 n offset cache =
      bptreeAccess func (inner r cs ts) n offset cache :=
  rfl

@[simp] lemma insertChild_inner (maxSize : Nat) (value : α) (ndx : Option Nat)
    (r : BptreeRouting) (cs : List (BPlusTreeNode α)) (ts : Nat) :
    insertChild maxSize value [inner r cs ts] 0 ndx offset cache =
      bptreeInsert maxSize value (inner r cs ts) ndx offset cache :=
  rfl

@[simp] lemma eraseChild_inner (maxSize : Nat) (r : BptreeRouting) (cs : List (BPlusTreeNode α))
    (ts : Nat) :
    eraseChild maxSize [inner r cs ts] 0 n offset cache =
      bptreeErase maxSize (inner r cs ts) n offset cache :=
  rfl

end Walk

end BPlusTreeNode

/-! ## The routing of an inner node -/

namespace BPlusTreeInner

open BPlusTreeNode

variable {α : Type}

/-- `get_bp_node_offset` in the running totals: where child `i` begins. -/
lemma getBpNodeOffset_runningTotals (s : List Nat) {i : Nat} (hi : i < s.length) :
    getBpNodeOffset s.runningTotals i = (s.take i).sum := by
  unfold getBpNodeOffset
  split_ifs with h
  · exact List.getD_runningTotals s h hi
  · simp [Nat.eq_zero_of_not_pos h]

lemma adjust_one (o : List Nat) (b : Nat) :
    adjust o b 1 = o.take b ++ (o.drop b).map (· + 1) := by
  delta adjust
  simp [← List.map_eq_flatMap, Function.comp_def]

lemma adjust_neg_one (o : List Nat) (b : Nat) :
    adjust o b (-1) = o.take b ++ (o.drop b).map (· - 1) := by
  delta adjust
  simp only [List.append_cancel_left_eq]
  simp only [List.pure_def, ← List.map_eq_flatMap, List.bind_eq_flatMap, List.map_map]
  exact List.map_congr_left fun x _ => by simp only [Function.comp_apply]; omega

/-- `upper_bound` in the running totals of the sizes of the children finds the child that
holds position `n`: the last one that begins at or before it. -/
lemma upperBound_runningTotals (cs : List (BPlusTreeNode α)) (hne : cs ≠ []) (n : Nat) :
    let i := upperBound (sizes cs).runningTotals n
    i < cs.length ∧ getBpNodeOffset (sizes cs).runningTotals i = ((sizes cs).take i).sum ∧
      ((sizes cs).take i).sum ≤ n ∧
      (i + 1 < cs.length → n < ((sizes cs).take (i + 1)).sum) := by
  obtain ⟨hi, hle, hlt⟩ :=
    List.lowerBound_runningTotals (sizes cs) n (by simpa [sizes_eq_map] using hne)
  rw [length_sizes] at hi hlt
  exact ⟨hi, getBpNodeOffset_runningTotals _ (by rw [length_sizes]; exact hi), hle, hlt⟩

variable {M h : Nat} {r : BptreeRouting} {cs : List (BPlusTreeNode α)} {ts : Nat}

/-- The routing of `bptree_access` at a position of the node: the child that holds it, and
where that child begins. -/
lemma accessRoute_spec (hM : 0 < M) (hw : WF M (h + 1) (inner r cs ts)) {n : Nat}
    (hn : n < (sizes cs).sum) :
    ∃ i, accessRoute r cs.length n = .ok (i, ((sizes cs).take i).sum) ∧ i < cs.length ∧
      ((sizes cs).take i).sum ≤ n ∧ n < ((sizes cs).take (i + 1)).sum := by
  have hne := hw.children.1.ne_nil
  cases r with
  | general offsets =>
    obtain ⟨hi, hoff, hle, hlt⟩ := upperBound_runningTotals cs hne n
    obtain rfl : offsets = (sizes cs).runningTotals := hw.2.2
    refine ⟨_, by simp only [accessRoute, if_pos hi, hoff], hi, hle, ?_⟩
    exact List.lt_sum_take_succ (by simpa using hi) (fun h' => hlt (by simpa using h')) hn
  | compact e =>
    obtain ⟨-, hcs, rfl, hfull⟩ := hw
    have he : 0 < M ^ (h + 1) := Nat.pow_pos hM
    -- every child is compact, so none holds more than `elems_per_child` values
    have hsum : (sizes cs).sum ≤ cs.length * M ^ (h + 1) := by
      have := List.sum_le_card_nsmul (sizes cs) (M ^ (h + 1)) fun x hx => by
        obtain ⟨c, hc, rfl⟩ := List.mem_map.mp hx
        exact (hcs c hc).1.length_values_le (hcs c hc).2
      simpa using this
    have hi : n / M ^ (h + 1) < cs.length :=
      (Nat.div_lt_iff_lt_mul he).mpr (lt_of_lt_of_le hn hsum)
    have htake := sum_take_sizes_of_compact hfull _ hi
    refine ⟨n / M ^ (h + 1), by rw [accessRoute, htake], hi, ?_, ?_⟩
    · rw [htake]
      exact Nat.div_mul_le_self _ _
    · refine List.lt_sum_take_succ (by simpa using hi) (fun hi' => ?_) hn
      rw [sum_take_sizes_of_compact hfull _ (by simpa using hi'), Nat.succ_mul]
      exact Nat.lt_div_mul_add he

/-- The routing of `bptree_insert` at a position of the node, up to its end: `ensure_offsets`
turns it to the general form, and the child that takes the position is the last one that
begins at or before it. -/
lemma insertRoute_some (hw : WF M (h + 1) (inner r cs ts)) {n : Nat} (hn : n ≤ (sizes cs).sum) :
    ∃ i, insertRoute r cs.length (some n) =
        .ok (.general (sizes cs).runningTotals, i, ((sizes cs).take i).sum,
          some (n - ((sizes cs).take i).sum)) ∧
      i < cs.length ∧ ((sizes cs).take i).sum ≤ n ∧ n ≤ ((sizes cs).take (i + 1)).sum := by
  obtain ⟨hi, hoff, hle, hlt⟩ := upperBound_runningTotals cs hw.children.1.ne_nil n
  refine ⟨_, by delta insertRoute; simp only [hw.ensureOffsets_eq, if_pos hi, hoff], hi, hle, ?_⟩
  exact List.le_sum_take_succ (by simpa using hi) (fun h' => (hlt (by simpa using h')).le) hn

/-- The routing of `bptree_insert` at `npos`: the last child, in the form the node has. -/
lemma insertRoute_none (hw : WF M (h + 1) (inner r cs ts)) :
    insertRoute r cs.length none =
      .ok (r, cs.length - 1, ((sizes cs).take (cs.length - 1)).sum, none) := by
  have hpos : 0 < cs.length := List.length_pos_iff.mpr hw.children.1.ne_nil
  delta insertRoute
  cases r with
  | general offsets =>
    obtain rfl : offsets = (sizes cs).runningTotals := hw.2.2
    simp only [if_pos (Nat.sub_lt hpos Nat.one_pos),
      getBpNodeOffset_runningTotals _ (show cs.length - 1 < (sizes cs).length by simp; omega)]
  | compact e =>
    rw [sum_take_sizes_of_compact hw.2.2.2 _ (by omega)]

/-! ## `move` into a node of the general form -/

section Move

/-- The children from `n` on, with their indices. -/
lemma zipIdx_drop {β : Type} : ∀ (l : List β) (k n : Nat), (l.zipIdx k).drop n = (l.drop n).zipIdx (k + n)
  | [], _, _ => by simp
  | _ :: _, _, 0 => rfl
  | a :: l, k, n + 1 => by
    rw [List.zipIdx_cons, List.drop_succ_cons, List.drop_succ_cons, zipIdx_drop l (k + 1) n,
      Nat.add_right_comm, Nat.add_assoc]

/-- The offset `move` gives the child at index `j`. -/
def movedOffset (offsets : List Nat) (adj : Int) (j : Nat) : Option Nat :=
  if (getBpNodeOffset offsets j : Int) - adj ≠ 0 then
    some ((getBpNodeOffset offsets j : Int) - adj).toNat
  else none

lemma movedOffset_eq (offsets : List Nat) (adj : Int) (j : Nat) :
    movedOffset offsets adj j =
      if (getBpNodeOffset offsets j : Int) - adj ≠ 0 then
        some ((getBpNodeOffset offsets j : Int) - adj).toNat
      else none :=
  rfl

lemma addBpNodeRef_general (acc : List Nat) (cs₀ : List (BPlusTreeNode α)) (c : BPlusTreeNode α)
    (offset : Int) :
    addBpNodeRef (.general acc, cs₀) c offset =
      (if offset ≠ 0 then .general (acc ++ [offset.toNat]) else .general acc, cs₀ ++ [c]) :=
  rfl

/-- `add_bp_node_ref` child after child into a node of the general form. -/
lemma foldl_addBpNodeRef (offsets : List Nat) (adj : Int) :
    ∀ (l : List (BPlusTreeNode α)) (k : Nat) (acc : List Nat) (cs₀ : List (BPlusTreeNode α)),
      (l.zipIdx k).foldl
          (fun d ci => addBpNodeRef d ci.1 ((getBpNodeOffset offsets ci.2 : Int) - adj))
          (.general acc, cs₀) =
        (.general (acc ++ (List.range' k l.length).filterMap (movedOffset offsets adj)),
          cs₀ ++ l)
  | [], _, _, _ => by simp
  | c :: l, k, acc, cs₀ => by
    rw [List.zipIdx_cons, List.foldl_cons, List.length_cons, List.range'_succ,
      List.filterMap_cons, addBpNodeRef_general]
    simp only [movedOffset_eq]
    split_ifs with h
    · rw [foldl_addBpNodeRef offsets adj l (k + 1)]
      simp
    · rw [foldl_addBpNodeRef offsets adj l (k + 1)]
      simp

/-- `move` into a node of the general form: the children from `ndx` on come at the end, each
with its offset less `adj` where that is not zero. -/
lemma move_general (offsets : List Nat) (children : List (BPlusTreeNode α)) (ndx : Nat)
    (adj : Int) (acc : List Nat) (cs₀ : List (BPlusTreeNode α)) :
    move offsets children ndx adj (.general acc, cs₀) =
      (.general (acc ++ (List.range' ndx (children.length - ndx)).filterMap
          (movedOffset offsets adj)), cs₀ ++ children.drop ndx) := by
  rw [move, zipIdx_drop, Nat.zero_add, foldl_addBpNodeRef, List.length_drop]

/-- The children after child `m` moved out of a node of the general form to a new node: their
offsets, less where child `m + 1` began, are the running totals of their sizes. -/
lemma move_drop_runningTotals (s : List Nat) (children : List (BPlusTreeNode α))
    (hlen : children.length = s.length) {m : Nat} (hpos : ∀ j (hj : j < s.length), m < j → 0 < s[j]) :
    move s.runningTotals children (m + 1) ((s.take (m + 1)).sum : Int) (.general [], []) =
      (.general (s.drop (m + 1)).runningTotals, children.drop (m + 1)) := by
  rw [move_general, List.nil_append, List.nil_append, hlen]
  congr 2
  rcases Nat.lt_or_ge (m + 1) s.length with hm | hm
  · obtain ⟨n, hn⟩ : ∃ n, s.length - (m + 1) = n + 1 := ⟨s.length - (m + 2), by omega⟩
    rw [hn, List.range'_succ, List.filterMap_cons]
    -- child `m + 1` begins where the new node does
    have h₀ : movedOffset s.runningTotals ((s.take (m + 1)).sum : Int) (m + 1) = none := by
      simp [movedOffset_eq, getBpNodeOffset_runningTotals s hm]
    rw [h₀, List.runningTotals_drop]
    simp only
    rw [List.range'_eq_map_range, List.filterMap_map]
    have hn' : s.length - (m + 2) = n := by omega
    rw [hn']
    refine (List.filterMap_eq_map_iff_forall_eq_some.mpr fun t ht => ?_).trans rfl
    -- the children after it begin further on
    have ht' : m + 1 + 1 + t < s.length := by simp at ht; omega
    have hmono : (s.take (m + 1)).sum < (s.take (m + 1 + 1 + t)).sum := by
      have h₁ := List.sum_take_mono s (show m + 1 + 1 ≤ m + 1 + 1 + t by omega)
      have h₂ := List.sum_take_succ s (m + 1) hm
      have h₃ := hpos (m + 1) hm (by omega)
      omega
    simp only [Function.comp_apply, movedOffset_eq, getBpNodeOffset_runningTotals s ht']
    rw [if_pos (by omega), show m + 2 + t = m + 1 + 1 + t by omega]
    congr 1
    omega
  · rw [show s.length - (m + 1) = 0 by omega, List.drop_eq_nil_of_le hm]
    rfl

/-- A node of the general form merged with its next sibling: the sibling's children come after
its own with their offsets moved by its size, and the offsets are the running totals of the
sizes of all. -/
lemma move_append_runningTotals (s₁ s₂ : List Nat) (cs₁ cs₂ : List (BPlusTreeNode α))
    (hlen : cs₂.length = s₂.length) (hs₁ : s₁ ≠ []) (hs₂ : s₂ ≠ []) (hpos : 0 < s₁.sum)
    {adj : Int} (hadj : adj = -(s₁.sum : Int)) :
    move s₂.runningTotals cs₂ 0 adj (.general s₁.runningTotals, cs₁) =
      (.general (s₁ ++ s₂).runningTotals, cs₁ ++ cs₂) := by
  subst hadj
  rw [move_general, List.drop_zero, List.runningTotals_append s₁ s₂ hs₁ hs₂, hlen, Nat.sub_zero]
  congr 2
  have hlen₂ : 0 < s₂.length := List.length_pos_iff.mpr hs₂
  obtain ⟨n, hn⟩ : ∃ n, s₂.length = n + 1 := ⟨s₂.length - 1, by omega⟩
  rw [hn, List.range'_succ, List.filterMap_cons]
  simp only [movedOffset_eq, getBpNodeOffset, lt_irrefl, if_false]
  rw [if_pos (by omega), List.range'_eq_map_range, List.filterMap_map]
  dsimp only
  -- the sibling's child `t + 1` begins where its running total `t` says, moved by `s₁.sum`
  have hrest : List.filterMap (movedOffset s₂.runningTotals (-(s₁.sum : Int)) ∘ fun x => 0 + 1 + x)
      (List.range n) = (List.range n).map fun t => s₁.sum + (s₂.take (t + 1)).sum := by
    refine List.filterMap_eq_map_iff_forall_eq_some.mpr fun t ht => ?_
    have ht' : 1 + t < s₂.length := by simp at ht; omega
    simp only [Function.comp_apply, movedOffset_eq, Nat.zero_add, getBpNodeOffset_runningTotals s₂ ht']
    rw [if_pos (by omega), Nat.add_comm 1 t]
    congr 1
    omega
  rw [hrest]
  congr 2
  · omega
  · apply List.ext_getElem (by simp; omega)
    intro j h₁ h₂
    simp only [List.getElem_map, List.getElem_range, List.getElem_runningTotals]

end Move

end BPlusTreeInner


/-! ## The leaf cache -/

namespace LeafCache

variable {α : Type}

/-- The cached leaf is a run of `vs`, the values beneath a node whose first value is at
position `offset` of the tree: the bounds are where the run begins and ends. -/
def Fits (cache : LeafCache α) (vs : List α) (offset : Nat) : Prop :=
  ∀ b e, cache.bounds = some (b, e) →
    offset ≤ b ∧ e = b + cache.leaf.length ∧ cache.leaf <+: vs.drop (b - offset)

variable {cache : LeafCache α} {vs : List α} {offset : Nat}

/-- An invalidated cache fits every node. -/
lemma fits_of_bounds_eq_none (h : cache.bounds = none) : cache.Fits vs offset := by
  intro b e hb
  rw [h] at hb
  cases hb

/-- `cache_leaf` caches a leaf at its own position. -/
lemma fits_cacheLeaf (l : List α) (offset : Nat) : (cacheLeaf l offset).Fits l offset := by
  intro b e hb
  simp only [cacheLeaf, Option.some.injEq, Prod.mk.injEq] at hb
  obtain ⟨rfl, rfl⟩ := hb
  simp [cacheLeaf]

/-- A cache that fits the values of a child fits the values of its parent, which hold those of
the child after `A`. -/
lemma Fits.lift {X : List α} (A B : List α) (h : cache.Fits X (offset + A.length)) :
    cache.Fits (A ++ X ++ B) offset := by
  intro b e hb
  obtain ⟨h₁, h₂, h₃⟩ := h b e hb
  refine ⟨by omega, h₂, ?_⟩
  have hj : b - offset = A.length + (b - (offset + A.length)) := by omega
  rw [hj, List.append_assoc, List.drop_append, List.drop_eq_nil_of_le (by omega), List.nil_append,
    Nat.add_sub_cancel_left, List.drop_append]
  exact h₃.trans (List.prefix_append _ _)

/-- The fast path of `get` reads the value at a position from a cache that fits the tree. -/
lemma Fits.getElem?_leaf (h : cache.Fits vs 0) {b e n : Nat} (hb : cache.bounds = some (b, e))
    (hn : b ≤ n ∧ n < e) : cache.leaf[n - b]? = vs[n]? := by
  obtain ⟨-, he, ⟨t, ht⟩⟩ := h b e hb
  have hlt : n - b < cache.leaf.length := by omega
  have happ : (cache.leaf ++ t)[n - b]? = cache.leaf[n - b]? := List.getElem?_append_left hlt
  rw [← happ, ht, List.getElem?_drop, Nat.sub_zero,
    Nat.add_sub_cancel' hn.1]

end LeafCache

end Realm
