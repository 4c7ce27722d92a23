import Mathlib
import RealmCore.Lib.LowerBound

/-!
# The nodes of a B+tree

`BPlusTree<T>` (src/realm/bplustree.hpp, src/realm/bplustree.cpp) keeps a list of values in a
tree of arrays.  A leaf is an array of values.  An inner node (`BPlusTreeInner`) is an array
that holds in slot 0 how it routes positions to its children, then the refs of its children,
then the number of values beneath it.  Slot 0 has one of two forms.  The compact form holds
`elems_per_child` and sends position `n` to child `n / elems_per_child`, which is right while
every child but the last holds that many values.  The general form refers to `m_offsets`, the
running totals of the sizes of the children but the last, and sends `n` to the first child
whose running total exceeds it (`upper_bound`).  Inserting or erasing at a position turns the
nodes on its path to the general form (`ensure_offsets`); appending keeps the compact form.

A node is modelled as a tree value: the refs, the allocator and the tagging of the integers in
an inner node are left out, and so are the context flag and the replication of changes.
`REALM_MAX_BPNODE_SIZE` is the parameter `maxSize`.  The functions follow the C++ ones step by
step, and the leaf cache they set and adjust (`m_leaf_cache` with `m_cached_leaf_begin` and
`m_cached_leaf_end`) is threaded through them as a value.  A `REALM_ASSERT` that fails, or an
access out of the bounds of an array, is an error.

The recursive functions recurse structurally: the step into a child is a companion function
that walks the list of children to the index the routing chose.
-/

namespace Realm

/-- Slot 0 of a `BPlusTreeInner`: `elems_per_child` in the compact form, the running totals of
`m_offsets` in the general form. -/
inductive BptreeRouting where
  | compact (elemsPerChild : Nat)
  | general (offsets : List Nat)
deriving DecidableEq, Repr

/-- A node of a `BPlusTree<T>`: a leaf with its values, or an inner node with its routing, its
children and the number of values beneath it. -/
inductive BPlusTreeNode (α : Type) where
  | leaf (elems : List α)
  | inner (routing : BptreeRouting) (children : List (BPlusTreeNode α)) (treeSize : Nat)
deriving Repr

/-- `BPlusTreeNode::State`: after a split, the size of the part that stays (`split_offset`)
and the size of both parts together (`split_size`). -/
structure BptreeState where
  splitOffset : Nat
  splitSize : Nat
deriving DecidableEq, Repr

/-- The leaf cache of a `BPlusTree`: `m_cached_leaf_begin` and `m_cached_leaf_end`, and the
values that `m_leaf_cache` holds.  The bounds are `none` where the C++ code sets both to
`size_t(-1)`: the begin then stays above every position of the tree, as `adjust_leaf_bounds`
moves only the end, so the fast path of `get` is not taken. -/
structure LeafCache (α : Type) where
  bounds : Option (Nat × Nat)
  leaf : List α
deriving DecidableEq, Repr

namespace LeafCache

variable {α : Type}

/-- `adjust_leaf_bounds(incr)`: the end moves by `incr`. -/
def adjustBounds (bounds : Option (Nat × Nat)) (incr : Int) : Option (Nat × Nat) :=
  bounds.map fun (b, e) => (b, (e + incr).toNat)

/-- `BPlusTreeInner::cache_leaf`: `m_leaf_cache` takes the leaf at `offset`, and the bounds
are the positions it holds. -/
def cacheLeaf (leaf : List α) (offset : Nat) : LeafCache α :=
  ⟨some (offset, offset + leaf.length), leaf⟩

end LeafCache

namespace BPlusTreeNode

variable {α : Type}

/-- `get_node_size`: the number of values of a leaf, of children of an inner node. -/
def getNodeSize : BPlusTreeNode α → Nat
  | leaf l => l.length
  | inner _ children _ => children.length

/-- `get_tree_size`: the number of values beneath a node, as an inner node stores it. -/
def getTreeSize : BPlusTreeNode α → Nat
  | leaf l => l.length
  | inner _ _ treeSize => treeSize

/-- `is_compact`: a leaf, or an inner node in the compact form. -/
def isCompact : BPlusTreeNode α → Bool
  | leaf _ => true
  | inner (.compact _) _ _ => true
  | inner (.general _) _ _ => false

end BPlusTreeNode

/-! ## Leaves -/

namespace BPlusTreeLeaf

variable {α : Type}

/-- `BPlusTreeLeaf::bptree_insert` of `value` at `ndx` (`none` for `npos`, the end).  A full
leaf is split: at the end `value` goes alone to a new leaf, and elsewhere the values from
`ndx` on move to a new leaf and `value` goes at the end of this one.  It answers the leaf, the
new leaf with the split state, and the bounds of the cached leaf: they grow by one when there
is no split, and are invalidated when values moved out. -/
def bptreeInsert (maxSize : Nat) (leaf : List α) (ndx : Option Nat) (value : α)
    (bounds : Option (Nat × Nat)) :
    List α × Option (List α × BptreeState) × Option (Nat × Nat) :=
  let leafSize := leaf.length
  let ndx := match ndx with
    | some n => min n leafSize
    | none => leafSize
  if leafSize < maxSize then
    (leaf.insertIdx ndx value, none, LeafCache.adjustBounds bounds 1)
  else if ndx = leafSize then
    (leaf, some ([value], ⟨ndx, leafSize + 1⟩), bounds)
  else
    (leaf.take ndx ++ [value], some (leaf.drop ndx, ⟨ndx + 1, leafSize + 1⟩), none)

/-- The erase function of `BPlusTree::erase`: `LeafArray::erase(ndx)`, which asserts that
`ndx` is in the leaf. -/
def erase (leaf : List α) (ndx : Nat) : Except String (List α) :=
  if ndx < leaf.length then .ok (leaf.eraseIdx ndx) else .error "REALM_ASSERT_3(begin, <=, end)"

end BPlusTreeLeaf

/-! ## The routing of an inner node -/

namespace BPlusTreeInner

variable {α : Type}

/-- `get_bp_node_offset`: the position of the first value of a child, in the general form. -/
def getBpNodeOffset (offsets : List Nat) (childNdx : Nat) : Nat :=
  if 0 < childNdx then offsets.getD (childNdx - 1) 0 else 0

/-- `ArrayUnsigned::upper_bound`: `std::upper_bound`, the first index whose offset exceeds
`n`. -/
def upperBound (offsets : List Nat) (n : Nat) : Nat :=
  LowerBound.lowerBound (fun x v => decide (x ≤ v)) offsets n

/-- The offsets after `ensure_offsets`: in the compact form, the multiples of
`elems_per_child` for the children but the last. -/
def ensureOffsets (routing : BptreeRouting) (numChildren : Nat) : List Nat :=
  match routing with
  | .general offsets => offsets
  | .compact elemsPerChild => (List.range (numChildren - 1)).map fun i => (i + 1) * elemsPerChild

/-- `ArrayUnsigned::adjust(begin, size(), diff)`: the offsets from `begin` on move by
`diff`. -/
def adjust (offsets : List Nat) (begin : Nat) (diff : Int) : List Nat :=
  offsets.take begin ++ (offsets.drop begin).map fun x => (x + diff).toNat

/-- `add_bp_node_ref(ref, offset)`: a child is added at the end, and in the general form a
nonzero offset is added to `m_offsets`. -/
def addBpNodeRef (dst : BptreeRouting × List (BPlusTreeNode α)) (child : BPlusTreeNode α)
    (offset : Int) : BptreeRouting × List (BPlusTreeNode α) :=
  let routing := match dst.1 with
    | .general offsets => if offset ≠ 0 then .general (offsets ++ [offset.toNat]) else dst.1
    | .compact elemsPerChild => .compact elemsPerChild
  (routing, dst.2 ++ [child])

/-- The copying loop of `BPlusTreeInner::move(new_node, ndx, adj)`: the children from `ndx`
on are added to `dst`, each with its offset less `adj`.  The caller truncates the node. -/
def move (offsets : List Nat) (children : List (BPlusTreeNode α)) (ndx : Nat) (adj : Int)
    (dst : BptreeRouting × List (BPlusTreeNode α)) : BptreeRouting × List (BPlusTreeNode α) :=
  (children.zipIdx.drop ndx).foldl
    (fun d ci => addBpNodeRef d ci.1 ((getBpNodeOffset offsets ci.2 : Int) - adj)) dst

/-- `erase_and_destroy_bp_node(ndx)`: the child goes, and so does the offset at its end, or the
last offset for the last child. -/
def eraseAndDestroyBpNode (offsets : List Nat) (children : List (BPlusTreeNode α)) (ndx : Nat) :
    List Nat × List (BPlusTreeNode α) :=
  let sz := offsets.length
  let offsets :=
    if sz ≠ 0 then (if ndx < sz then offsets.eraseIdx ndx else offsets.eraseIdx (sz - 1))
    else offsets
  (offsets, children.eraseIdx ndx)

/-- `insert_bp_node(child_ndx, new_sibling_ref, state)`: the new sibling of child `childNdx`
goes after it.  A full node is split: when the child was the last one the new sibling goes
alone to a new node; otherwise, in the general form, the children after the child move to a
new node and the new sibling stays.  It answers the node and the new node with the split
state. -/
def insertBpNode (maxSize : Nat) (routing : BptreeRouting) (children : List (BPlusTreeNode α))
    (treeSize childNdx : Nat) (newSibling : BPlusTreeNode α) (state : BptreeState) :
    Except String (BPlusTreeNode α × Option (BPlusTreeNode α × BptreeState)) :=
  let newRefNdx := childNdx + 1
  let sz := children.length
  if sz < maxSize then
    -- room for the new child
    let routing := match routing with
      | .general offsets =>
        let elemNdxOffset := getBpNodeOffset offsets childNdx
        .general (adjust (offsets.insertIdx childNdx (elemNdxOffset + state.splitOffset))
          (childNdx + 1) 1)
      | .compact elemsPerChild => .compact elemsPerChild
    .ok (.inner routing (children.insertIdx newRefNdx newSibling) (treeSize + 1), none)
  else
    let (siblingRouting, elemNdxOffset) := match routing with
      | .general offsets => (BptreeRouting.general [], getBpNodeOffset offsets childNdx)
      | .compact elemsPerChild => (.compact elemsPerChild, childNdx * elemsPerChild)
    if newRefNdx = sz then
      -- the child was the last one
      let newSplitOffset := elemNdxOffset + state.splitOffset
      let newSplitSize := elemNdxOffset + state.splitSize
      let sibling := addBpNodeRef (siblingRouting, []) newSibling 0
      .ok (.inner routing children newSplitOffset,
        some (.inner sibling.1 sibling.2 (newSplitSize - newSplitOffset),
          ⟨newSplitOffset, newSplitSize⟩))
    else
      match routing with
      | .compact _ => .error "get_bp_node_offset: m_offsets is not attached"
      | .general offsets =>
        let newSplitOffset := elemNdxOffset + state.splitSize
        let newSplitSize := treeSize + 1
        let sibling := move offsets children newRefNdx ((newSplitOffset : Int) - 1)
          (siblingRouting, [])
        -- `truncate(new_ref_ndx + 1)` and `m_offsets.truncate(new_ref_ndx - 1)`
        let kept := (BptreeRouting.general (offsets.take (newRefNdx - 1)),
          children.take newRefNdx)
        let node := addBpNodeRef kept newSibling (elemNdxOffset + state.splitOffset)
        .ok (.inner node.1 node.2 newSplitOffset,
          some (.inner sibling.1 sibling.2 (newSplitSize - newSplitOffset),
            ⟨newSplitOffset, newSplitSize⟩))

/-- The routing of `bptree_insert` at position `ndx` (`none` for `npos`): after
`ensure_offsets` for a position, the child and the position of its first value, and the
position within the child; `npos` goes to the last child. -/
def insertRoute (routing : BptreeRouting) (numChildren : Nat) (ndx : Option Nat) :
    Except String (BptreeRouting × Nat × Nat × Option Nat) :=
  match ndx with
  | some n =>
    let offsets := ensureOffsets routing numChildren
    let childNdx := upperBound offsets n
    let childOffset := getBpNodeOffset offsets childNdx
    if childNdx < numChildren then .ok (.general offsets, childNdx, childOffset, some (n - childOffset))
    else .error "REALM_ASSERT_3(child_ndx, <, get_node_size())"
  | none =>
    let childNdx := numChildren - 1
    match routing with
    | .general offsets =>
      if childNdx < numChildren then .ok (routing, childNdx, getBpNodeOffset offsets childNdx, none)
      else .error "REALM_ASSERT_3(child_ndx, <, get_node_size())"
    | .compact elemsPerChild => .ok (routing, childNdx, childNdx * elemsPerChild, none)

/-- The routing of `bptree_access` at position `n`: the child and the position of its first
value. -/
def accessRoute (routing : BptreeRouting) (numChildren n : Nat) : Except String (Nat × Nat) :=
  match routing with
  | .general offsets =>
    let childNdx := upperBound offsets n
    if childNdx < numChildren then .ok (childNdx, getBpNodeOffset offsets childNdx)
    else .error "REALM_ASSERT_3(child_ndx, <, get_node_size())"
  | .compact elemsPerChild => .ok (n / elemsPerChild, n / elemsPerChild * elemsPerChild)

/-- The merge in `bptree_erase` of child `childNdx` with its next sibling: the sibling's values
go to the end of the child, the running total at the end of the child becomes the one at the
end of the sibling, and for inner nodes the sibling's children come over with their offsets
moved by the size of the child.  It answers the merged child, the offsets and the cache. -/
def mergeSiblings (offsets : List Nat) (childNdx : Nat) (node sibling : BPlusTreeNode α)
    (cache : LeafCache α) : Except String (BPlusTreeNode α × List Nat × LeafCache α) :=
  let siblingNdx := childNdx + 1
  let offsetsAfter :=
    if siblingNdx < offsets.length then offsets.set (siblingNdx - 1) (offsets.getD siblingNdx 0)
    else offsets
  match node, sibling with
  | .leaf l, .leaf s =>
    -- `sibling_node->move(leaf, 0, 0)` into the cached leaf, then `invalidate_leaf_cache`
    .ok (.leaf (l ++ s), offsetsAfter, ⟨none, l ++ s⟩)
  | .inner r₁ cs₁ ts₁, .inner r₂ cs₂ ts₂ =>
    let siblingOffs := offsets.getD (siblingNdx - 1) 0
    let eraseNodeOffs := getBpNodeOffset offsets childNdx
    let offsAdj : Int := (eraseNodeOffs : Int) - siblingOffs
    let merged := move (ensureOffsets r₂ cs₂.length) cs₂ 0 offsAdj
      (.general (ensureOffsets r₁ cs₁.length), cs₁)
    .ok (.inner merged.1 merged.2 (ts₁ + ts₂), offsetsAfter, cache)
  | _, _ => .error "the sibling is not a node of the same kind"

/-- What `bptree_erase` does after the erase in child `childNdx`, now `children[childNdx]`,
which answered `eraseNodeSize`: the sizes drop by one; an empty child is destroyed unless it
is the only one; a child left with fewer than `maxSize / 2` entries is merged with its next
sibling when they have fewer than `maxSize * 3 / 4` together.  It answers the node, its number
of children (`0` when its only child is empty) and the cache. -/
def bptreeEraseTail (maxSize : Nat) (offsets : List Nat) (children : List (BPlusTreeNode α))
    (treeSize childNdx eraseNodeSize : Nat) (cache : LeafCache α) :
    Except String (BPlusTreeNode α × Nat × LeafCache α) :=
  let treeSize := treeSize - 1
  let offsets := adjust offsets childNdx (-1)
  let numChildren := children.length
  if eraseNodeSize = 0 then
    if numChildren = 1 then .ok (.inner (.general offsets) children treeSize, 0, cache)
    else
      let (offsets, children) := eraseAndDestroyBpNode offsets children childNdx
      .ok (.inner (.general offsets) children treeSize, numChildren - 1, cache)
  else if eraseNodeSize < maxSize / 2 ∧ childNdx < numChildren - 1 then
    match children[childNdx]?, children[childNdx + 1]? with
    | some node, some sibling =>
      if sibling.getNodeSize + eraseNodeSize < maxSize * 3 / 4 then do
        let (merged, offsets, cache) ← mergeSiblings offsets childNdx node sibling cache
        let (offsets, children) :=
          eraseAndDestroyBpNode offsets (children.set childNdx merged) (childNdx + 1)
        .ok (.inner (.general offsets) children treeSize, numChildren - 1, cache)
      else .ok (.inner (.general offsets) children treeSize, numChildren, cache)
    | _, _ => .error "REALM_ASSERT_3(child_ndx, <, get_node_size())"
  else .ok (.inner (.general offsets) children treeSize, numChildren, cache)

end BPlusTreeInner

/-! ## The recursive functions -/

namespace BPlusTreeNode

open BPlusTreeInner

variable {α β : Type}

mutual

/-- `bptree_access(n, func)`: `func` runs on the leaf that holds position `n` and the position
within it; it may change the leaf (`set`) or read it (`get_uncached`).  A leaf reached from an
inner node is the cached leaf; a leaf at the root is not. -/
def bptreeAccess (func : List α → Nat → Except String (List α × β)) :
    BPlusTreeNode α → Nat → Nat → LeafCache α → Except String (BPlusTreeNode α × β × LeafCache α)
  | leaf l, n, _, cache => do
    let (l, b) ← func l n
    .ok (leaf l, b, cache)
  | inner routing children treeSize, n, myOffset, cache => do
    let (childNdx, childOffset) ← accessRoute routing children.length n
    let (child, b, cache) ←
      accessChild func children childNdx (n - childOffset) (childOffset + myOffset) cache
    .ok (inner routing (children.set childNdx child) treeSize, b, cache)

/-- `bptree_access` in the child at index `i` of a list of children. -/
def accessChild (func : List α → Nat → Except String (List α × β)) :
    List (BPlusTreeNode α) → Nat → Nat → Nat → LeafCache α →
      Except String (BPlusTreeNode α × β × LeafCache α)
  | [], _, _, _, _ => .error "get_bp_node_ref: no such child"
  | c :: _, 0, n, offset, cache =>
    match c with
    | leaf l => do
      let cache := LeafCache.cacheLeaf l offset
      let (l, b) ← func l n
      .ok (leaf l, b, ⟨cache.bounds, l⟩)
    | inner .. => bptreeAccess func c n offset cache
  | _ :: cs, i + 1, n, offset, cache => accessChild func cs i n offset cache

end

mutual

/-- `bptree_insert(ndx, state, func)` of `value` at `ndx` (`none` for `npos`): it answers the
node, the new sibling with the split state when the node was split, and the cache. -/
def bptreeInsert (maxSize : Nat) (value : α) :
    BPlusTreeNode α → Option Nat → Nat → LeafCache α →
      Except String (BPlusTreeNode α × Option (BPlusTreeNode α × BptreeState) × LeafCache α)
  | leaf l, ndx, _, cache =>
    let (l, split, bounds) := BPlusTreeLeaf.bptreeInsert maxSize l ndx value cache.bounds
    .ok (leaf l, split.map fun (s, state) => (leaf s, state), { cache with bounds })
  | inner routing children treeSize, ndx, myOffset, cache => do
    let (routing, childNdx, childOffset, ndx) ← insertRoute routing children.length ndx
    let (child, split, cache) ←
      insertChild maxSize value children childNdx ndx (childOffset + myOffset) cache
    match split with
    | none =>
      let routing := match routing with
        | .general offsets => .general (adjust offsets childNdx 1)
        | .compact elemsPerChild => .compact elemsPerChild
      .ok (inner routing (children.set childNdx child) (treeSize + 1), none, cache)
    | some (newSibling, state) => do
      let (node, split) ← insertBpNode maxSize routing (children.set childNdx child) treeSize
        childNdx newSibling state
      .ok (node, split, cache)

/-- `bptree_insert` in the child at index `i` of a list of children. -/
def insertChild (maxSize : Nat) (value : α) :
    List (BPlusTreeNode α) → Nat → Option Nat → Nat → LeafCache α →
      Except String (BPlusTreeNode α × Option (BPlusTreeNode α × BptreeState) × LeafCache α)
  | [], _, _, _, _ => .error "get_bp_node_ref: no such child"
  | c :: _, 0, ndx, offset, cache =>
    match c with
    | leaf l =>
      let cache := LeafCache.cacheLeaf l offset
      let (l, split, bounds) := BPlusTreeLeaf.bptreeInsert maxSize l ndx value cache.bounds
      .ok (leaf l, split.map fun (s, state) => (leaf s, state), ⟨bounds, l⟩)
    | inner .. => bptreeInsert maxSize value c ndx offset cache
  | _ :: cs, i + 1, ndx, offset, cache => insertChild maxSize value cs i ndx offset cache

end

mutual

/-- `bptree_erase(n, func)` with the erase function of `BPlusTree::erase`: it answers the
node, its size (`get_node_size`, or `0` for an inner node whose only child became empty) and
the cache. -/
def bptreeErase (maxSize : Nat) :
    BPlusTreeNode α → Nat → Nat → LeafCache α → Except String (BPlusTreeNode α × Nat × LeafCache α)
  | leaf l, n, _, cache => do
    let l ← BPlusTreeLeaf.erase l n
    .ok (leaf l, l.length, cache)
  | inner routing children treeSize, n, myOffset, cache => do
    let offsets := ensureOffsets routing children.length
    let childNdx := upperBound offsets n
    let childOffset := getBpNodeOffset offsets childNdx
    if childNdx < children.length then
      let (child, eraseNodeSize, cache) ←
        eraseChild maxSize children childNdx (n - childOffset) (childOffset + myOffset) cache
      bptreeEraseTail maxSize offsets (children.set childNdx child) treeSize childNdx
        eraseNodeSize cache
    else .error "REALM_ASSERT_3(child_ndx, <, get_node_size())"

/-- `bptree_erase` in the child at index `i` of a list of children; an emptied leaf
invalidates the cache, and otherwise its end moves back by one. -/
def eraseChild (maxSize : Nat) :
    List (BPlusTreeNode α) → Nat → Nat → Nat → LeafCache α →
      Except String (BPlusTreeNode α × Nat × LeafCache α)
  | [], _, _, _, _ => .error "get_bp_node_ref: no such child"
  | c :: _, 0, n, offset, cache =>
    match c with
    | leaf l => do
      let cache := LeafCache.cacheLeaf l offset
      let l ← BPlusTreeLeaf.erase l n
      let bounds := if l.length = 0 then none else LeafCache.adjustBounds cache.bounds (-1)
      .ok (leaf l, l.length, ⟨bounds, l⟩)
    | inner .. => bptreeErase maxSize c n offset cache
  | _ :: cs, i + 1, n, offset, cache => eraseChild maxSize cs i n offset cache

end

mutual

/-- `bptree_traverse(func)` with a `func` that visits every leaf: the values of the leaves in
order, and the cache, which each leaf under an inner node takes in turn. -/
def bptreeTraverse : BPlusTreeNode α → Nat → LeafCache α → List (List α) × LeafCache α
  | leaf l, _, cache => ([l], cache)
  | inner routing children _, myOffset, cache =>
    traverseChildren routing children 0 myOffset cache

/-- The loop of `bptree_traverse` over the children from index `i` on. -/
def traverseChildren (routing : BptreeRouting) :
    List (BPlusTreeNode α) → Nat → Nat → LeafCache α → List (List α) × LeafCache α
  | [], _, _, cache => ([], cache)
  | c :: cs, i, myOffset, cache =>
    let childOffset := match routing with
      | .general offsets => getBpNodeOffset offsets i
      | .compact elemsPerChild => i * elemsPerChild
    let first := match c with
      | leaf l => ([l], LeafCache.cacheLeaf l (childOffset + myOffset))
      | inner .. => bptreeTraverse c (childOffset + myOffset) cache
    let rest := traverseChildren routing cs (i + 1) myOffset first.2
    (first.1 ++ rest.1, rest.2)

end

end BPlusTreeNode

end Realm
