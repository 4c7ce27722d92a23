import Mathlib
import RealmCore.BPlusTree.Node

/-!
# A B+tree of values

`BPlusTree<T>` and `BPlusTreeBase` (src/realm/bplustree.hpp, src/realm/bplustree.cpp): the root
node, the size `m_size` that the tree keeps beside it, and the leaf cache.  `get` first tries
the cached leaf (the fast path) and otherwise descends (`get_uncached`); both change the leaf
cache, which is `mutable` in the C++ code, so every operation answers the tree.  `swap` is the
one for values that are neither strings nor binaries nor `Mixed`.
-/

namespace Realm

/-- A `BPlusTree<T>`: the root, `m_size` and the leaf cache. -/
structure BPlusTree (α : Type) where
  root : BPlusTreeNode α
  size : Nat
  cache : LeafCache α

namespace BPlusTree

variable {α : Type}

/-- A tree after `create`: an empty leaf at the root, and no cached leaf. -/
def empty : BPlusTree α := ⟨.leaf [], 0, ⟨none, []⟩⟩

/-- `BPlusTree::get_uncached(n)`: the value at position `n`, read by descending to its leaf. -/
def getUncached (t : BPlusTree α) (n : Nat) : Except String (α × BPlusTree α) := do
  let (_, value, cache) ← t.root.bptreeAccess
    (fun l ndx => match l[ndx]? with
      | some v => .ok (l, v)
      | none => .error "Array::get: ndx out of the leaf")
    n 0 t.cache
  .ok (value, { t with cache })

/-- `BPlusTree::get(n)`: from the cached leaf when it holds position `n`, and otherwise by
descending. -/
def get (t : BPlusTree α) (n : Nat) : Except String (α × BPlusTree α) :=
  match t.cache.bounds with
  | some (b, e) =>
    if b ≤ n ∧ n < e then
      match t.cache.leaf[n - b]? with
      | some v => .ok (v, t)
      | none => .error "Array::get: ndx out of the leaf"
    else t.getUncached n
  | none => t.getUncached n

/-- `BPlusTree::set(n, value)`. -/
def set (t : BPlusTree α) (n : Nat) (value : α) : Except String (BPlusTree α) := do
  let (root, _, cache) ← t.root.bptreeAccess
    (fun l ndx => if ndx < l.length then .ok (l.set ndx value, ())
      else .error "REALM_ASSERT_3(ndx, <, m_size)")
    n 0 t.cache
  .ok { t with root, cache }

/-- `BPlusTree::get_all()`: the values of the leaves in order. -/
def getAll (t : BPlusTree α) : List α × BPlusTree α :=
  let (leaves, cache) := t.root.bptreeTraverse 0 t.cache
  (leaves.flatten, { t with cache })

/-- `BPlusTree::swap(ndx1, ndx2)`. -/
def swap (t : BPlusTree α) (ndx1 ndx2 : Nat) : Except String (BPlusTree α) := do
  let (tmp, t) ← t.get ndx1
  let (value, t) ← t.get ndx2
  let t ← t.set ndx1 value
  t.set ndx2 tmp

/-- `BPlusTree::clear()`: a leaf root is cleared; an inner root is destroyed, which invalidates
the cache, and a new empty leaf takes its place. -/
def clear (t : BPlusTree α) : BPlusTree α :=
  match t.root with
  | .leaf _ => { t with root := .leaf [], size := 0 }
  | .inner .. => { root := .leaf [], size := 0, cache := { t.cache with bounds := none } }

variable (maxSize : Nat)

/-- `BPlusTreeBase::bptree_insert(n, func)` of `value` at position `n` (`none` for `npos`),
which is `npos` when it is the size of the tree.  When the root was split, a new root takes
the two parts: in the compact form when appending to a compact root, and in the general form
otherwise. -/
def bptreeInsert (t : BPlusTree α) (n : Option Nat) (value : α) : Except String (BPlusTree α) := do
  let n := if n = some t.root.getTreeSize then none else n
  let (root, split, cache) ← t.root.bptreeInsert maxSize value n 0 t.cache
  match split with
  | none => .ok { t with root, cache }
  | some (newSibling, state) =>
    let compactForm := n.isNone && root.isCompact
    let newRoot : BptreeRouting × List (BPlusTreeNode α) :=
      (if compactForm then .compact state.splitOffset else .general [], [])
    let newRoot := BPlusTreeInner.addBpNodeRef newRoot root 0
    let newRoot := BPlusTreeInner.addBpNodeRef newRoot newSibling state.splitOffset
    .ok { t with root := .inner newRoot.1 newRoot.2 state.splitSize, cache }

/-- `BPlusTree::insert(n, value)`. -/
def insert (t : BPlusTree α) (n : Nat) (value : α) : Except String (BPlusTree α) := do
  let t ← t.bptreeInsert maxSize (some n) value
  .ok { t with size := t.size + 1 }

/-- `BPlusTree::add(value)`: `insert(npos, value)`. -/
def add (t : BPlusTree α) (value : α) : Except String (BPlusTree α) := do
  let t ← t.bptreeInsert maxSize none value
  .ok { t with size := t.size + 1 }

/-- The loop of `BPlusTreeBase::bptree_erase`: while the root is an inner node that answered
one child, that child becomes the root. -/
def collapseRoot : BPlusTreeNode α → Nat → Except String (BPlusTreeNode α)
  | .inner _ children _, 1 =>
    match children with
    | [child] => collapseRoot child child.getNodeSize
    | _ => .error "REALM_ASSERT(get_node_size() == 1)"
  | root, _ => .ok root

/-- `BPlusTree::erase(n)`. -/
def erase (t : BPlusTree α) (n : Nat) : Except String (BPlusTree α) := do
  let (root, rootSize, cache) ← t.root.bptreeErase maxSize n 0 t.cache
  let root ← collapseRoot root rootSize
  .ok { root, size := t.size - 1, cache }

/-- `BPlusTreeInner::split_root` of a compact inner root: its children, `maxSize` at a time,
go to new compact nodes, each with the values of its children but not more than remain. -/
def splitInnerChildren (elemsPerChild treeSize : Nat) :
    List (List (BPlusTreeNode α)) → Nat → List (BPlusTreeNode α) × Nat
  | [], accumulatedSize => ([], accumulatedSize)
  | group :: groups, accumulatedSize =>
    let thisSize := group.length * elemsPerChild
    let thisSize :=
      if accumulatedSize + thisSize > treeSize then treeSize - accumulatedSize else thisSize
    let rest := splitInnerChildren elemsPerChild treeSize groups (accumulatedSize + thisSize)
    (.inner (.compact elemsPerChild) group thisSize :: rest.1, rest.2)

/-- `BPlusTree<int64_t>::split_root` for a leaf root and `BPlusTreeInner::split_root` for an
inner one: the root's entries are dealt out, `maxSize` at a time, to new nodes under a new
compact root.  `get_elems_per_child` asserts the compact form. -/
def splitRoot : BPlusTreeNode α → Except String (BPlusTreeNode α)
  | .leaf l => .ok (.inner (.compact maxSize) ((l.toChunks maxSize).map .leaf) l.length)
  | .inner (.compact elemsPerChild) children treeSize =>
    let (nodes, accumulatedSize) :=
      splitInnerChildren elemsPerChild treeSize (children.toChunks maxSize) 0
    if accumulatedSize = treeSize then
      .ok (.inner (.compact (maxSize * elemsPerChild)) nodes treeSize)
    else .error "REALM_ASSERT(accumulated_size == tree_size)"
  | .inner (.general _) _ _ => .error "REALM_ASSERT_DEBUG(!m_offsets.is_attached())"

/-- The loop of `split_if_needed`, on fuel: the root is split while it has more than
`maxSize` entries. -/
def splitIfNeededLoop : Nat → BPlusTreeNode α → Except String (BPlusTreeNode α)
  | 0, root => if maxSize < root.getNodeSize then .error "split_if_needed: out of fuel" else .ok root
  | fuel + 1, root =>
    if maxSize < root.getNodeSize then do
      let root ← splitRoot maxSize root
      splitIfNeededLoop fuel root
    else .ok root

/-- `BPlusTree::split_if_needed()`, with fuel for a split per entry of the root. -/
def splitIfNeeded (t : BPlusTree α) : Except String (BPlusTree α) := do
  let root ← splitIfNeededLoop maxSize t.root.getNodeSize t.root
  .ok { t with root }

end BPlusTree

/-- The operations on a `BPlusTree<T>`; `get` and `get_all` are among them, as they change the
leaf cache. -/
inductive BPlusTreeOp (α : Type) where
  | insert (n : Nat) (value : α)
  | add (value : α)
  | set (n : Nat) (value : α)
  | erase (n : Nat)
  | swap (ndx1 ndx2 : Nat)
  | clear
  | splitIfNeeded
  | get (n : Nat)
  | getAll

namespace BPlusTree

variable {α : Type} (maxSize : Nat)

/-- One operation on the tree. -/
def step (t : BPlusTree α) : BPlusTreeOp α → Except String (BPlusTree α)
  | .insert n value => t.insert maxSize n value
  | .add value => t.add maxSize value
  | .set n value => t.set n value
  | .erase n => t.erase maxSize n
  | .swap ndx1 ndx2 => t.swap ndx1 ndx2
  | .clear => .ok t.clear
  | .splitIfNeeded => t.splitIfNeeded maxSize
  | .get n => Prod.snd <$> t.get n
  | .getAll => .ok t.getAll.2

end BPlusTree

end Realm
