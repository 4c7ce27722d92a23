import Mathlib
import RealmCore.Hnsw.EntryPoint

/-!
# HNSW index: the shape of the graph

`WellFormed` is the graph an HNSW index is meant to maintain: neighbour lists name nodes,
edges go both ways, no node is its own or a repeated neighbour, a node has one list per layer
up to its own, its neighbours at a layer reach that layer, and lists respect the degree
bounds `M0` and `M`.  `HNSWIndex::verify` asserts the symmetry of every edge between two
nodes.

The index does not maintain it.  `erase` disconnects a node from its neighbours in a
range-`for` over the node's own list while `disconnect_nodes` erases from that same list, so
every erase shifts the next neighbour into the slot just visited and the loop skips it; the
skipped neighbour keeps an edge to the erased node.  And `insert` connects a node at every
layer from its own layer down, also above the layer of the entry point it searches from,
which then gets a list above its own layer.
-/

namespace Realm

/-- The graph invariant of an HNSW index. -/
structure WellFormed (s : HNSWIndex) : Prop where
  closed : ∀ a n, s.vectors.lookup a = some n → ∀ l b, b ∈ n.neighbors l → b ∈ s.vectors
  symmetric : ∀ a na b nb, s.vectors.lookup a = some na → s.vectors.lookup b = some nb →
    ∀ l, b ∈ na.neighbors l ↔ a ∈ nb.neighbors l
  irreflexive : ∀ a n, s.vectors.lookup a = some n → ∀ l, a ∉ n.neighbors l
  nodup : ∀ a n, s.vectors.lookup a = some n → ∀ l, (n.neighbors l).Nodup
  length_connections : ∀ a n, s.vectors.lookup a = some n → n.connections.length = n.layer + 1
  neighbor_layer : ∀ a na b nb, s.vectors.lookup a = some na → s.vectors.lookup b = some nb →
    ∀ l, b ∈ na.neighbors l → l ≤ nb.layer
  degree : ∀ a n, s.vectors.lookup a = some n → ∀ l, (n.neighbors l).length ≤ s.config.maxConn l

/-! ## Deciding well-formedness

`WellFormed` quantifies over every key and every layer; a node has lists only up to its own
count, and every other layer reads as the empty list.  `WellFormed.Check` bounds the
quantifiers by the entries of the map and the layers a node has lists for, and decides it. -/

/-- A layer the node has no list for reads as empty. -/
lemma Node.neighbors_eq_nil {n : Node} {l : Nat} (hl : n.connections.length ≤ l) :
    n.neighbors l = [] :=
  List.getD_eq_default _ _ hl

namespace WellFormed

/-- A property of the lists at each layer that holds of the empty list holds at every layer
once it holds at the layers a node has lists for. -/
lemma forall_neighbors_iff {n : Node} {P : Nat → List ObjKey → Prop} (hnil : ∀ l, P l []) :
    (∀ l, P l (n.neighbors l)) ↔ ∀ l ∈ List.range n.connections.length, P l (n.neighbors l) := by
  refine ⟨fun h l _ => h l, fun h l => ?_⟩
  by_cases hl : l < n.connections.length
  · exact h l (List.mem_range.mpr hl)
  · rw [Node.neighbors_eq_nil (not_lt.mp hl)]
    exact hnil l

/-- A layer with a neighbour is one the node has a list for. -/
lemma lt_length_of_mem_neighbors {n : Node} {l : Nat} {b : ObjKey} (hb : b ∈ n.neighbors l) :
    l < n.connections.length := by
  by_contra hl
  rw [Node.neighbors_eq_nil (not_lt.mp hl)] at hb
  cases hb

/-- `WellFormed` with its quantifiers bounded by the entries of the map and the layers a node
has lists for; the symmetry of edges is checked one way, from every list. -/
abbrev Check (s : HNSWIndex) : Prop :=
  ∀ x ∈ s.vectors.entries, x.2.connections.length = x.2.layer + 1 ∧
    ∀ l ∈ List.range x.2.connections.length,
      x.1 ∉ x.2.neighbors l ∧ (x.2.neighbors l).Nodup ∧
        (x.2.neighbors l).length ≤ s.config.maxConn l ∧
        ∀ b ∈ x.2.neighbors l, b ∈ s.vectors.keys ∧
          ∀ y ∈ s.vectors.entries, y.1 = b → l ≤ y.2.layer ∧ x.1 ∈ y.2.neighbors l

/-- What the check says of one stored node at one of its layers. -/
lemma Check.at {s : HNSWIndex} (hc : Check s) {a : ObjKey} {n : Node}
    (hn : s.vectors.lookup a = some n) {l : Nat} (hl : l < n.connections.length) :
    a ∉ n.neighbors l ∧ (n.neighbors l).Nodup ∧ (n.neighbors l).length ≤ s.config.maxConn l ∧
      ∀ b ∈ n.neighbors l, b ∈ s.vectors.keys ∧
        ∀ y ∈ s.vectors.entries, y.1 = b → l ≤ y.2.layer ∧ a ∈ y.2.neighbors l :=
  (hc ⟨a, n⟩ (AList.mem_lookup_iff.mp hn)).2 l (List.mem_range.mpr hl)

/-- An edge the check has seen from one end. -/
lemma Check.edge {s : HNSWIndex} (hc : Check s) {a b : ObjKey} {na nb : Node}
    (ha : s.vectors.lookup a = some na) (hb : s.vectors.lookup b = some nb) {l : Nat}
    (hab : b ∈ na.neighbors l) : l ≤ nb.layer ∧ a ∈ nb.neighbors l :=
  ((hc.at ha (lt_length_of_mem_neighbors hab)).2.2.2 b hab).2 ⟨b, nb⟩
    (AList.mem_lookup_iff.mp hb) rfl

lemma check_of_wellFormed {s : HNSWIndex} (h : WellFormed s) : Check s := by
  intro x hx
  have hn : s.vectors.lookup x.1 = some x.2 := AList.mem_lookup_iff.mpr hx
  refine ⟨h.length_connections _ _ hn, fun l _ => ⟨h.irreflexive _ _ hn l, h.nodup _ _ hn l,
    h.degree _ _ hn l, fun b hb => ⟨AList.mem_keys.mpr (h.closed _ _ hn l b hb), ?_⟩⟩⟩
  intro y hy hyb
  have hyn : s.vectors.lookup b = some y.2 := hyb ▸ AList.mem_lookup_iff.mpr hy
  exact ⟨h.neighbor_layer _ _ _ _ hn hyn l hb, (h.symmetric _ _ _ _ hn hyn l).mp hb⟩

lemma of_check {s : HNSWIndex} (hc : Check s) : WellFormed s where
  closed _ _ hn _ b hb :=
    AList.mem_keys.mp ((hc.at hn (lt_length_of_mem_neighbors hb)).2.2.2 b hb).1
  symmetric _ _ _ _ ha hb _ := ⟨fun hab => (hc.edge ha hb hab).2, fun hba => (hc.edge hb ha hba).2⟩
  irreflexive a _ hn := (forall_neighbors_iff (P := fun _ ns => a ∉ ns) fun _ => List.not_mem_nil).mpr
    fun _ hl => (hc.at hn (List.mem_range.mp hl)).1
  nodup _ _ hn := (forall_neighbors_iff (P := fun _ ns => ns.Nodup) fun _ => List.nodup_nil).mpr
    fun _ hl => (hc.at hn (List.mem_range.mp hl)).2.1
  length_connections a n hn := (hc ⟨a, n⟩ (AList.mem_lookup_iff.mp hn)).1
  neighbor_layer _ _ _ _ ha hb _ hab := (hc.edge ha hb hab).1
  degree _ _ hn :=
    (forall_neighbors_iff (P := fun l ns => ns.length ≤ s.config.maxConn l)
      fun _ => Nat.zero_le _).mpr fun _ hl => (hc.at hn (List.mem_range.mp hl)).2.2.1

lemma iff_check {s : HNSWIndex} : WellFormed s ↔ Check s :=
  ⟨check_of_wellFormed, of_check⟩

end WellFormed

/-- Whether an index is well formed can be decided. -/
instance (s : HNSWIndex) : Decidable (WellFormed s) :=
  decidable_of_iff' (WellFormed.Check s) WellFormed.iff_check

/-- Four nodes on one line, each inserted at layer 0, then the last one erased. -/
def eraseAfterFourInserts : List Op :=
  [.insert ⟨1⟩ [⟨0x0000000000000000⟩] 0, .insert ⟨2⟩ [⟨0x3FF0000000000000⟩] 0,
    .insert ⟨3⟩ [⟨0x4000000000000000⟩] 0, .insert ⟨4⟩ [⟨0x4008000000000000⟩] 0, .erase ⟨4⟩]

/-- A node at layer 0, then one at layer 1. -/
def insertAboveEntryPoint : List Op :=
  [.insert ⟨1⟩ [⟨0x0000000000000000⟩] 0, .insert ⟨2⟩ [⟨0x3FF0000000000000⟩] 1]

/-- Both runs are ones the callers issue, and neither ends well formed.  After the first,
node 2 keeps the erased node 4 as a neighbour: node 4's list was `[3, 2, 1]`, and the erase
of node 3 from it shifted node 2 into the slot already visited.  After the second, node 1,
drawn at layer 0, has a list at layer 1 too. -/
theorem wellFormed_fails :
    Run.Admissible (step gridMetrics) Op.Admissible
        (HNSWIndex.new (HNSWIndexConfig.ofMetric .euclidean)) eraseAfterFourInserts ∧
      ¬WellFormed (Run.run (step gridMetrics)
        (HNSWIndex.new (HNSWIndexConfig.ofMetric .euclidean)) eraseAfterFourInserts) ∧
      Run.Admissible (step gridMetrics) Op.Admissible
        (HNSWIndex.new (HNSWIndexConfig.ofMetric .euclidean)) insertAboveEntryPoint ∧
      ¬WellFormed (Run.run (step gridMetrics)
        (HNSWIndex.new (HNSWIndexConfig.ofMetric .euclidean)) insertAboveEntryPoint) := by
  refine ⟨by decide +kernel, ?_, by decide +kernel, ?_⟩
  · intro h
    have hlist : ((Run.run (step gridMetrics) (HNSWIndex.new (HNSWIndexConfig.ofMetric .euclidean))
        eraseAfterFourInserts).vectors.lookup ⟨2⟩).map (·.neighbors 0) = some [⟨1⟩, ⟨3⟩, ⟨4⟩] := by
      decide +kernel
    have hgone : (⟨4⟩ : ObjKey) ∉ (Run.run (step gridMetrics)
        (HNSWIndex.new (HNSWIndexConfig.ofMetric .euclidean)) eraseAfterFourInserts).vectors := by
      decide +kernel
    cases hn : (Run.run (step gridMetrics) (HNSWIndex.new (HNSWIndexConfig.ofMetric .euclidean))
        eraseAfterFourInserts).vectors.lookup ⟨2⟩ with
    | none => simp [hn] at hlist
    | some n =>
      rw [hn, Option.map_some, Option.some.injEq] at hlist
      exact hgone (h.closed _ n hn 0 ⟨4⟩ (by simp [hlist]))
  · intro h
    have hnode : ((Run.run (step gridMetrics) (HNSWIndex.new (HNSWIndexConfig.ofMetric .euclidean))
        insertAboveEntryPoint).vectors.lookup ⟨1⟩).map (fun n => (n.layer, n.connections.length)) =
        some (0, 2) := by
      decide +kernel
    cases hn : (Run.run (step gridMetrics) (HNSWIndex.new (HNSWIndexConfig.ofMetric .euclidean))
        insertAboveEntryPoint).vectors.lookup ⟨1⟩ with
    | none => simp [hn] at hnode
    | some n =>
      rw [hn, Option.map_some, Option.some.injEq, Prod.mk.injEq] at hnode
      have hlen := h.length_connections _ n hn
      omega

end Realm
