import Mathlib
import RealmCore.Lib.AListModify
import RealmCore.Lib.Binary64
import RealmCore.ObjKey

/-!
# HNSW index: keys, configuration, nodes and the graph primitives

The state of `realm::HNSWIndex` (src/realm/index_hnsw.hpp) and the two graph primitives every
other operation is built from, `connect_nodes` and `disconnect_nodes`
(src/realm/index_hnsw.cpp).

`m_vectors` is a `std::unordered_map<int64_t, Node>`.  It is modelled by an `AList` keyed by
`ObjKey`, whose entry order stands for the unspecified iteration order of the map; a write
through the reference `find` returns is `AList.modify`.  Vector elements are doubles, kept as
bit patterns: the index stores them and hands them to the distance functions, which are the
only floating-point code it runs, and which the model takes as parameters.

The layer of a new node comes from `select_layer`, a draw from a random number generator
capped at `k_max_layer_cap`; the model takes the draw as an input, and leaves out `ml` and
`random_seed`, which only the draw reads.  A `size_t` is a `UInt64`; loop counters and layer
numbers, which stay small, are natural numbers.

Every graph primitive changes neighbour lists only: `SameData` relates two node maps with the
same keys and, under each key, the same object key, vector and layer.
-/

namespace Realm

/-- `realm::DistanceMetric`. -/
inductive DistanceMetric
  | euclidean
  | cosine
  | dotProduct
deriving DecidableEq, Repr

/-- `realm::HNSWIndexConfig`, without `ml` and `random_seed`. -/
structure HNSWIndexConfig where
  metric : DistanceMetric
  M : UInt64
  M0 : UInt64
  efConstruction : UInt64
  efSearch : UInt64
  vectorDimension : UInt64
deriving DecidableEq, Repr

namespace HNSWIndexConfig

/-- `HNSWIndexConfig(DistanceMetric)` with the defaults of hnsw_config.hpp. -/
def ofMetric (metric : DistanceMetric) : HNSWIndexConfig :=
  { metric, M := 16, M0 := 32, efConstruction := 200, efSearch := 50, vectorDimension := 0 }

/-- The defaults both constructors of `HNSWIndex` fill in after taking the configuration:
`M0 = M * 2` and `ef_search = max(64, M * 8)` where they are zero. -/
def normalize (c : HNSWIndexConfig) : HNSWIndexConfig :=
  let c := if c.M0 = 0 then { c with M0 := c.M * 2 } else c
  if c.efSearch = 0 then { c with efSearch := max 64 (c.M * 8) } else c

/-- `(layer == 0) ? m_config.M0 : m_config.M`, the degree bound of a layer. -/
def maxConn (c : HNSWIndexConfig) (layer : Nat) : Nat :=
  if layer = 0 then c.M0.toNat else c.M.toNat

end HNSWIndexConfig

/-- `HNSWIndex::Node`: `layer` is the layer drawn for the node and `connections[l]` its
neighbour list at layer `l`. -/
structure Node where
  objKey : ObjKey
  vector : List Binary64
  layer : Nat
  connections : List (List ObjKey)
deriving DecidableEq, Repr

namespace Node

/-- What a node holds besides its neighbour lists. -/
def data (n : Node) : ObjKey × List Binary64 × Nat :=
  (n.objKey, n.vector, n.layer)

/-- `connections[layer]`; a layer the node has no list for reads as empty. -/
def neighbors (n : Node) (layer : Nat) : List ObjKey :=
  n.connections.getD layer []

/-- `while (connections.size() <= layer) connections.push_back({})`. -/
def ensureLayer (n : Node) (layer : Nat) : Node :=
  { n with connections := n.connections ++ List.replicate (layer + 1 - n.connections.length) [] }

/-- `if (std::find(conn.begin(), conn.end(), k) == conn.end()) conn.push_back(k)` on the list
at `layer`, which exists. -/
def addNeighbor (n : Node) (layer : Nat) (k : ObjKey) : Node :=
  if k ∈ n.neighbors layer then n
  else { n with connections := n.connections.set layer (n.neighbors layer ++ [k]) }

/-- `conn.erase(std::remove(conn.begin(), conn.end(), k), conn.end())` on the list at
`layer`, when the node has one. -/
def removeNeighbor (n : Node) (layer : Nat) (k : ObjKey) : Node :=
  if layer < n.connections.length then
    { n with connections := n.connections.modify layer (·.filter (· != k)) }
  else n

/-- `connections[layer] = l`. -/
def setNeighbors (n : Node) (layer : Nat) (l : List ObjKey) : Node :=
  { n with connections := n.connections.set layer l }

@[simp] lemma data_ensureLayer (n : Node) (layer : Nat) : (n.ensureLayer layer).data = n.data :=
  rfl

@[simp] lemma data_addNeighbor (n : Node) (layer : Nat) (k : ObjKey) :
    (n.addNeighbor layer k).data = n.data := by
  unfold addNeighbor
  split <;> rfl

@[simp] lemma data_removeNeighbor (n : Node) (layer : Nat) (k : ObjKey) :
    (n.removeNeighbor layer k).data = n.data := by
  unfold removeNeighbor
  split <;> rfl

@[simp] lemma data_setNeighbors (n : Node) (layer : Nat) (l : List ObjKey) :
    (n.setNeighbors layer l).data = n.data :=
  rfl

end Node

/-- `m_vectors`, keyed by `ObjKey` rather than by its value. -/
abbrev NodeMap := AList fun _ : ObjKey => Node

/-- The in-memory state of `realm::HNSWIndex`: its configuration, `m_vectors`,
`m_entry_point` and `m_entry_point_layer`. -/
structure HNSWIndex where
  config : HNSWIndexConfig
  vectors : NodeMap
  entryPoint : ObjKey
  entryPointLayer : Int

namespace NodeMap

/-- Same keys, and under each key the same object key, vector and layer. -/
def SameData (m m' : NodeMap) : Prop :=
  ∀ k, (m.lookup k).map Node.data = (m'.lookup k).map Node.data

lemma SameData.refl (m : NodeMap) : SameData m m := fun _ => rfl

lemma SameData.symm {m m' : NodeMap} (h : SameData m m') : SameData m' m :=
  fun k => (h k).symm

lemma SameData.trans {m₁ m₂ m₃ : NodeMap} (h₁₂ : SameData m₁ m₂) (h₂₃ : SameData m₂ m₃) :
    SameData m₁ m₃ :=
  fun k => (h₁₂ k).trans (h₂₃ k)

/-- Two node maps with the same data have the same keys. -/
lemma SameData.mem_iff {m m' : NodeMap} (h : SameData m m') (k : ObjKey) : k ∈ m ↔ k ∈ m' := by
  have hk := h k
  rw [← AList.lookup_isSome, ← AList.lookup_isSome]
  cases h₁ : m.lookup k <;> cases h₂ : m'.lookup k <;> simp_all

/-- A node of the second map has a node of the same data in the first. -/
lemma SameData.lookup_eq_some {m m' : NodeMap} (h : SameData m m') {k : ObjKey} {n' : Node}
    (hn' : m'.lookup k = some n') : ∃ n, m.lookup k = some n ∧ n.data = n'.data := by
  have hk := h k
  rw [hn', Option.map_some] at hk
  cases hm : m.lookup k with
  | none => simp [hm] at hk
  | some n =>
    rw [hm, Option.map_some, Option.some.injEq] at hk
    exact ⟨n, rfl, hk⟩

lemma entries_eq_nil_iff {m : NodeMap} : m.entries = [] ↔ ∀ k, k ∉ m := by
  constructor
  · intro h k hk
    rw [AList.mem_keys, AList.keys, h] at hk
    simp at hk
  · intro h
    by_contra hne
    obtain ⟨e, he⟩ := List.exists_mem_of_ne_nil _ hne
    exact h e.1 (AList.mem_keys.mpr (List.mem_map_of_mem he))

/-- Two node maps with the same data are empty together. -/
lemma SameData.entries_eq_nil_iff {m m' : NodeMap} (h : SameData m m') :
    m.entries = [] ↔ m'.entries = [] := by
  rw [NodeMap.entries_eq_nil_iff, NodeMap.entries_eq_nil_iff]
  exact forall_congr' fun k => not_congr (h.mem_iff k)

/-- An in-place update that keeps the node's data keeps the map's. -/
lemma sameData_modify (m : NodeMap) (k : ObjKey) {f : Node → Node}
    (hf : ∀ n, (f n).data = n.data) : SameData m (m.modify k f) := by
  intro k'
  by_cases hk : k' = k
  · subst hk
    rw [AList.lookup_modify_self]
    cases m.lookup k' <;> simp [hf]
  · rw [AList.lookup_modify_ne hk]

end NodeMap

open NodeMap

/-- `HNSWIndex::connect_nodes`: when both nodes exist, give each a list at `layer` and add
each to the other's list there unless already present. -/
def connectNodes (m : NodeMap) (node1 node2 : ObjKey) (layer : Nat) : NodeMap :=
  if node1 ∈ m ∧ node2 ∈ m then
    let m := m.modify node1 (·.ensureLayer layer)
    let m := m.modify node2 (·.ensureLayer layer)
    let m := m.modify node1 (·.addNeighbor layer node2)
    m.modify node2 (·.addNeighbor layer node1)
  else m

/-- `HNSWIndex::disconnect_nodes`: when both nodes exist, remove each from the other's list
at `layer`. -/
def disconnectNodes (m : NodeMap) (node1 node2 : ObjKey) (layer : Nat) : NodeMap :=
  if node1 ∈ m ∧ node2 ∈ m then
    (m.modify node1 (·.removeNeighbor layer node2)).modify node2 (·.removeNeighbor layer node1)
  else m

lemma sameData_connectNodes (m : NodeMap) (node1 node2 : ObjKey) (layer : Nat) :
    SameData m (connectNodes m node1 node2 layer) := by
  unfold connectNodes
  split
  · refine ((((sameData_modify _ _ ?_).trans (sameData_modify _ _ ?_)).trans
      (sameData_modify _ _ ?_)).trans (sameData_modify _ _ ?_)) <;> simp
  · exact SameData.refl m

lemma sameData_disconnectNodes (m : NodeMap) (node1 node2 : ObjKey) (layer : Nat) :
    SameData m (disconnectNodes m node1 node2 layer) := by
  unfold disconnectNodes
  split
  · exact (sameData_modify _ _ (by simp)).trans (sameData_modify _ _ (by simp))
  · exact SameData.refl m

end Realm
