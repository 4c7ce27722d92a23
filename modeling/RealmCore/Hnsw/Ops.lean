import Mathlib
import RealmCore.Lib.EraseRemove
import RealmCore.Lib.Run
import RealmCore.Hnsw.Search

/-!
# HNSW index: the write operations

`prune_connections`, `insert`, `erase`, `set` and `clear` of src/realm/index_hnsw.cpp, and
the index as a state machine over them.

`erase` and `prune_connections` call `disconnect_nodes(node, other, layer)` from inside a
range-`for` over `node.connections[layer]`, and `disconnect_nodes` erases `other` from that
very vector.  The loops are modelled with `EraseRemove.rangeFor`: each iteration reads the
vector's storage as the erases before it have left it.

`insert` takes the vector `get_vector_for_key` reads from the table and the layer
`select_layer` draws; the draw is at most `k_max_layer_cap`.  A call that throws leaves the
state it threw from: `insert` throws before it changes anything, `set` after its `erase`.
-/

namespace Realm

open EraseRemove

variable {D : Type*} [LinearOrder D]

/-- `k_max_layer_cap` of `select_layer`. -/
def kMaxLayerCap : Nat := 32

lemma kMaxLayerCap_eq : kMaxLayerCap = 32 := rfl

/-- A layer is a `Fin (kMaxLayerCap + 1)`; its literals name this instance. -/
instance (priority := high) neZero_kMaxLayerCap_succ : NeZero (kMaxLayerCap + 1) :=
  ⟨Nat.succ_ne_zero _⟩

/-- `InvalidArgument`, as `validate_vector_dimension` throws it. -/
structure InvalidArgument where
  message : String
deriving DecidableEq, Repr

/-- `HNSWIndex::validate_vector_dimension`: the first vector fixes the dimension, a vector of
another length is refused. -/
def validateVectorDimension (c : HNSWIndexConfig) (vector : List Binary64) :
    Except InvalidArgument HNSWIndexConfig :=
  if c.vectorDimension = 0 then .ok { c with vectorDimension := vector.length.toUInt64 }
  else if vector.length.toUInt64 ≠ c.vectorDimension then
    .error ⟨"Vector dimension mismatch: expected " ++ toString c.vectorDimension.toNat ++
      " but got " ++ toString vector.length⟩
  else .ok c

/-- The dimension check passes exactly when there is no dimension yet, which the vector then
fixes, or the vector has it. -/
lemma validateVectorDimension_eq_ok {c c' : HNSWIndexConfig} {vector : List Binary64} :
    validateVectorDimension c vector = .ok c' ↔
      (c.vectorDimension = 0 ∧ c' = { c with vectorDimension := vector.length.toUInt64 }) ∨
      (c.vectorDimension ≠ 0 ∧ vector.length.toUInt64 = c.vectorDimension ∧ c' = c) := by
  unfold validateVectorDimension
  by_cases h0 : c.vectorDimension = 0
  · simp [h0, eq_comm]
  · by_cases hlen : vector.length.toUInt64 = c.vectorDimension
    · simp [h0, hlen, eq_comm]
    · simp [h0, hlen]

/-- The dimension check fails exactly on a vector of another length than a fixed dimension. -/
lemma validateVectorDimension_eq_error {c : HNSWIndexConfig} {vector : List Binary64}
    {e : InvalidArgument} (h : validateVectorDimension c vector = .error e) :
    c.vectorDimension ≠ 0 ∧ vector.length.toUInt64 ≠ c.vectorDimension := by
  unfold validateVectorDimension at h
  by_cases h0 : c.vectorDimension = 0
  · simp [h0] at h
  · by_cases hlen : vector.length.toUInt64 = c.vectorDimension
    · simp [h0, hlen] at h
    · exact ⟨h0, hlen⟩

/-- `disconnect_nodes(node, other, layer)` called from a range-`for` over `node`'s own list at
`layer`, whose storage is `st`: the erase from that list is also an erase from `st`. -/
def disconnectIterated (m : NodeMap) (st : Storage ObjKey) (node other : ObjKey) (layer : Nat) :
    NodeMap × Storage ObjKey :=
  if node ∈ m ∧ other ∈ m then (disconnectNodes m node other layer, st.eraseRemove other)
  else (m, st)

section Ops

variable (dist : Metrics D)

/-- The candidates of `prune_connections`: the neighbours at `layer` that are nodes, with
their distances to the pruned node, sorted by distance. -/
def pruneCandidates (s : HNSWIndex) (node : Node) (layer : Nat) : List (ObjKey × D) :=
  ((node.neighbors layer).filterMap fun nk =>
    (s.vectors.lookup nk).map fun nb => (nk, computeDistance dist s.config.metric node.vector nb.vector)
    ).insertionSort (fun a b => a.2 ≤ b.2)

/-- The body of the loop of `prune_connections` over the old neighbours. -/
def pruneBody (nodeKey : ObjKey) (layer : Nat) (newNeighbors : List ObjKey) (m : NodeMap)
    (st : Storage ObjKey) (old : ObjKey) : NodeMap × Storage ObjKey :=
  if old ∈ newNeighbors then (m, st) else disconnectIterated m st nodeKey old layer

/-- `HNSWIndex::prune_connections`: when the list of `nodeKey` at `layer` is over the degree
bound, keep the neighbours the heuristic selects, disconnecting the others. -/
def pruneConnections (s : HNSWIndex) (nodeKey : ObjKey) (layer : Nat) : HNSWIndex :=
  match s.vectors.lookup nodeKey with
  | none => s
  | some node =>
    if node.connections.length ≤ layer then s
    else if (node.neighbors layer).length ≤ s.config.maxConn layer then s
    else
      let newNeighbors := selectNeighborsHeuristic dist s node.vector
        (pruneCandidates dist s node layer) (s.config.maxConn layer) layer false
      let m := rangeFor (pruneBody nodeKey layer newNeighbors) 0 (node.neighbors layer).length
        s.vectors (Storage.ofList (node.neighbors layer))
      { s with vectors := m.modify nodeKey (·.setNeighbors layer newNeighbors) }

/-- The greedy descent `for (lc = top; lc > bottom; --lc)` of `insert` and `search_knn`:
`k` layers above `bottom`, each searched with `ef = 1` from the current nearest node. -/
def descend (s : HNSWIndex) (query : List Binary64) (bottom : Nat) : Nat → ObjKey → ObjKey
  | 0, curr => curr
  | k + 1, curr => descend s query bottom k ((searchLayer dist s query 1 curr (bottom + k + 1)).headD curr)

/-- The connection loop `for (lc = node_layer; lc >= 0; --lc)` of `insert`, over the `k`
layers below `k`: search the layer from the current nearest node, select neighbours, connect
the new node to them, prune them, and move to the nearest node found. -/
def connectLayers (s : HNSWIndex) (key : ObjKey) (query : List Binary64) :
    Nat → ObjKey → HNSWIndex
  | 0, _ => s
  | lc + 1, curr =>
    let candidates := searchLayerWithDistances dist s query s.config.efConstruction.toNat curr lc
    let neighbors :=
      if lc = 0 then selectNeighborsSimple candidates (s.config.maxConn lc)
      else selectNeighborsHeuristic dist s query candidates (s.config.maxConn lc) lc true
    let s := neighbors.foldl (fun s nb => { s with vectors := connectNodes s.vectors key nb lc }) s
    let s := neighbors.foldl (fun s nb => pruneConnections dist s nb lc) s
    connectLayers s key query lc ((candidates.head?.map Prod.fst).getD curr)

/-- `new_node` as `insert` builds it: no neighbours yet at any of its layers. -/
def newNode (key : ObjKey) (vector : List Binary64) (nodeLayer : Nat) : Node :=
  ⟨key, vector, nodeLayer, List.replicate (nodeLayer + 1) []⟩

/-- `HNSWIndex::insert` of `key` with the table's vector `vector` and the drawn layer
`nodeLayer`. -/
def insert (s : HNSWIndex) (key : ObjKey) (vector : List Binary64) (nodeLayer : Nat) :
    Except InvalidArgument HNSWIndex :=
  if vector.isEmpty then .ok s
  else do
    let config ← validateVectorDimension s.config vector
    let s := { s with config }
    if s.vectors.entries.isEmpty then
      return { s with vectors := s.vectors.insert key (newNode key vector nodeLayer),
                      entryPoint := key, entryPointLayer := nodeLayer }
    let curr := descend dist s vector nodeLayer (s.entryPointLayer - nodeLayer).toNat s.entryPoint
    let s := connectLayers dist
      { s with vectors := s.vectors.insert key (newNode key vector nodeLayer) } key vector
      (nodeLayer + 1) curr
    if s.entryPointLayer < nodeLayer then
      return { s with entryPoint := key, entryPointLayer := nodeLayer }
    return s

end Ops

/-- The loop of `erase` over the list of `key` at `layer`, when it has one. -/
def disconnectLayer (m : NodeMap) (key : ObjKey) (layer : Nat) : NodeMap :=
  match m.lookup key with
  | some n =>
    if layer < n.connections.length then
      rangeFor (fun m st nb => disconnectIterated m st key nb layer) 0 (n.neighbors layer).length
        m (Storage.ofList (n.neighbors layer))
    else m
  | none => m

/-- The entry point rescan of `erase`: the first node of highest layer in iteration order,
or the null key and `-1` when there is none. -/
def rescanEntryPoint (m : NodeMap) : ObjKey × Int :=
  m.entries.foldl (fun acc e => if acc.2 < e.2.layer then (e.2.objKey, e.2.layer) else acc)
    (ObjKey.null, -1)

/-- `HNSWIndex::erase`. -/
def erase (s : HNSWIndex) (key : ObjKey) : HNSWIndex :=
  match s.vectors.lookup key with
  | none => s
  | some node =>
    let m := (List.range (node.layer + 1)).foldl (fun m layer => disconnectLayer m key layer)
      s.vectors
    let m := m.erase key
    if key = s.entryPoint then
      { s with vectors := m, entryPoint := (rescanEntryPoint m).1,
               entryPointLayer := (rescanEntryPoint m).2 }
    else { s with vectors := m }

/-- `HNSWIndex::clear`. -/
def clear (s : HNSWIndex) : HNSWIndex :=
  { s with vectors := ∅, entryPoint := ObjKey.null, entryPointLayer := -1 }

/-- `HNSWIndex::set`: `erase`, then `insert`. -/
def set (dist : Metrics D) (s : HNSWIndex) (key : ObjKey) (vector : List Binary64)
    (nodeLayer : Nat) : Except InvalidArgument HNSWIndex :=
  insert dist (erase s key) key vector nodeLayer

/-- `HNSWIndex(target_column, alloc, config)`: an empty index. -/
def HNSWIndex.new (config : HNSWIndexConfig) : HNSWIndex :=
  { config := config.normalize, vectors := ∅, entryPoint := ObjKey.null, entryPointLayer := -1 }

/-- The write operations, with the table's vector and the layer draw for the inserting ones. -/
inductive Op
  | insert (key : ObjKey) (vector : List Binary64) (layer : Fin (kMaxLayerCap + 1))
  | erase (key : ObjKey)
  | set (key : ObjKey) (vector : List Binary64) (layer : Fin (kMaxLayerCap + 1))
  | clear

/-- The state after a call that may throw: the one it returned, or the one it threw from. -/
def afterCall (s : HNSWIndex) : Except InvalidArgument HNSWIndex → HNSWIndex
  | .ok s' => s'
  | .error _ => s

/-- One operation on the index. -/
def step (dist : Metrics D) (s : HNSWIndex) : Op → HNSWIndex
  | .insert key vector layer => afterCall s (insert dist s key vector layer)
  | .erase key => erase s key
  | .set key vector layer => afterCall (erase s key) (insert dist (erase s key) key vector layer)
  | .clear => clear s

/-- What the callers of the index promise: `insert` is only called for an object that is not
indexed yet, and object keys are never null. -/
def Op.Admissible (s : HNSWIndex) : Op → Prop
  | .insert key _ _ => key.isSet ∧ key ∉ s.vectors
  | .set key _ _ => key.isSet
  | .erase _ => True
  | .clear => True

end Realm

namespace Realm

/-- Whether a write is admissible can be decided. -/
instance Op.decidableAdmissible (s : HNSWIndex) : (o : Op) → Decidable (o.Admissible s)
  | .insert key _ _ => inferInstanceAs (Decidable (key.isSet ∧ key ∉ s.vectors))
  | .set key _ _ => inferInstanceAs (Decidable key.isSet)
  | .erase _ => isTrue trivial
  | .clear => isTrue trivial

end Realm
