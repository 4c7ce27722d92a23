import Mathlib
import RealmCore.Hnsw.Graph

/-!
# HNSW index: pruning a neighbour list

`prune_connections(x, layer)` (src/realm/index_hnsw.cpp) cuts the list of `x` at `layer` back
to the degree bound once `insert`'s `connect_nodes` has pushed it past: it keeps the
neighbours `select_neighbors_heuristic` selects among them, disconnects the others, and
assigns the selection to the list.

Called as `prune_connections` calls it, the heuristic selects a sublist of the candidates, at
most `M` of them, starting with the first (`selectNeighborsHeuristic_spec`).  The new list of
`x` is a subset of the old one within the bound, and every other node either keeps its node
or loses `x` from its list at `layer`, and then it was an old neighbour that was dropped
(`pruneConnections_spec`).  On a well formed graph every list is within its bound and pruning
does nothing (`pruneConnections_of_wellFormed`).

Not every dropped neighbour loses `x`, though.  The disconnection loop is a range-`for` over
the list `disconnect_nodes` erases from, so a dropped neighbour right after another dropped
one moves into the slot just visited and is never disconnected
(`pruneConnections_skips_dropped_neighbor`).
-/

namespace Realm

open EraseRemove NodeMap

namespace Node

lemma setNeighbors_neighbors {n : Node} {layer : Nat} (h : layer < n.connections.length) :
    n.setNeighbors layer (n.neighbors layer) = n := by
  cases n
  unfold setNeighbors neighbors
  simp_all

@[simp] lemma setNeighbors_setNeighbors (n : Node) (layer : Nat) (l l' : List ObjKey) :
    (n.setNeighbors layer l).setNeighbors layer l' = n.setNeighbors layer l' := by
  unfold setNeighbors
  simp

lemma removeNeighbor_setNeighbors {n : Node} {layer : Nat} (h : layer < n.connections.length)
    (l : List ObjKey) (k : ObjKey) :
    (n.setNeighbors layer l).removeNeighbor layer k = n.setNeighbors layer (l.filter (· != k)) := by
  unfold removeNeighbor setNeighbors
  simp only [List.length_set, h, if_true, Node.mk.injEq, true_and]
  refine List.ext_getElem? fun i => ?_
  rw [List.getElem?_modify, List.getElem?_set, List.getElem?_set]
  split_ifs <;> simp_all

/-- Removing a neighbour twice removes it once. -/
lemma removeNeighbor_removeNeighbor (n : Node) (layer : Nat) (k : ObjKey) :
    (n.removeNeighbor layer k).removeNeighbor layer k = n.removeNeighbor layer k := by
  unfold removeNeighbor
  split
  · simp only [List.length_modify, *, if_true, List.modify_modify_eq, Node.mk.injEq, true_and]
    congr 1
    funext l
    simp [List.filter_filter]
  · simp_all

end Node

variable {D : Type*} [LinearOrder D] (dist : Metrics D)

/-! ## The selection -/

section Selection

variable (s : HNSWIndex)

lemma selectDiverse_nil (M : Nat) (result : List ObjKey) :
    selectDiverse dist s M ([] : List (ObjKey × D)) result = result := rfl

lemma selectDiverse_cons (M : Nat) (c : ObjKey × D) (cs : List (ObjKey × D))
    (result : List ObjKey) :
    selectDiverse dist s M (c :: cs) result =
      if M ≤ result.length then result
      else selectDiverse dist s M cs (if shouldAdd dist s result c then result ++ [c.1] else result) :=
  rfl

/-- The selection loop only appends, and what it appends are candidates, in their order. -/
lemma selectDiverse_eq_append (M : Nat) :
    ∀ (cs : List (ObjKey × D)) (result : List ObjKey),
      ∃ l, l.Sublist (cs.map Prod.fst) ∧ selectDiverse dist s M cs result = result ++ l := by
  intro cs
  induction cs with
  | nil => exact fun result => ⟨[], List.Sublist.slnil, by rw [selectDiverse_nil, List.append_nil]⟩
  | cons c cs ih =>
    intro result
    rw [selectDiverse_cons]
    split
    · exact ⟨[], List.nil_sublist _, by simp⟩
    · split
      · obtain ⟨l, hl, heq⟩ := ih (result ++ [c.1])
        exact ⟨c.1 :: l, hl.cons_cons c.1, by simp [heq]⟩
      · obtain ⟨l, hl, heq⟩ := ih result
        exact ⟨l, hl.cons c.1, heq⟩

/-- The loop stops once `M` are selected, so it never selects more. -/
lemma length_selectDiverse_le (M : Nat) :
    ∀ (cs : List (ObjKey × D)) (result : List ObjKey), result.length ≤ M →
      (selectDiverse dist s M cs result).length ≤ M := by
  intro cs
  induction cs with
  | nil => exact fun _ h => h
  | cons c cs ih =>
    intro result h
    rw [selectDiverse_cons]
    split
    · exact h
    · next hlt =>
      apply ih
      split
      · rw [List.length_append, List.length_singleton]
        omega
      · exact h

/-- With room for one, the first candidate is selected: nothing is selected yet to reject it. -/
lemma selectDiverse_cons_nil {M : Nat} (hM : 0 < M) (c : ObjKey × D) (cs : List (ObjKey × D)) :
    ∃ l, selectDiverse dist s M (c :: cs) [] = c.1 :: l := by
  have hadd : shouldAdd dist s [] c = true := by
    unfold shouldAdd
    split <;> simp
  obtain ⟨l, -, heq⟩ := selectDiverse_eq_append dist s M cs [c.1]
  refine ⟨l, ?_⟩
  rw [selectDiverse_cons, if_neg (by simp; omega), hadd, if_pos rfl, List.nil_append, heq]
  rfl

/-- `select_neighbors_heuristic` without extension, as `prune_connections` calls it: the
selection is a sublist of the candidates' keys, so distinct keys give distinct neighbours; it
holds at most `M`; and it starts with the first candidate when `M` is positive. -/
theorem selectNeighborsHeuristic_spec (query : List Binary64) (candidates : List (ObjKey × D))
    (M layer : Nat) :
    (selectNeighborsHeuristic dist s query candidates M layer false).Sublist
        (candidates.map Prod.fst) ∧
      ((candidates.map Prod.fst).Nodup →
        (selectNeighborsHeuristic dist s query candidates M layer false).Nodup) ∧
      (selectNeighborsHeuristic dist s query candidates M layer false).length ≤ M ∧
      (0 < M → (selectNeighborsHeuristic dist s query candidates M layer false).head? =
        (candidates.map Prod.fst).head?) := by
  have hws : selectNeighborsHeuristic dist s query candidates M layer false =
      selectDiverse dist s M candidates [] := rfl
  have hsub : (selectDiverse dist s M candidates []).Sublist (candidates.map Prod.fst) := by
    obtain ⟨l, hl, heq⟩ := selectDiverse_eq_append dist s M candidates []
    rwa [heq, List.nil_append]
  refine ⟨hws ▸ hsub, fun hnd => hws ▸ hsub.nodup hnd,
    hws ▸ length_selectDiverse_le dist s M candidates [] (Nat.zero_le M), fun hM => ?_⟩
  rw [hws]
  cases candidates with
  | nil => rfl
  | cons c cs =>
    obtain ⟨l, hl⟩ := selectDiverse_cons_nil dist s hM c cs
    simp [hl]

end Selection

/-! ## The disconnection loop -/

section Prune

variable (x : ObjKey) (layer : Nat) (n₀ : Node) (newNeighbors : List ObjKey)

/-- What the disconnection loop of `prune_connections` keeps, against the map `m₀` it starts
from, when `x` is the node `n₀` there: the storage holds old neighbours of `x`; `x` is `n₀`
with some list at `layer`; and every other node is as it was, or has lost `x` from its list
at `layer` and is an old neighbour the selection dropped. -/
def PruneInv (m₀ m : NodeMap) (st : Storage ObjKey) : Prop :=
  (∀ y ∈ st.buf, y ∈ n₀.neighbors layer) ∧
    (∃ l, m.lookup x = some (n₀.setNeighbors layer l)) ∧
    ∀ y ≠ x, ∀ n, m₀.lookup y = some n →
      m.lookup y = some n ∨
        (y ∈ n₀.neighbors layer ∧ y ∉ newNeighbors ∧ m.lookup y = some (n.removeNeighbor layer x))

/-- One iteration keeps the invariant: it disconnects `x` from a value read from the storage,
which is an old neighbour, and only when the selection dropped it. -/
lemma PruneInv.pruneBody {m₀ m : NodeMap} {st : Storage ObjKey} {old : ObjKey}
    (hlayer : layer < n₀.connections.length) (hold : old ∈ st.buf)
    (h : PruneInv x layer n₀ newNeighbors m₀ m st) :
    PruneInv x layer n₀ newNeighbors m₀ (Realm.pruneBody x layer newNeighbors m st old).1
      (Realm.pruneBody x layer newNeighbors m st old).2 := by
  obtain ⟨hst, ⟨l, hx⟩, hothers⟩ := h
  unfold Realm.pruneBody disconnectIterated
  by_cases hnew : old ∈ newNeighbors
  · rw [if_pos hnew]
    exact ⟨hst, ⟨l, hx⟩, hothers⟩
  rw [if_neg hnew]
  by_cases hm : x ∈ m ∧ old ∈ m
  swap
  · rw [if_neg hm]
    exact ⟨hst, ⟨l, hx⟩, hothers⟩
  rw [if_pos hm]
  unfold disconnectNodes
  rw [if_pos hm]
  refine ⟨fun y hy => hst y (Storage.mem_buf_eraseRemove hy), ?_, fun y hyx n hn => ?_⟩
  · by_cases hxo : x = old
    · -- a self-loop: both removals hit the list of `x`
      refine ⟨(l.filter (· != old)).filter (· != x), ?_⟩
      subst hxo
      simp [hx, Node.removeNeighbor_setNeighbors hlayer]
    · refine ⟨l.filter (· != old), ?_⟩
      rw [AList.lookup_modify_ne hxo, AList.lookup_modify_self, hx, Option.map_some,
        Node.removeNeighbor_setNeighbors hlayer]
  · by_cases hyo : y = old
    · subst hyo
      refine Or.inr ⟨hst y hold, hnew, ?_⟩
      rw [AList.lookup_modify_self, AList.lookup_modify_ne hyx]
      rcases hothers y hyx n hn with hy | ⟨-, -, hy⟩ <;>
        simp [hy, Node.removeNeighbor_removeNeighbor]
    · rw [AList.lookup_modify_ne hyo, AList.lookup_modify_ne hyx]
      exact hothers y hyx n hn

/-- The whole loop keeps the invariant, from the map where `x` is `n₀` and the storage of its
list. -/
lemma pruneInv_rangeFor {m₀ : NodeMap} (hx : m₀.lookup x = some n₀)
    (hlayer : layer < n₀.connections.length) (k : Nat) :
    ∃ st, PruneInv x layer n₀ newNeighbors m₀
      (rangeFor (pruneBody x layer newNeighbors) 0 k m₀ (Storage.ofList (n₀.neighbors layer)))
      st :=
  rangeFor_induction (I := PruneInv x layer n₀ newNeighbors m₀)
    (fun _ _ _ hold h => h.pruneBody x layer n₀ newNeighbors hlayer hold) 0 k m₀ _
    ⟨fun _ hy => hy, ⟨n₀.neighbors layer, by rw [hx, Node.setNeighbors_neighbors hlayer]⟩,
      fun _ _ _ hn => Or.inl hn⟩

end Prune

/-- The candidates of `prune_connections` are neighbours of the pruned node. -/
lemma mem_neighbors_of_mem_pruneCandidates {s : HNSWIndex} {node : Node} {layer : Nat}
    {c : ObjKey × D} (hc : c ∈ pruneCandidates dist s node layer) : c.1 ∈ node.neighbors layer := by
  unfold pruneCandidates at hc
  rw [(List.perm_insertionSort _ _).mem_iff, List.mem_filterMap] at hc
  obtain ⟨nk, hnk, hmap⟩ := hc
  obtain ⟨nb, -, rfl⟩ := Option.map_eq_some_iff.mp hmap
  exact hnk

/-- What `prune_connections(x, layer)` does on a layer `x` has a list for: the list of `x`
becomes a subset of the old one within the degree bound, and every other node keeps its node,
or loses `x` from its list at `layer` and then was an old neighbour that was dropped. -/
theorem pruneConnections_spec {s : HNSWIndex} {x : ObjKey} {n₀ : Node} {layer : Nat}
    (hx : s.vectors.lookup x = some n₀) (hlayer : layer < n₀.connections.length) :
    ∃ new, new ⊆ n₀.neighbors layer ∧ new.length ≤ s.config.maxConn layer ∧
      (pruneConnections dist s x layer).vectors.lookup x = some (n₀.setNeighbors layer new) ∧
      ∀ y ≠ x, ∀ n, s.vectors.lookup y = some n →
        (pruneConnections dist s x layer).vectors.lookup y = some n ∨
          (y ∈ n₀.neighbors layer ∧ y ∉ new ∧
            (pruneConnections dist s x layer).vectors.lookup y = some (n.removeNeighbor layer x)) := by
  unfold pruneConnections
  simp only [hx, if_neg (Nat.not_le.mpr hlayer)]
  by_cases hle : (n₀.neighbors layer).length ≤ s.config.maxConn layer
  · rw [if_pos hle]
    exact ⟨n₀.neighbors layer, List.Subset.refl _, hle,
      by rw [hx, Node.setNeighbors_neighbors hlayer], fun _ _ _ hn => Or.inl hn⟩
  rw [if_neg hle]
  obtain ⟨hsub, -, hlen, -⟩ := selectNeighborsHeuristic_spec dist s n₀.vector
    (pruneCandidates dist s n₀ layer) (s.config.maxConn layer) layer
  obtain ⟨st, -, ⟨l, hxl⟩, hothers⟩ := pruneInv_rangeFor x layer n₀
    (selectNeighborsHeuristic dist s n₀.vector (pruneCandidates dist s n₀ layer)
      (s.config.maxConn layer) layer false) hx hlayer (n₀.neighbors layer).length
  refine ⟨_, fun y hy => ?_, hlen, ?_, fun y hyx n hn => ?_⟩
  · obtain ⟨c, hc, rfl⟩ := List.mem_map.mp (hsub.subset hy)
    exact mem_neighbors_of_mem_pruneCandidates dist hc
  · simp only [AList.lookup_modify_self, hxl, Option.map_some, Node.setNeighbors_setNeighbors]
  · rw [AList.lookup_modify_ne hyx]
    exact hothers y hyx n hn

/-- On a well formed graph every list is within its bound, so pruning returns at its size
check and changes nothing. -/
theorem pruneConnections_of_wellFormed {s : HNSWIndex} (hwf : WellFormed s) (x : ObjKey)
    (layer : Nat) : pruneConnections dist s x layer = s := by
  unfold pruneConnections
  split
  · rfl
  · next n hn => rw [if_pos (hwf.degree x n hn layer), ite_self]

/-! ## A dropped neighbour the loop skips -/

/-- The default configuration with a degree bound of two at layer 0. -/
def pruneConfig : HNSWIndexConfig :=
  { HNSWIndexConfig.ofMetric .euclidean with M0 := 2 }

/-- Objects 1, 2 and 3 at `0.0`, `2.0` and `3.0`, each drawn at layer 0. -/
def threeOnALine : List Op :=
  [.insert ⟨1⟩ [⟨0x0000000000000000⟩] 0, .insert ⟨2⟩ [⟨0x4000000000000000⟩] 0,
    .insert ⟨3⟩ [⟨0x4008000000000000⟩] 0]

/-- Object 4 at `1.0`, drawn at layer 0. -/
def fourthOnALine : Op :=
  .insert ⟨4⟩ [⟨0x3FF0000000000000⟩] 0

/-- The state in which the insert of object 4 calls its first `prune_connections`: node 4
added and connected to its two nearest nodes, 1 and 2, whose lists are now three long. -/
def connectedFourth : HNSWIndex :=
  let s := Run.run (step gridMetrics) (HNSWIndex.new pruneConfig) threeOnALine
  { s with vectors := connectNodes (connectNodes
      (s.vectors.insert ⟨4⟩ (newNode ⟨4⟩ [⟨0x3FF0000000000000⟩] 0)) ⟨4⟩ ⟨1⟩ 0) ⟨4⟩ ⟨2⟩ 0 }

/-- The three inserts leave a well formed graph, and the fourth prunes node 1 in
`connectedFourth`, then node 2.  Pruning node 1 keeps node 4, the nearest, and drops nodes 2
and 3, which are nearer to node 4 than to node 1.  Disconnecting node 2 erases it from the
list being iterated, node 3 moves into its slot, and the loop goes on with node 4: node 3 keeps
node 1 in its list, and the insert ends with that edge one way only. -/
theorem pruneConnections_skips_dropped_neighbor :
    WellFormed (Run.run (step gridMetrics) (HNSWIndex.new pruneConfig) threeOnALine) ∧
      (Run.run (step gridMetrics) (HNSWIndex.new pruneConfig)
          (threeOnALine ++ [fourthOnALine])).vectors.entries =
        (pruneConnections gridMetrics (pruneConnections gridMetrics connectedFourth ⟨1⟩ 0)
          ⟨2⟩ 0).vectors.entries ∧
      (connectedFourth.vectors.lookup ⟨1⟩).map (·.neighbors 0) = some [⟨2⟩, ⟨3⟩, ⟨4⟩] ∧
      ((pruneConnections gridMetrics connectedFourth ⟨1⟩ 0).vectors.lookup ⟨1⟩).map
          (·.neighbors 0) = some [⟨4⟩] ∧
      ((pruneConnections gridMetrics connectedFourth ⟨1⟩ 0).vectors.lookup ⟨3⟩).map
          (·.neighbors 0) = some [⟨2⟩, ⟨1⟩] ∧
      Run.Admissible (step gridMetrics) Op.Admissible (HNSWIndex.new pruneConfig)
        (threeOnALine ++ [fourthOnALine]) ∧
      ¬WellFormed (Run.run (step gridMetrics) (HNSWIndex.new pruneConfig)
        (threeOnALine ++ [fourthOnALine])) :=
  ⟨by decide +kernel, by decide +kernel, by decide +kernel, by decide +kernel, by decide +kernel,
    by decide +kernel, by decide +kernel⟩

end Realm
