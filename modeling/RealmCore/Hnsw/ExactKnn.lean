import Mathlib
import RealmCore.Hnsw.LayerSearch

/-!
# HNSW index: exact nearest neighbours

`search_knn(q, k, ef_search)` descends greedily from the entry point to layer 1, then searches
layer 0 from where the descent ends with `ef = min(ef_search, N)` and returns the first
`min(k, N)` results.  The descent ends at a node whatever path it takes (`descend_mem`), so on
a well-formed index whose layer-0 graph is connected every node is reachable from the start
of the layer-0 search.  With an explicit `ef_search` of at least `N` that search has `ef = N`,
the number of nodes reachable from its start, so by `searchLayerWithDistances_result` it
returns every node, each once, nearest first; the first `min(k, N)` of them are then `k`
nearest nodes.
-/

namespace Realm

variable {D : Type*} [LinearOrder D] {dist : Metrics D} {s : HNSWIndex} {query : List Binary64}

/-- The graph at `layer` is connected: any two nodes are joined by a path of edges of `layer`,
each taken either way. -/
def LayerConnected (s : HNSWIndex) (layer : Nat) : Prop :=
  ∀ a ∈ s.vectors, ∀ b ∈ s.vectors,
    Relation.ReflTransGen (fun x y => LayerEdge s layer x y ∨ LayerEdge s layer y x) a b

/-- A node with an edge, one way or the other, to every other node makes the layer
connected. -/
lemma layerConnected_of_hub {layer : Nat} (hub : ObjKey)
    (h : ∀ b ∈ s.vectors.keys, b = hub ∨ LayerEdge s layer hub b ∨ LayerEdge s layer b hub) :
    LayerConnected s layer := by
  let R := fun x y => LayerEdge s layer x y ∨ LayerEdge s layer y x
  -- every node is one step or none from the hub, either way
  have toHub : ∀ x ∈ s.vectors, Relation.ReflTransGen R x hub ∧ Relation.ReflTransGen R hub x := by
    intro x hx
    rcases h x (AList.mem_keys.mpr hx) with rfl | hedge | hedge
    · exact ⟨Relation.ReflTransGen.refl, Relation.ReflTransGen.refl⟩
    · exact ⟨Relation.ReflTransGen.single (Or.inr hedge), Relation.ReflTransGen.single (Or.inl hedge)⟩
    · exact ⟨Relation.ReflTransGen.single (Or.inl hedge), Relation.ReflTransGen.single (Or.inr hedge)⟩
  intro a ha b hb
  exact (toHub a ha).1.trans (toHub b hb).2

/-- In a well-formed graph an edge can be taken both ways. -/
lemma WellFormed.layerEdge_symm (hwf : WellFormed s) {layer : Nat} {a b : ObjKey}
    (h : LayerEdge s layer a b) : LayerEdge s layer b a := by
  obtain ⟨na, hna, hb, hbmem⟩ := h
  obtain ⟨nb, hnb⟩ := Option.isSome_iff_exists.mp (AList.lookup_isSome.mpr hbmem)
  exact ⟨nb, hnb, (hwf.symmetric a na b nb hna hnb layer).mp hb,
    AList.lookup_isSome.mp (by rw [hna]; rfl)⟩

/-- In a well-formed, connected graph every node is reachable from every node. -/
lemma WellFormed.mem_reachableAt (hwf : WellFormed s) {layer : Nat}
    (hconn : LayerConnected s layer) {a b : ObjKey} (ha : a ∈ s.vectors) (hb : b ∈ s.vectors) :
    b ∈ reachableAt s layer a :=
  Relation.ReflTransGen.mono (fun _ _ hxy => hxy.elim id hwf.layerEdge_symm) a b
    (hconn a ha b hb)

/-- The greedy descent from a node ends at a node: each layer's search returns nodes. -/
lemma descend_mem {bottom : Nat} :
    ∀ (k : Nat) {curr : ObjKey}, curr ∈ s.vectors → descend dist s query bottom k curr ∈ s.vectors
  | 0, _, h => h
  | k + 1, curr, h => by
    rw [descend]
    refine descend_mem k ?_
    cases hl : searchLayer dist s query 1 curr (bottom + k + 1) with
    | nil => exact h
    | cons x xs =>
      have hx : x ∈ searchLayer dist s query 1 curr (bottom + k + 1) := hl ▸ List.mem_cons_self
      obtain ⟨c, hc, rfl⟩ := List.mem_map.mp hx
      obtain ⟨n, hn, -⟩ := isFound_of_mem_searchLayerWithDistances hc
      show c.1 ∈ s.vectors
      exact AList.lookup_isSome.mp (by rw [hn]; rfl)

/-- On an index with an entry point, a query of the index's dimension, `k ≥ 1` and an explicit
`ef_search` of at least the number of nodes, `search_knn` returns the first `min(k, N)` results
of the layer-0 search with `ef = N` from where the descent ends. -/
lemma searchKnn_eq_take (hinv : EntryPointInvariant s) (hN : s.vectors.entries ≠ [])
    (hdim : query.length.toUInt64 = s.config.vectorDimension) {k efSearch : UInt64}
    (hk : k ≠ 0) (hef : s.vectors.entries.length ≤ efSearch.toNat) :
    searchKnn dist s query k efSearch =
      .ok ((searchLayerWithDistances dist s query s.vectors.entries.length
        (descend dist s query 0 s.entryPointLayer.toNat s.entryPoint) 0).take
          (min k.toNat s.vectors.entries.length)) := by
  obtain ⟨n₀, hn₀, -⟩ := hinv.consistent.entry hN
  have hset : s.entryPoint.isSet := hinv.keys_set _ (AList.lookup_isSome.mp (by rw [hn₀]; rfl))
  have hempty : s.vectors.entries.isEmpty = false := List.isEmpty_eq_false_iff.mpr hN
  have hvalid : validateVectorDimension s.config query = .ok s.config ∨
      validateVectorDimension s.config query =
        .ok { s.config with vectorDimension := query.length.toUInt64 } := by
    unfold validateVectorDimension
    by_cases h0 : s.config.vectorDimension = 0
    · exact Or.inr (if_pos h0)
    · rw [if_neg h0, if_neg (not_not.mpr hdim)]
      exact Or.inl rfl
  -- the clamps: `ef` becomes `N`, and `k` becomes `min(k, N)`
  have hpos : 0 < s.vectors.entries.length := List.length_pos_of_ne_nil hN
  have hlt : s.vectors.entries.length < 2 ^ 64 := by
    have := UInt64.toNat_lt efSearch
    omega
  have hNat : s.vectors.entries.length.toUInt64.toNat = s.vectors.entries.length :=
    UInt64.toNat_ofNat_of_lt' hlt
  have hef0 : efSearch ≠ 0 := by
    rintro rfl
    simp only [UInt64.toNat_zero] at hef
    omega
  have hefN :
      (min efSearch s.vectors.entries.length.toUInt64).toNat = s.vectors.entries.length := by
    rw [UInt64.toNat_min, hNat]
    omega
  have hkN : (min k s.vectors.entries.length.toUInt64).toNat =
      min k.toNat s.vectors.entries.length := by
    rw [UInt64.toNat_min, hNat]
  unfold searchKnn
  rcases hvalid with hv | hv <;>
    simp only [hempty, hset, Bool.not_true, Bool.or_false, Bool.false_eq_true, if_false, hk,
      hv, hef0, hefN, hkN]

omit [LinearOrder D] in
/-- A list of distinct keys holding exactly the nodes has one entry per node. -/
lemma length_eq_of_keys {l : List (ObjKey × D)} (hnodup : (l.map Prod.fst).Nodup)
    (hmem : ∀ k, k ∈ l.map Prod.fst ↔ k ∈ s.vectors) : l.length = s.vectors.entries.length := by
  have hperm : (l.map Prod.fst).Perm s.vectors.keys :=
    (List.perm_ext_iff_of_nodup hnodup s.vectors.keys_nodup).mpr fun k =>
      (hmem k).trans AList.mem_keys.symm
  rw [← List.length_map Prod.fst, hperm.length_eq, AList.keys, List.keys, List.length_map]

variable (dist query) in
/-- In a well-formed index whose layer 0 is connected, the layer-0 search with `ef = N` from
where the descent ends returns every node once, nearest first, at its distance. -/
lemma searchLayer_descend_all (hwf : WellFormed s) (hinv : EntryPointInvariant s)
    (hN : 1 ≤ s.vectors.entries.length) (hconn : LayerConnected s 0) :
    ((searchLayerWithDistances dist s query s.vectors.entries.length
        (descend dist s query 0 s.entryPointLayer.toNat s.entryPoint) 0).map Prod.fst).Nodup ∧
      (∀ c ∈ searchLayerWithDistances dist s query s.vectors.entries.length
        (descend dist s query 0 s.entryPointLayer.toNat s.entryPoint) 0, IsFound dist s query c) ∧
      (searchLayerWithDistances dist s query s.vectors.entries.length
        (descend dist s query 0 s.entryPointLayer.toNat s.entryPoint) 0).Pairwise
          (fun a b => a.2 ≤ b.2) ∧
      ∀ b, b ∈ (searchLayerWithDistances dist s query s.vectors.entries.length
        (descend dist s query 0 s.entryPointLayer.toNat s.entryPoint) 0).map Prod.fst ↔
          b ∈ s.vectors := by
  have hne : s.vectors.entries ≠ [] := List.ne_nil_of_length_pos hN
  set N := s.vectors.entries.length with hNdef
  set curr := descend dist s query 0 s.entryPointLayer.toNat s.entryPoint with hcurr_def
  -- the layer-0 search starts at a node, from which every node is reachable
  obtain ⟨n₀, hn₀, -⟩ := hinv.consistent.entry hne
  have hcurr : curr ∈ s.vectors := descend_mem _ (AList.lookup_isSome.mp (by rw [hn₀]; rfl))
  have hreach : ∀ b, b ∈ reachableAt s 0 curr ↔ b ∈ s.vectors := fun b =>
    ⟨mem_vectors_of_mem_reachableAt hcurr, hwf.mem_reachableAt hconn hcurr⟩
  have hcard : (reachableAt s 0 curr).ncard ≤ N := by
    have heq : reachableAt s 0 curr = {b | b ∈ s.vectors.keys} :=
      Set.ext fun b => (hreach b).trans AList.mem_keys.symm
    rw [heq, ← length_eq_ncard s.vectors.keys_nodup, AList.keys, List.keys, List.length_map]
  -- so the search with `ef = N` returns every node once, nearest first
  obtain ⟨hnodup, hfound, -, hsorted, -, -, -, hexh⟩ : LayerSearchResult dist s query N 0 curr
      (searchLayerWithDistances dist s query N curr 0)
      (visitedNodes s (searchLayerEnd dist s query N curr 0)) :=
    searchLayerWithDistances_result hcurr (hinv.keys_set _ hcurr) hN
  exact ⟨hnodup, hfound, hsorted, fun b => (hexh hcard b).trans (hreach b)⟩

lemma mem_singleNodeIndex_iff {key k : ObjKey} : k ∈ (singleNodeIndex key).vectors ↔ k = key := by
  rw [singleNodeIndex, AList.mem_insert]
  exact or_iff_left (AList.notMem_empty k)

lemma entryPointInvariant_singleNodeIndex {key : ObjKey} (hset : key.isSet) :
    EntryPointInvariant (singleNodeIndex key) where
  keys k n hn := by
    obtain ⟨rfl, rfl⟩ := lookup_singleNodeIndex hn
    rfl
  keys_set k hk := by
    rw [mem_singleNodeIndex_iff.1 hk]
    exact hset
  consistent :=
    { empty_iff := ⟨fun h => absurd h (by simp [singleNodeIndex]),
        fun h => absurd h.2 (by simp [singleNodeIndex])⟩
      entry := fun _ => ⟨_, AList.lookup_insert _, rfl⟩
      layer_le := fun k n hn => by
        obtain ⟨-, rfl⟩ := lookup_singleNodeIndex hn
        rfl }

lemma layerConnected_singleNodeIndex (key : ObjKey) (layer : Nat) :
    LayerConnected (singleNodeIndex key) layer := by
  intro a ha b hb
  rw [mem_singleNodeIndex_iff.1 ha, mem_singleNodeIndex_iff.1 hb]

end Realm
