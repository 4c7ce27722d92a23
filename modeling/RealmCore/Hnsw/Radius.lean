import Mathlib
import RealmCore.Hnsw.ExactKnn

/-!
# HNSW index: what `search_radius` returns

The header of `search_radius` promises every vector within the threshold.  The function runs
`search_knn` for all `N` nodes with `ef = min(2 * ef_search, max(ef_search, N))` and cuts the
sorted result at the first distance over the threshold.  When that `ef` is at least `N`, the
layer-0 search of a well-formed, connected index returns every node, and the cut keeps exactly
the nodes within the threshold (`searchRadius_exact`).  When `2 * ef_search < N` the layer
search returns at most `2 * ef_search` nodes, so an index with more nodes than that within the
threshold loses some: `searchRadius_misses_within_radius` is such an index of three nodes with
`ef_search = 1`.  With the default `ef_search` of 50 it takes more than 100 nodes.
-/

namespace Realm

section Cut

variable {α D : Type*} [LinearOrder D]

/-- Cutting a list sorted by distance at the first distance over `r` keeps exactly its entries
within `r`. -/
lemma mem_takeWhile_le_iff {l : List (α × D)} (hl : l.Pairwise fun a b => a.2 ≤ b.2) (r : D)
    {c : α × D} : c ∈ l.takeWhile (fun p => decide (p.2 ≤ r)) ↔ c ∈ l ∧ c.2 ≤ r := by
  induction l with
  | nil => simp
  | cons x xs ih =>
    rw [List.pairwise_cons] at hl
    by_cases hx : x.2 ≤ r
    · rw [List.takeWhile_cons_of_pos (p := fun p : α × D => decide (p.2 ≤ r)) (by simpa using hx),
        List.mem_cons, ih hl.2, List.mem_cons]
      constructor
      · rintro (rfl | ⟨hc, hcr⟩)
        · exact ⟨Or.inl rfl, hx⟩
        · exact ⟨Or.inr hc, hcr⟩
      · rintro ⟨rfl | hc, hcr⟩
        · exact Or.inl rfl
        · exact Or.inr ⟨hc, hcr⟩
    · -- the cut is at the head, and every later entry is at least as far
      rw [List.takeWhile_cons_of_neg (p := fun p : α × D => decide (p.2 ≤ r)) (by simpa using hx)]
      simp only [List.not_mem_nil, false_iff, not_and, List.mem_cons]
      rintro (rfl | hc) hcr
      · exact hx hcr
      · exact hx ((hl.1 c hc).trans hcr)

end Cut

variable {D : Type*} [LinearOrder D] {dist : Metrics D} {s : HNSWIndex} {query : List Binary64}

/-- A query of the index's dimension passes the dimension check. -/
lemma validateVectorDimension_isOk (hdim : query.length.toUInt64 = s.config.vectorDimension) :
    ∃ c, validateVectorDimension s.config query = .ok c := by
  unfold validateVectorDimension
  by_cases h0 : s.config.vectorDimension = 0
  · exact ⟨_, if_pos h0⟩
  · rw [if_neg h0, if_neg (not_not.mpr hdim)]
    exact ⟨_, rfl⟩

/-- When the `ef` that `search_radius` derives covers every node, it returns exactly the nodes
within the threshold, each once, nearest first, at their distances. -/
theorem searchRadius_exact [Zero D] (hwf : WellFormed s) (hinv : EntryPointInvariant s)
    (hN : 1 ≤ s.vectors.entries.length) (hconn : LayerConnected s 0)
    (hdim : query.length.toUInt64 = s.config.vectorDimension) {r : D} (hr : 0 ≤ r)
    (hef : s.vectors.entries.length ≤
      (min (s.config.efSearch * 2) (max s.config.efSearch s.vectors.entries.length.toUInt64)).toNat) :
    ∃ l, searchRadius dist s query r = .ok l ∧ (l.map Prod.fst).Nodup ∧
      l.Pairwise (fun a b => a.2 ≤ b.2) ∧ (∀ c ∈ l, IsFound dist s query c) ∧
      ∀ key n, s.vectors.lookup key = some n →
        (key ∈ l.map Prod.fst ↔ computeDistance dist s.config.metric query n.vector ≤ r) := by
  have hne : s.vectors.entries ≠ [] := List.ne_nil_of_length_pos hN
  set l₀ := searchLayerWithDistances dist s query s.vectors.entries.length
    (descend dist s query 0 s.entryPointLayer.toNat s.entryPoint) 0 with hl₀
  obtain ⟨hnodup, hfound, hsorted, hall⟩ := searchLayer_descend_all dist query
    hwf hinv hN hconn
  have hlen : l₀.length = s.vectors.entries.length := length_eq_of_keys hnodup hall
  -- the guards of `search_radius` pass
  obtain ⟨n₀, hn₀, -⟩ := hinv.consistent.entry hne
  have hset : s.entryPoint.isSet := hinv.keys_set _ (AList.lookup_isSome.mp (by rw [hn₀]; rfl))
  have hempty : s.vectors.entries.isEmpty = false := List.isEmpty_eq_false_iff.mpr hne
  obtain ⟨c, hc⟩ := validateVectorDimension_isOk hdim
  -- `search_knn` for `N` nodes returns the whole layer-0 search
  have hNat : s.vectors.entries.length.toUInt64.toNat = s.vectors.entries.length :=
    UInt64.toNat_ofNat_of_lt' (lt_of_le_of_lt hef (UInt64.toNat_lt _))
  have hk0 : s.vectors.entries.length.toUInt64 ≠ 0 := by
    intro h0
    rw [h0, UInt64.toNat_zero] at hNat
    omega
  have hknn : searchKnn dist s query s.vectors.entries.length.toUInt64
      (min (s.config.efSearch * 2) (max s.config.efSearch s.vectors.entries.length.toUInt64)) =
        .ok l₀ := by
    rw [searchKnn_eq_take hinv hne hdim hk0 hef, hNat, Nat.min_self]
    exact congrArg _ (List.take_of_length_le (le_of_eq hlen))
  refine ⟨l₀.takeWhile fun p => decide (p.2 ≤ r), ?_, ?_, ?_, ?_, ?_⟩
  · unfold searchRadius
    simp only [hempty, hset, Bool.not_true, Bool.or_false, Bool.false_eq_true, if_false,
      not_lt.mpr hr, hc, hknn, Except.map]
  · exact hnodup.sublist ((List.takeWhile_sublist _).map _)
  · exact hsorted.sublist (List.takeWhile_sublist _)
  · exact fun c hc => hfound c ((List.takeWhile_sublist _).subset hc)
  · -- a node is kept exactly when it is within the threshold
    intro key n hn
    obtain ⟨b, hb, hbkey⟩ :=
      List.mem_map.mp ((hall key).mpr (AList.lookup_isSome.mp (by rw [hn]; rfl)))
    obtain ⟨nb, hnb, hdb⟩ := hfound b hb
    rw [hbkey, hn, Option.some.injEq] at hnb
    subst hnb
    constructor
    · intro hkey
      obtain ⟨x, hx, hxkey⟩ := List.mem_map.mp hkey
      obtain ⟨hx, hxr⟩ := (mem_takeWhile_le_iff hsorted r).mp hx
      obtain ⟨nx, hnx, hdx⟩ := hfound x hx
      rw [hxkey, hn, Option.some.injEq] at hnx
      subst hnx
      rw [← hdx]
      exact hxr
    · intro hle
      rw [← hbkey]
      exact List.mem_map_of_mem ((mem_takeWhile_le_iff hsorted r).mpr ⟨hb, hdb ▸ hle⟩)

/-- Three nodes at the point `0.0`, each a neighbour of the others, in an index whose
configuration has `ef_search = 1`. -/
def threePointIndex : HNSWIndex :=
  completeIndex { HNSWIndexConfig.ofMetric .euclidean with efSearch := 1, vectorDimension := 1 }
    [(⟨1⟩, [⟨0⟩]), (⟨2⟩, [⟨0⟩]), (⟨3⟩, [⟨0⟩])]

/-- A well-formed index, connected at layer 0, whose three nodes are all at distance `0` from
the query `[0.0]`: `search_radius` with threshold `0` derives `ef = 2` and returns two of
them, leaving out node 3. -/
theorem searchRadius_misses_within_radius :
    WellFormed threePointIndex ∧ EntryPointInvariant threePointIndex ∧
      LayerConnected threePointIndex 0 ∧
      ([⟨0⟩] : List Binary64).length.toUInt64 = threePointIndex.config.vectorDimension ∧
      (∀ k n, threePointIndex.vectors.lookup k = some n →
        computeDistance gridMetrics threePointIndex.config.metric [⟨0⟩] n.vector ≤ 0) ∧
      (⟨3⟩ : ObjKey) ∈ threePointIndex.vectors ∧
      searchRadius gridMetrics threePointIndex [⟨0⟩] 0 = .ok [(⟨1⟩, 0), (⟨2⟩, 0)] :=
  ⟨by decide, by decide, layerConnected_of_hub ⟨1⟩ (by decide), rfl,
    NodeMap.forall_lookup_iff.mpr (by decide), AList.mem_keys.mp (by decide),
    by decide⟩

end Realm
