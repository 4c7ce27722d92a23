import Mathlib
import RealmCore.Hnsw.Ops

/-!
# HNSW index: the queries

`search_knn`, `search_radius`, and the `SearchIndex` queries `find_first`, `find_all` and
`count` built on them, of src/realm/index_hnsw.cpp.

`search_knn` descends greedily from the entry point to layer 1 as `insert` does, then
searches layer 0 with `ef` candidates and returns the `k` nearest found.  Both searches call
`validate_vector_dimension`, which throws on a query of another length; on an index without
a dimension it writes the query's length into the configuration through a `const_cast`, a
write the model leaves out since the queries return their results only.  Distances are
values of the linear order of `Metrics`, so `search_radius`'s comparisons with `0` and
`max_distance` are comparisons in that order.
-/

namespace Realm

variable {D : Type*} [LinearOrder D] (dist : Metrics D)

/-- `HNSWIndex::search_knn(query_vector, k, ef_search)`. -/
def searchKnn (s : HNSWIndex) (query : List Binary64) (k efSearch : UInt64) :
    Except InvalidArgument (List (ObjKey × D)) :=
  if s.vectors.entries.isEmpty || !s.entryPoint.isSet then .ok []
  else if k = 0 then .ok []
  else
    match validateVectorDimension s.config query with
    | .error e => .error e
    | .ok _ =>
      let ef := if efSearch = 0 then max s.config.efSearch k else efSearch
      -- both clamped to the number of nodes
      let ef := min ef s.vectors.entries.length.toUInt64
      let k := min k s.vectors.entries.length.toUInt64
      let curr := descend dist s query 0 s.entryPointLayer.toNat s.entryPoint
      .ok ((searchLayerWithDistances dist s query ef.toNat curr 0).take k.toNat)

/-- `HNSWIndex::search_radius(query_vector, max_distance)`: a `search_knn` for every node with
a larger `ef`, cut at the first result farther than `max_distance`. -/
def searchRadius [Zero D] (s : HNSWIndex) (query : List Binary64) (maxDistance : D) :
    Except InvalidArgument (List (ObjKey × D)) :=
  if s.vectors.entries.isEmpty || !s.entryPoint.isSet then .ok []
  else if maxDistance < 0 then .ok []
  else
    match validateVectorDimension s.config query with
    | .error e => .error e
    | .ok _ =>
      let size := s.vectors.entries.length.toUInt64
      let efLarge := min (s.config.efSearch * 2) (max s.config.efSearch size)
      (searchKnn dist s query size efLarge).map fun results =>
        results.takeWhile fun p => decide (p.2 ≤ maxDistance)

/-- `HNSWIndex::find_first`: the nearest node found, or the null key. -/
def findFirst (s : HNSWIndex) (query : List Binary64) : Except InvalidArgument ObjKey :=
  (searchKnn dist s query 1 0).map fun results => (results.head?.map Prod.fst).getD ObjKey.null

/-- `HNSWIndex::find_all`: the keys of the ten nearest nodes found. -/
def findAll (s : HNSWIndex) (query : List Binary64) : Except InvalidArgument (List ObjKey) :=
  (searchKnn dist s query 10 0).map fun results => results.map Prod.fst

/-- `HNSWIndex::count`: the number of nodes, whatever the value. -/
def count (s : HNSWIndex) : Nat := s.vectors.entries.length

/-! ## What the searches return -/

section Sound

variable (s : HNSWIndex) (query : List Binary64)

/-- `c` is a node of `s` at its distance to `query`. -/
def IsFound (c : ObjKey × D) : Prop :=
  ∃ n, s.vectors.lookup c.1 = some n ∧ c.2 = computeDistance dist s.config.metric query n.vector

/-- Every candidate and every result of a search state is found. -/
def SearchState.Sound (st : SearchState D) : Prop :=
  ∀ c, c ∈ st.candidates ∨ c ∈ st.w → IsFound dist s query (c.objKey, c.distance)

variable {dist s query}

lemma mem_pushNearest {c c' : SearchCandidate D} {q : List (SearchCandidate D)} :
    c' ∈ pushNearest c q ↔ c' = c ∨ c' ∈ q := List.mem_orderedInsert _

lemma mem_pushFarthest {c c' : SearchCandidate D} {q : List (SearchCandidate D)} :
    c' ∈ pushFarthest c q ↔ c' = c ∨ c' ∈ q := List.mem_orderedInsert _

lemma SearchState.Sound.visitNeighbor {ef : Nat} {st : SearchState D}
    (hst : st.Sound dist s query) (nk : ObjKey) :
    (Realm.visitNeighbor dist s query ef st nk).Sound dist s query := by
  unfold Realm.visitNeighbor
  split
  · exact hst
  · dsimp only
    split
    · exact fun c hc => hst c hc
    · rename_i nb hnb
      split
      · -- the neighbour enters both heaps with its own distance
        have hnew : IsFound dist s query (nk, computeDistance dist s.config.metric query nb.vector) :=
          ⟨nb, hnb, rfl⟩
        intro c hc
        simp only [mem_pushNearest] at hc
        rcases hc with (rfl | hc) | hc
        · exact hnew
        · exact hst c (Or.inl hc)
        · have hw : c ∈ pushFarthest ⟨nk, computeDistance dist s.config.metric query nb.vector⟩
              st.w := by
            split at hc
            · exact List.mem_of_mem_tail hc
            · exact hc
          rcases mem_pushFarthest.1 hw with rfl | hw
          · exact hnew
          · exact hst c (Or.inr hw)
      · exact fun c hc => hst c hc

lemma SearchState.Sound.searchLoop {ef layer : Nat} :
    ∀ (fuel : Nat) {st : SearchState D}, st.Sound dist s query →
      (Realm.searchLoop dist s query ef layer fuel st).Sound dist s query
  | 0, _, hst => hst
  | fuel + 1, st, hst => by
    unfold Realm.searchLoop
    split
    · exact hst
    · rename_i current rest hcand
      -- popping the candidate keeps the others
      have hpop : SearchState.Sound dist s query { st with candidates := rest } := by
        intro c hc
        refine hst c (hc.imp (fun h => ?_) id)
        rw [hcand]
        exact List.mem_cons_of_mem current h
      have hfold : ∀ (l : List ObjKey) {st' : SearchState D}, st'.Sound dist s query →
          (l.foldl (Realm.visitNeighbor dist s query ef) st').Sound dist s query := by
        intro l
        induction l with
        | nil => exact fun h => h
        | cons nk l ih => exact fun h => ih (h.visitNeighbor nk)
      dsimp only
      split
      · exact hpop
      · split
        · exact SearchState.Sound.searchLoop fuel hpop
        · split
          · exact SearchState.Sound.searchLoop fuel hpop
          · exact SearchState.Sound.searchLoop fuel (hfold _ hpop)

/-- Every result of a layer search is a node, at its distance to the query. -/
lemma isFound_of_mem_searchLayerWithDistances {ef layer : Nat} {entryPoint : ObjKey}
    {c : ObjKey × D} (hc : c ∈ searchLayerWithDistances dist s query ef entryPoint layer) :
    IsFound dist s query c := by
  unfold searchLayerWithDistances at hc
  split at hc
  · simp at hc
  · split at hc
    · simp at hc
    · rename_i e he
      have hinit : SearchState.Sound dist s query
          ⟨[⟨entryPoint, computeDistance dist s.config.metric query e.vector⟩],
            [⟨entryPoint, computeDistance dist s.config.metric query e.vector⟩], [entryPoint]⟩ := by
        intro c' hc'
        simp only [List.mem_singleton, or_self] at hc'
        subst hc'
        exact ⟨e, he, rfl⟩
      obtain ⟨c', hc', rfl⟩ := List.mem_map.mp (List.mem_reverse.mp hc)
      exact SearchState.Sound.searchLoop _ hinit c' (Or.inr hc')

/-- `search_knn` returns at most `k` results, each a node at its distance to the query. -/
theorem searchKnn_sound {k ef : UInt64} {l : List (ObjKey × D)}
    (h : searchKnn dist s query k ef = .ok l) :
    l.length ≤ k.toNat ∧ ∀ c ∈ l, IsFound dist s query c := by
  unfold searchKnn at h
  split at h
  · cases h
    simp
  · split at h
    · cases h
      simp
    · cases hv : validateVectorDimension s.config query with
      | error e =>
        rw [hv] at h
        cases h
      | ok c =>
        rw [hv] at h
        cases h
        refine ⟨?_, fun c hc => isFound_of_mem_searchLayerWithDistances (List.mem_of_mem_take hc)⟩
        refine (List.length_take_le _ _).trans ?_
        simp only [UInt64.toNat_min]
        exact Nat.min_le_left _ _

/-- `search_radius` returns nodes at their distances to the query, none farther than
`max_distance`. -/
theorem searchRadius_sound [Zero D] {maxDistance : D} {l : List (ObjKey × D)}
    (h : searchRadius dist s query maxDistance = .ok l) :
    ∀ c ∈ l, IsFound dist s query c ∧ c.2 ≤ maxDistance := by
  unfold searchRadius at h
  split at h
  · cases h
    simp
  · split at h
    · cases h
      simp
    · cases hv : validateVectorDimension s.config query with
      | error e =>
        rw [hv] at h
        cases h
      | ok c =>
        rw [hv] at h
        dsimp only at h
        cases hk : searchKnn dist s query s.vectors.entries.length.toUInt64
            (min (s.config.efSearch * 2) (max s.config.efSearch s.vectors.entries.length.toUInt64))
          with
        | error e => rw [hk] at h; cases h
        | ok results =>
          rw [hk] at h
          cases h
          intro c hc
          dsimp only at hc
          have hle := List.mem_takeWhile_imp hc
          exact ⟨(searchKnn_sound hk).2 c (List.takeWhile_subset _ hc), of_decide_eq_true hle⟩

end Sound

end Realm
