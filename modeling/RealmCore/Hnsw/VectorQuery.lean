import Mathlib
import RealmCore.Hnsw.Radius

/-!
# Filtered k-NN queries

`Query::vector_search_knn` (src/realm/query.cpp) searches the HNSW index of a column and, when
the query has conditions, filters what the index returns.  doc/HNSW_VECTOR_SEARCH.md says
the filters are applied first and the vector search runs on the filtered subset.  The code
filters afterwards: it asks the index for `fetch_count = max(min(10 * k, table size), k)`
results and keeps those whose object `eval_object` accepts, stopping at `k`.  A matching
object that is not among the `fetch_count` nearest of the whole index is never returned.

When `fetch_count` covers every node of a well-formed, connected index and `ef_search` covers
them too, the query does return the `k` nearest matching objects (`vectorSearchKnn_exact`);
`vectorSearchKnn_misses_filtered` is an index of eleven nodes where the one matching object
is the farthest, and the query returns nothing.

The checks of the column (a list of doubles with an HNSW index) come before the search and
throw otherwise; they read the table's schema, which the model leaves out.  `eval_object` is
any predicate of the object, and `has_conditions()` is whether there is one.
-/

namespace Realm

variable {D : Type*} [LinearOrder D] (dist : Metrics D)

/-- The filtering loop of `vector_search_knn`: a result whose object `eval_object` accepts is
kept, and the loop breaks once `k` are kept. -/
def filterResults (evalObject : ObjKey → Bool) (k : Nat) :
    List (ObjKey × D) → List (ObjKey × D) → List (ObjKey × D)
  | [], filtered => filtered
  | result :: results, filtered =>
    if evalObject result.1 then
      let filtered := filtered ++ [result]
      if k ≤ filtered.length then filtered else filterResults evalObject k results filtered
    else filterResults evalObject k results filtered

/-- `Query::vector_search_knn(column_key, query_vector, k, ef_search)` on a table of
`tableSize` objects whose column has the HNSW index `s`, after the checks of the column.
`conditions` is the query's filter, `none` when `has_conditions()` is false.  It answers the
keys of the table view. -/
def vectorSearchKnn (s : HNSWIndex) (tableSize : Nat) (conditions : Option (ObjKey → Bool))
    (query : List Binary64) (k efSearch : UInt64) : Except InvalidArgument (List ObjKey) :=
  let fetchCount := match conditions with
    | none => k
    | some _ => max (min (k * 10) tableSize.toUInt64) k
  match searchKnn dist s query fetchCount efSearch with
  | .error e => .error e
  | .ok results =>
    let filtered := match conditions with
      | none => results
      | some evalObject => filterResults evalObject k.toNat results []
    .ok (filtered.map Prod.fst)

omit [LinearOrder D] in
/-- The filtering loop keeps the first `k` accepted results, or the first one when `k = 0`. -/
lemma filterResults_eq (evalObject : ObjKey → Bool) (k : Nat) :
    ∀ (results filtered : List (ObjKey × D)), filtered.length < max k 1 →
      filterResults evalObject k results filtered =
        (filtered ++ results.filter fun c => evalObject c.1).take (max k 1)
  | [], filtered, h => by
    rw [filterResults, List.filter_nil, List.append_nil, List.take_of_length_le (by omega)]
  | result :: results, filtered, h => by
    rw [filterResults]
    by_cases hacc : evalObject result.1 = true
    · rw [if_pos hacc, List.filter_cons_of_pos (p := fun c : ObjKey × D => evalObject c.1) hacc]
      dsimp only
      have hlen : (filtered ++ [result]).length = filtered.length + 1 := by simp
      by_cases hk : k ≤ (filtered ++ [result]).length
      · -- the kept results reach `max k 1`: the loop breaks with exactly those
        rw [if_pos hk]
        conv_rhs => rw [List.append_cons, List.take_append_of_le_length (by omega),
          List.take_of_length_le (by omega)]
      · rw [if_neg hk, filterResults_eq evalObject k results _ (by omega), List.append_assoc,
          List.singleton_append]
    · rw [if_neg hacc, List.filter_cons_of_neg (p := fun c : ObjKey × D => evalObject c.1) hacc]
      exact filterResults_eq evalObject k results filtered h

variable {dist} {s : HNSWIndex} {query : List Binary64}

/-- When the results fetched cover every node of a well-formed index connected at layer 0,
and so does `ef_search`, a filtered query returns the `k` nearest accepted nodes, or all of
them when fewer are accepted: each once, nearest first, and none left out nearer than one
returned. -/
theorem vectorSearchKnn_exact (hwf : WellFormed s) (hinv : EntryPointInvariant s)
    (hN : 1 ≤ s.vectors.entries.length) (hconn : LayerConnected s 0)
    (hdim : query.length.toUInt64 = s.config.vectorDimension) (evalObject : ObjKey → Bool)
    {tableSize : Nat} {k efSearch : UInt64} (hk : 1 ≤ k)
    (hfetch : s.vectors.entries.length ≤ (max (min (k * 10) tableSize.toUInt64) k).toNat)
    (hef : s.vectors.entries.length ≤ efSearch.toNat) :
    ∃ l : List (ObjKey × D),
      vectorSearchKnn dist s tableSize (some evalObject) query k efSearch = .ok (l.map Prod.fst) ∧
      l.length = min k.toNat
        (((searchLayerWithDistances dist s query s.vectors.entries.length
          (descend dist s query 0 s.entryPointLayer.toNat s.entryPoint) 0).filter
            fun c => evalObject c.1).length) ∧
      (l.map Prod.fst).Nodup ∧ l.Pairwise (fun a b => a.2 ≤ b.2) ∧
      (∀ c ∈ l, IsFound dist s query c ∧ evalObject c.1 = true) ∧
      ∀ key n, s.vectors.lookup key = some n → evalObject key = true → key ∉ l.map Prod.fst →
        ∀ c ∈ l, ¬computeDistance dist s.config.metric query n.vector < c.2 := by
  have hne : s.vectors.entries ≠ [] := List.ne_nil_of_length_pos hN
  set l₀ := searchLayerWithDistances dist s query s.vectors.entries.length
    (descend dist s query 0 s.entryPointLayer.toNat s.entryPoint) 0 with hl₀
  obtain ⟨hnodup, hfound, hsorted, hall⟩ := searchLayer_descend_all dist query
    hwf hinv hN hconn
  have hlen : l₀.length = s.vectors.entries.length := length_eq_of_keys hnodup hall
  have hk0 : k ≠ 0 := by
    rintro rfl
    exact absurd hk (by decide)
  have hkpos : 1 ≤ k.toNat := by
    have := UInt64.toNat_ofNat_of_lt' (n := 1) (by decide)
    rw [UInt64.le_iff_toNat_le] at hk
    simpa using hk
  have hfetch0 : max (min (k * 10) tableSize.toUInt64) k ≠ 0 := by
    intro h0
    rw [h0, UInt64.toNat_zero] at hfetch
    omega
  -- the index search returns every node, and the loop keeps the first `k` accepted ones
  have hknn : searchKnn dist s query (max (min (k * 10) tableSize.toUInt64) k) efSearch = .ok l₀ := by
    rw [searchKnn_eq_take hinv hne hdim hfetch0 hef, Nat.min_eq_right hfetch]
    exact congrArg _ (List.take_of_length_le (le_of_eq hlen))
  set lf := l₀.filter fun c => evalObject c.1 with hlf
  refine ⟨lf.take k.toNat, ?_, ?_, ?_, ?_, ?_, ?_⟩
  · unfold vectorSearchKnn
    simp only [hknn, filterResults_eq evalObject k.toNat l₀ [] (by simp), List.nil_append,
      Nat.max_eq_left hkpos]
    rfl
  · rw [List.length_take]
  · rw [List.map_take]
    exact (hnodup.sublist (List.filter_sublist.map _)).sublist (List.take_sublist _ _)
  · exact (hsorted.sublist List.filter_sublist).sublist (List.take_sublist _ _)
  · intro c hc
    have hc' := List.mem_of_mem_take hc
    exact ⟨hfound c (List.mem_of_mem_filter hc'), by simpa using (List.mem_filter.mp hc').2⟩
  · -- an accepted node left out is in the part of the accepted ones cut off
    intro key n hn hacc hkey c hc
    obtain ⟨b, hb, hbkey⟩ :=
      List.mem_map.mp ((hall key).mpr (AList.lookup_isSome.mp (by rw [hn]; rfl)))
    have hbf : b ∈ lf := List.mem_filter.mpr ⟨hb, by simpa [hbkey] using hacc⟩
    have hsplit : (lf.take k.toNat ++ lf.drop k.toNat).Pairwise fun a b => a.2 ≤ b.2 := by
      rw [List.take_append_drop]
      exact hsorted.sublist List.filter_sublist
    have hbdrop : b ∈ lf.drop k.toNat := by
      have hb' : b ∈ lf.take k.toNat ++ lf.drop k.toNat := by
        rw [List.take_append_drop]
        exact hbf
      exact (List.mem_append.mp hb').resolve_left fun hbt =>
        hkey (hbkey ▸ List.mem_map_of_mem hbt)
    obtain ⟨nb, hnb, hdb⟩ := hfound b hb
    rw [hbkey, hn, Option.some.injEq] at hnb
    subst hnb
    rw [← hdb]
    exact not_lt.mpr ((List.pairwise_append.mp hsplit).2.2 c hc b hbdrop)

/-- Ten nodes at the point `0.0` and one at `1.0`, each a neighbour of every other. -/
def elevenPointIndex : HNSWIndex :=
  completeIndex { HNSWIndexConfig.ofMetric .euclidean with vectorDimension := 1 }
    [(⟨1⟩, [⟨0⟩]), (⟨2⟩, [⟨0⟩]), (⟨3⟩, [⟨0⟩]), (⟨4⟩, [⟨0⟩]), (⟨5⟩, [⟨0⟩]), (⟨6⟩, [⟨0⟩]),
      (⟨7⟩, [⟨0⟩]), (⟨8⟩, [⟨0⟩]), (⟨9⟩, [⟨0⟩]), (⟨10⟩, [⟨0⟩]), (⟨11⟩, [⟨0x3FF0000000000000⟩])]

/-- A table of eleven objects, all indexed, in a well-formed index connected at layer 0, and a
query for the nearest object to `[0.0]` among those the filter "key is 11" accepts, with
`ef_search = 11`: one object is accepted, the farthest, and the query returns none, as it
looks only among the `min(10 * 1, 11) = 10` nearest. -/
theorem vectorSearchKnn_misses_filtered :
    WellFormed elevenPointIndex ∧ EntryPointInvariant elevenPointIndex ∧
      LayerConnected elevenPointIndex 0 ∧
      ([⟨0⟩] : List Binary64).length.toUInt64 = elevenPointIndex.config.vectorDimension ∧
      elevenPointIndex.vectors.entries.length = 11 ∧ (⟨11⟩ : ObjKey) ∈ elevenPointIndex.vectors ∧
      vectorSearchKnn gridMetrics elevenPointIndex 11 (some fun key => key == ⟨11⟩) [⟨0⟩] 1 11 =
        .ok [] :=
  ⟨by decide, by decide, layerConnected_of_hub ⟨1⟩ (by decide), rfl,
    by decide, AList.mem_keys.mp (by decide), by decide⟩

end Realm
