import Mathlib
import RealmCore.Hnsw.Graph
import RealmCore.Hnsw.Query

/-!
# HNSW index: what a layer search finds

`search_layer_with_distances(q, e, ef, l)` starting at the node `e` keeps, of all the nodes it
has examined, a best `ef` in its result heap `w`: when the loop ends, `w` holds
`min(ef, |visited|)` distinct nodes, each reachable from `e` over the edges of layer `l`, and
no examined node left out is nearer to `q` than one kept (`SearchInv`, carried by every visit
of a neighbour and every round of the loop).  When `ef` is at least the number of nodes
reachable from `e`, the heap never drops a node and the loop never stops early, so it expands
every node it reaches and returns exactly the nodes reachable from `e`.  The loop runs on
fuel, the number of nodes; `searchMeasure`, the candidates left plus the nodes not yet
visited, shows that this fuel is never the reason the loop ends.

`search_knn` with an `ef_search` of at least the number of nodes, on an index whose layer-0
graph is connected, is then an exact nearest-neighbour query.
-/

namespace Realm

/-! ## Reachability at a layer -/

section Reach

variable (s : HNSWIndex) (layer : Nat)

/-- An edge the search at `layer` follows: `b` is a node and a neighbour at `layer` of the node
`a`. -/
def LayerEdge (a b : ObjKey) : Prop :=
  ∃ n, s.vectors.lookup a = some n ∧ b ∈ n.neighbors layer ∧ b ∈ s.vectors

/-- Whether `a` has an edge to `b` can be decided. -/
instance (a b : ObjKey) : Decidable (LayerEdge s layer a b) :=
  match h : s.vectors.lookup a with
  | none => isFalse fun ⟨_, hn, _⟩ => by rw [h] at hn; cases hn
  | some n => decidable_of_iff (b ∈ n.neighbors layer ∧ b ∈ s.vectors)
      ⟨fun hb => ⟨n, h, hb⟩, fun ⟨n', hn', hb⟩ => by
        rw [h, Option.some.injEq] at hn'
        subst hn'
        exact hb⟩

/-- The keys reachable from `e` over the edges of `layer`. -/
def reachableAt (e : ObjKey) : Set ObjKey :=
  {k | Relation.ReflTransGen (LayerEdge s layer) e k}

variable {s layer}

lemma mem_reachableAt_self (e : ObjKey) : e ∈ reachableAt s layer e :=
  Relation.ReflTransGen.refl

lemma mem_reachableAt_of_edge {e a b : ObjKey} (ha : a ∈ reachableAt s layer e)
    (hab : LayerEdge s layer a b) : b ∈ reachableAt s layer e :=
  Relation.ReflTransGen.tail ha hab

/-- From a node, only nodes are reachable. -/
lemma mem_vectors_of_mem_reachableAt {e k : ObjKey} (he : e ∈ s.vectors)
    (hk : k ∈ reachableAt s layer e) : k ∈ s.vectors := by
  induction hk with
  | refl => exact he
  | tail _ hedge _ =>
    obtain ⟨_, _, _, hmem⟩ := hedge
    exact hmem

lemma reachableAt_finite {e : ObjKey} (he : e ∈ s.vectors) : (reachableAt s layer e).Finite :=
  (s.vectors.keys.toFinset.finite_toSet).subset fun k hk => by
    simpa [AList.mem_keys] using mem_vectors_of_mem_reachableAt he hk

end Reach

/-! ## The visited nodes -/

section Visited

variable {D : Type*} (s : HNSWIndex)

/-- The visited keys that are nodes. -/
def visitedNodes (st : SearchState D) : List ObjKey :=
  st.visited.filter fun k => decide (k ∈ s.vectors)

lemma visitedNodes_eq (st : SearchState D) :
    visitedNodes s st = st.visited.filter fun k => decide (k ∈ s.vectors) := rfl

variable {s}

lemma mem_visitedNodes {st : SearchState D} {k : ObjKey} :
    k ∈ visitedNodes s st ↔ k ∈ st.visited ∧ k ∈ s.vectors := by
  simp [visitedNodes_eq]

lemma visitedNodes_cons_of_mem {c w : List (SearchCandidate D)} {st : SearchState D}
    {k : ObjKey} (hk : k ∈ s.vectors) :
    visitedNodes s ⟨c, w, k :: st.visited⟩ = k :: visitedNodes s st := by
  simp [visitedNodes_eq, hk]

lemma visitedNodes_cons_of_not_mem {c w : List (SearchCandidate D)} {st : SearchState D}
    {k : ObjKey} (hk : k ∉ s.vectors) :
    visitedNodes s ⟨c, w, k :: st.visited⟩ = visitedNodes s st := by
  simp [visitedNodes_eq, hk]

/-- A list of distinct keys inside the nodes' keys is as long as the nodes it names. -/
lemma length_eq_ncard {V : List ObjKey} (hV : V.Nodup) :
    V.length = {k | k ∈ V}.ncard := by
  rw [← List.coe_toFinset, Set.ncard_coe_finset, List.toFinset_card_of_nodup hV]

end Visited

/-! ## The result heap -/

section Heap

variable {D : Type*} [LinearOrder D]

/-- The result heap stays sorted farthest first. -/
lemma pairwise_pushFarthest {c : SearchCandidate D} {w : List (SearchCandidate D)}
    (hw : w.Pairwise fun a b => b.distance ≤ a.distance) :
    (pushFarthest c w).Pairwise fun a b => b.distance ≤ a.distance := by
  have : Std.Total fun a b : SearchCandidate D => b.distance ≤ a.distance :=
    ⟨fun a b => le_total b.distance a.distance⟩
  have : IsTrans (SearchCandidate D) fun a b => b.distance ≤ a.distance :=
    ⟨fun _ _ _ hab hbc => hbc.trans hab⟩
  exact hw.orderedInsert c w

/-- The candidate heap stays sorted nearest first. -/
lemma pairwise_pushNearest {c : SearchCandidate D} {q : List (SearchCandidate D)}
    (hq : q.Pairwise fun a b => a.distance ≤ b.distance) :
    (pushNearest c q).Pairwise fun a b => a.distance ≤ b.distance := by
  have : Std.Total fun a b : SearchCandidate D => a.distance ≤ b.distance :=
    ⟨fun a b => le_total a.distance b.distance⟩
  have : IsTrans (SearchCandidate D) fun a b => a.distance ≤ b.distance :=
    ⟨fun _ _ _ hab hbc => hab.trans hbc⟩
  exact hq.orderedInsert c q

lemma length_pushFarthest (c : SearchCandidate D) (w : List (SearchCandidate D)) :
    (pushFarthest c w).length = w.length + 1 :=
  List.orderedInsert_length _ _ _

lemma length_pushNearest (c : SearchCandidate D) (q : List (SearchCandidate D)) :
    (pushNearest c q).length = q.length + 1 :=
  List.orderedInsert_length _ _ _

lemma keys_pushFarthest_perm (c : SearchCandidate D) (w : List (SearchCandidate D)) :
    ((pushFarthest c w).map SearchCandidate.objKey).Perm
      (c.objKey :: w.map SearchCandidate.objKey) :=
  (List.perm_orderedInsert _ c w).map _

/-- The head of a heap sorted farthest first is a farthest element. -/
lemma le_head_of_pairwise {w : List (SearchCandidate D)} {top c : SearchCandidate D}
    (hsorted : (top :: w).Pairwise fun a b => b.distance ≤ a.distance)
    (hc : c ∈ top :: w) : c.distance ≤ top.distance := by
  rcases List.mem_cons.mp hc with rfl | hc
  · exact le_refl _
  · exact List.rel_of_pairwise_cons hsorted hc

omit [LinearOrder D] in
/-- A heap of distinct keys, each in `V`, and as long as `V` holds every key of `V`. -/
lemma mem_keys_of_length {w : List (SearchCandidate D)} {V : List ObjKey}
    (hnodup : (w.map SearchCandidate.objKey).Nodup) (hsub : ∀ c ∈ w, c.objKey ∈ V)
    (hlen : V.length ≤ w.length) {k : ObjKey} (hk : k ∈ V) :
    k ∈ w.map SearchCandidate.objKey := by
  have hsubperm : (w.map SearchCandidate.objKey).Subperm V :=
    hnodup.subperm fun x hx => by
      obtain ⟨c, hc, rfl⟩ := List.mem_map.mp hx
      exact hsub c hc
  have hperm := hsubperm.perm_of_length_le (by rw [List.length_map]; exact hlen)
  exact hperm.mem_iff.mpr hk

end Heap

/-! ## The invariant of the search -/

section Invariant

variable {D : Type*} [LinearOrder D] (dist : Metrics D) (s : HNSWIndex) (query : List Binary64)
  (ef layer : Nat) (e : ObjKey)

/-- What a search from `e` at `layer` keeps: the visited keys are distinct, the heaps hold
visited nodes at their distances, the result heap is sorted farthest first, holds
`min(ef, |visited nodes|)` distinct nodes, none farther than a visited node it leaves out,
and every visited node is reachable from `e`. -/
structure SearchInv (st : SearchState D) : Prop where
  visited_nodup : st.visited.Nodup
  sound : st.Sound dist s query
  candidates_visited : ∀ c ∈ st.candidates, c.objKey ∈ st.visited
  w_visited : ∀ c ∈ st.w, c.objKey ∈ st.visited
  w_nodup : (st.w.map SearchCandidate.objKey).Nodup
  w_sorted : st.w.Pairwise fun a b => b.distance ≤ a.distance
  w_ne : st.w ≠ []
  w_length : st.w.length = min ef (visitedNodes s st).length
  w_best : ∀ k ∈ visitedNodes s st, k ∉ st.w.map SearchCandidate.objKey →
    ∀ c ∈ st.w, ∀ n, s.vectors.lookup k = some n →
      c.distance ≤ computeDistance dist s.config.metric query n.vector
  reach : ∀ k ∈ visitedNodes s st, k ∈ reachableAt s layer e

variable {dist s query ef layer e}

namespace SearchInv

variable {st : SearchState D} (h : SearchInv dist s query ef layer e st)
include h

lemma visitedNodes_nodup : (visitedNodes s st).Nodup :=
  h.visited_nodup.filter _

/-- The results are visited nodes. -/
lemma w_mem_visitedNodes {c : SearchCandidate D} (hc : c ∈ st.w) :
    c.objKey ∈ visitedNodes s st := by
  obtain ⟨n, hn, -⟩ := h.sound c (Or.inr hc)
  exact mem_visitedNodes.2 ⟨h.w_visited c hc, AList.lookup_isSome.mp (by rw [hn]; rfl)⟩

/-- A result heap that is not full holds every visited node. -/
lemma mem_w_of_lt {k : ObjKey} (hlt : st.w.length < ef) (hk : k ∈ visitedNodes s st) :
    k ∈ st.w.map SearchCandidate.objKey := by
  have hlen := h.w_length
  exact mem_keys_of_length h.w_nodup (fun c hc => h.w_mem_visitedNodes hc) (by omega) hk

/-- A result at key `k` is at `k`'s distance. -/
lemma distance_eq {c : SearchCandidate D} (hc : c ∈ st.w) {n : Node}
    (hn : s.vectors.lookup c.objKey = some n) :
    c.distance = computeDistance dist s.config.metric query n.vector := by
  obtain ⟨n', hn', hd⟩ := h.sound c (Or.inr hc)
  rw [hn, Option.some.injEq] at hn'
  subst hn'
  exact hd

/-- Popping a candidate keeps the invariant. -/
lemma pop {current : SearchCandidate D} {rest : List (SearchCandidate D)}
    (hcand : st.candidates = current :: rest) :
    SearchInv dist s query ef layer e { st with candidates := rest } where
  visited_nodup := h.visited_nodup
  sound := fun c hc => h.sound c (hc.imp (fun hc => hcand ▸ List.mem_cons_of_mem _ hc) id)
  candidates_visited := fun c hc => h.candidates_visited c (hcand ▸ List.mem_cons_of_mem _ hc)
  w_visited := h.w_visited
  w_nodup := h.w_nodup
  w_sorted := h.w_sorted
  w_ne := h.w_ne
  w_length := h.w_length
  w_best := h.w_best
  reach := h.reach

/-- Visiting a key that is not a node only marks it visited. -/
lemma visit_non_node {nk : ObjKey} (hnew : nk ∉ st.visited) (hnode : nk ∉ s.vectors) :
    SearchInv dist s query ef layer e { st with visited := nk :: st.visited } := by
  have hV : visitedNodes s { st with visited := nk :: st.visited } = visitedNodes s st :=
    visitedNodes_cons_of_not_mem hnode
  refine ⟨List.nodup_cons.mpr ⟨hnew, h.visited_nodup⟩, h.sound, fun c hc =>
    List.mem_cons_of_mem _ (h.candidates_visited c hc), fun c hc =>
    List.mem_cons_of_mem _ (h.w_visited c hc), h.w_nodup, h.w_sorted, h.w_ne, ?_, ?_, ?_⟩
  · rw [hV]
    exact h.w_length
  · rw [hV]
    exact h.w_best
  · rw [hV]
    exact h.reach

/-- A visited node left out of a full result heap. -/
lemma visit_rejected {nk : ObjKey} (hnew : nk ∉ st.visited) {nb : Node}
    (hnb : s.vectors.lookup nk = some nb) (hreach : nk ∈ reachableAt s layer e)
    (hadm : admits ef st.w (computeDistance dist s.config.metric query nb.vector) = false) :
    SearchInv dist s query ef layer e { st with visited := nk :: st.visited } := by
  have hmem : nk ∈ s.vectors := AList.lookup_isSome.mp (by rw [hnb]; rfl)
  obtain ⟨top, w, hw⟩ := List.exists_cons_of_ne_nil h.w_ne
  have hfull : ef ≤ st.w.length ∧ top.distance ≤
      computeDistance dist s.config.metric query nb.vector := by
    simp only [admits, hw, Bool.or_eq_false_iff, decide_eq_false_iff_not, not_lt] at hadm
    exact ⟨hw ▸ hadm.2, hadm.1⟩
  have hV : visitedNodes s { st with visited := nk :: st.visited } = nk :: visitedNodes s st :=
    visitedNodes_cons_of_mem hmem
  have hlen := h.w_length
  refine ⟨List.nodup_cons.mpr ⟨hnew, h.visited_nodup⟩, h.sound, fun c hc =>
    List.mem_cons_of_mem _ (h.candidates_visited c hc), fun c hc =>
    List.mem_cons_of_mem _ (h.w_visited c hc), h.w_nodup, h.w_sorted, h.w_ne, ?_, ?_, ?_⟩
  · rw [hV, List.length_cons]
    dsimp only
    omega
  · rw [hV]
    intro k hk hkw c hc n hn
    rcases List.mem_cons.mp hk with rfl | hk
    · -- the new node is no nearer than the farthest result
      rw [hnb, Option.some.injEq] at hn
      subst hn
      have hsorted := h.w_sorted
      rw [hw] at hc hsorted
      exact (le_head_of_pairwise hsorted hc).trans hfull.2
    · exact h.w_best k hk hkw c hc n hn
  · rw [hV]
    intro k hk
    rcases List.mem_cons.mp hk with rfl | hk
    · exact hreach
    · exact h.reach k hk

/-- A node admitted to the result heap, which then drops its farthest result if it holds more
than `ef`. -/
lemma visit_admitted {nk : ObjKey} (hnew : nk ∉ st.visited) {nb : Node}
    (hnb : s.vectors.lookup nk = some nb) (hreach : nk ∈ reachableAt s layer e) {d : D}
    (hd : computeDistance dist s.config.metric query nb.vector = d)
    (hadm : admits ef st.w d = true) :
    SearchInv dist s query ef layer e
      ⟨pushNearest ⟨nk, d⟩ st.candidates,
        if ef < (pushFarthest ⟨nk, d⟩ st.w).length then (pushFarthest ⟨nk, d⟩ st.w).tail
        else pushFarthest ⟨nk, d⟩ st.w,
        nk :: st.visited⟩ := by
  have hmem : nk ∈ s.vectors := AList.lookup_isSome.mp (by rw [hnb]; rfl)
  have hlen := h.w_length
  have hlen' := length_pushFarthest ⟨nk, d⟩ st.w
  have hwpos : 0 < st.w.length := List.length_pos_of_ne_nil h.w_ne
  -- what the pushed heap inherits from the old one and the new node
  have hfound : ∀ c ∈ pushFarthest ⟨nk, d⟩ st.w, IsFound dist s query (c.objKey, c.distance) := by
    intro c hc
    rcases mem_pushFarthest.mp hc with rfl | hc
    · exact ⟨nb, hnb, hd.symm⟩
    · exact h.sound c (Or.inr hc)
  have hvis : ∀ c ∈ pushFarthest ⟨nk, d⟩ st.w, c.objKey ∈ nk :: st.visited := by
    intro c hc
    rcases mem_pushFarthest.mp hc with rfl | hc
    · exact List.mem_cons_self
    · exact List.mem_cons_of_mem _ (h.w_visited c hc)
  have hnodup : ((pushFarthest ⟨nk, d⟩ st.w).map SearchCandidate.objKey).Nodup := by
    refine (keys_pushFarthest_perm _ _).nodup_iff.mpr (List.nodup_cons.mpr ⟨?_, h.w_nodup⟩)
    intro hk
    obtain ⟨c, hc, hck⟩ := List.mem_map.mp hk
    have hcv := h.w_visited c hc
    rw [hck] at hcv
    exact hnew hcv
  have hsorted := pairwise_pushFarthest (c := ⟨nk, d⟩) h.w_sorted
  have hcand : ∀ c ∈ pushNearest ⟨nk, d⟩ st.candidates, c.objKey ∈ nk :: st.visited := by
    intro c hc
    rcases mem_pushNearest.mp hc with rfl | hc
    · exact List.mem_cons_self
    · exact List.mem_cons_of_mem _ (h.candidates_visited c hc)
  have hsound : ∀ c, c ∈ pushNearest ⟨nk, d⟩ st.candidates ∨ c ∈ pushFarthest ⟨nk, d⟩ st.w →
      IsFound dist s query (c.objKey, c.distance) := by
    rintro c (hc | hc)
    · rcases mem_pushNearest.mp hc with rfl | hc
      · exact ⟨nb, hnb, hd.symm⟩
      · exact h.sound c (Or.inl hc)
    · exact hfound c hc
  have hreach' : ∀ k ∈ visitedNodes s ⟨pushNearest ⟨nk, d⟩ st.candidates, [], nk :: st.visited⟩,
      k ∈ reachableAt s layer e := by
    rw [visitedNodes_cons_of_mem hmem]
    intro k hk
    rcases List.mem_cons.mp hk with rfl | hk
    · exact hreach
    · exact h.reach k hk
  by_cases hdrop : ef < (pushFarthest ⟨nk, d⟩ st.w).length
  · -- the heap was full, so the node entered by being nearer than the farthest result, which
    -- the push moved to the head and the drop removes
    rw [if_pos hdrop]
    obtain ⟨otop, orest, hotop⟩ := List.exists_cons_of_ne_nil h.w_ne
    have hlt : d < otop.distance := by
      simp only [admits, hotop, Bool.or_eq_true, decide_eq_true_eq] at hadm
      rw [← hotop] at hadm
      exact hadm.resolve_right (by omega)
    obtain ⟨top, rest, htop⟩ : ∃ top rest, pushFarthest ⟨nk, d⟩ st.w = top :: rest :=
      List.exists_cons_of_ne_nil (List.ne_nil_of_length_pos (by omega))
    rw [htop] at hlen' hdrop hfound hvis hnodup hsorted ⊢
    rw [List.length_cons] at hlen' hdrop
    rw [List.tail_cons]
    refine ⟨List.nodup_cons.mpr ⟨hnew, h.visited_nodup⟩, fun c hc => ?_, hcand,
      fun c hc => hvis c (List.mem_cons_of_mem _ hc), (List.nodup_cons.mp hnodup).2,
      hsorted.of_cons, ?_, ?_, ?_, ?_⟩
    · rw [← htop] at hfound
      exact hsound c (hc.imp id fun hc => htop ▸ List.mem_cons_of_mem _ hc)
    · dsimp only
      exact List.ne_nil_of_length_pos (by omega)
    · rw [visitedNodes_cons_of_mem hmem, List.length_cons]
      dsimp only
      omega
    · rw [visitedNodes_cons_of_mem hmem]
      intro k hk hkw c hc n hn
      dsimp only at hkw hc
      by_cases hktop : k = top.objKey
      · -- the dropped result: every kept one is no farther
        subst hktop
        obtain ⟨n', hn', hdn⟩ := hfound top List.mem_cons_self
        rw [hn, Option.some.injEq] at hn'
        subst hn'
        exact (le_head_of_pairwise hsorted (List.mem_cons_of_mem _ hc)).trans_eq hdn
      · have hkw' : k ∉ (top :: rest).map SearchCandidate.objKey := by
          rw [List.map_cons, List.mem_cons]
          exact fun h' => h'.elim hktop hkw
        rw [← htop] at hkw'
        have hk' : k ∉ st.w.map SearchCandidate.objKey := fun h' =>
          hkw' ((keys_pushFarthest_perm _ _).mem_iff.mpr (List.mem_cons_of_mem _ h'))
        have hknk : k ≠ nk := fun h' =>
          hkw' ((keys_pushFarthest_perm _ _).mem_iff.mpr (h' ▸ List.mem_cons_self))
        have hkV : k ∈ visitedNodes s st := (List.mem_cons.mp hk).resolve_left hknk
        have hc' : c ∈ pushFarthest ⟨nk, d⟩ st.w := htop ▸ List.mem_cons_of_mem _ hc
        rcases mem_pushFarthest.mp hc' with rfl | hc'
        · exact hlt.le.trans (h.w_best k hkV hk' otop (hotop ▸ List.mem_cons_self) n hn)
        · exact h.w_best k hkV hk' c hc' n hn
    · exact hreach'
  · -- the heap was not full, so it held every visited node and now also holds the new one
    rw [if_neg hdrop]
    refine ⟨List.nodup_cons.mpr ⟨hnew, h.visited_nodup⟩, hsound, hcand, hvis, hnodup, hsorted,
      ?_, ?_, ?_, ?_⟩
    · dsimp only
      exact List.ne_nil_of_length_pos (by omega)
    · rw [visitedNodes_cons_of_mem hmem, List.length_cons]
      dsimp only
      omega
    · rw [visitedNodes_cons_of_mem hmem]
      intro k hk hkw
      dsimp only at hkw
      exfalso
      rcases List.mem_cons.mp hk with rfl | hk
      · exact hkw ((keys_pushFarthest_perm _ _).mem_iff.mpr List.mem_cons_self)
      · exact hkw ((keys_pushFarthest_perm _ _).mem_iff.mpr
          (List.mem_cons_of_mem _ (h.mem_w_of_lt (by omega) hk)))
    · exact hreach'

/-- One pass of the inner loop keeps the invariant, for a neighbour reachable from `e` if it
is a node. -/
lemma visitNeighbor (nk : ObjKey)
    (hreach : nk ∈ s.vectors → nk ∈ reachableAt s layer e) :
    SearchInv dist s query ef layer e (Realm.visitNeighbor dist s query ef st nk) := by
  unfold Realm.visitNeighbor
  split
  · exact h
  · rename_i hnew
    dsimp only
    split
    · rename_i hnb
      exact h.visit_non_node hnew (AList.lookup_eq_none.mp hnb)
    · rename_i nb hnb
      have hreach' := hreach (AList.lookup_isSome.mp (by rw [hnb]; rfl))
      split
      · exact h.visit_admitted hnew hnb hreach' rfl ‹_›
      · exact h.visit_rejected hnew hnb hreach' (Bool.eq_false_iff.mpr ‹_›)

end SearchInv

end Invariant

/-! ## The candidate loop -/

section Loop

variable {D : Type*} [LinearOrder D] (dist : Metrics D) (s : HNSWIndex) (query : List Binary64)
  (ef layer : Nat)

lemma visited_visitNeighbor (st : SearchState D) (nk : ObjKey) :
    (visitNeighbor dist s query ef st nk).visited =
      if nk ∈ st.visited then st.visited else nk :: st.visited := by
  unfold visitNeighbor
  split
  · rfl
  · dsimp only
    split
    · rfl
    · split <;> rfl

lemma candidates_subset_visitNeighbor (st : SearchState D) (nk : ObjKey) :
    st.candidates ⊆ (visitNeighbor dist s query ef st nk).candidates := by
  unfold visitNeighbor
  split
  · exact List.Subset.refl _
  · dsimp only
    split
    · exact List.Subset.refl _
    · split
      · exact fun c hc => mem_pushNearest.mpr (Or.inr hc)
      · exact List.Subset.refl _

/-- Induction over the visits of a list of neighbours. -/
lemma foldl_visitNeighbor_induction (P : SearchState D → Prop) {l : List ObjKey}
    (hstep : ∀ st, ∀ nk ∈ l, P st → P (visitNeighbor dist s query ef st nk)) :
    ∀ st, P st → P (l.foldl (visitNeighbor dist s query ef) st) := by
  induction l with
  | nil => exact fun _ h => h
  | cons nk l ih =>
    intro st h
    rw [List.foldl_cons]
    exact ih (fun st' nk' hnk' => hstep st' nk' (List.mem_cons_of_mem _ hnk')) _
      (hstep st nk List.mem_cons_self h)

/-- After visiting a list of neighbours, each of them is visited. -/
lemma mem_visited_foldl_visitNeighbor (l : List ObjKey) (st : SearchState D) :
    ∀ nk ∈ l ++ st.visited, nk ∈ (l.foldl (visitNeighbor dist s query ef) st).visited := by
  induction l generalizing st with
  | nil => exact fun nk hnk => by simpa using hnk
  | cons k l ih =>
    intro nk hnk
    rw [List.foldl_cons]
    refine ih _ nk (List.mem_append.mpr ?_)
    rw [visited_visitNeighbor]
    rcases List.mem_cons.mp (List.cons_append ▸ hnk) with rfl | hnk
    · right
      split <;> simp_all
    · rcases List.mem_append.mp hnk with hnk | hnk
      · exact Or.inl hnk
      · right
        split
        · exact hnk
        · exact List.mem_cons_of_mem _ hnk

/-- The invariant rule of the candidate loop: a property kept by each branch of a round (a
pop that stops the search, a pop of a candidate with nothing to expand at `layer`, and a pop
followed by the visit of the candidate's neighbours) holds when the loop ends. -/
theorem searchLoop_induction (P : SearchState D → Prop)
    (hstop : ∀ st current rest, st.candidates = current :: rest →
      stops ef st.w current.distance = true → P st → P { st with candidates := rest })
    (hskip : ∀ st current rest, st.candidates = current :: rest →
      stops ef st.w current.distance = false →
      (∀ node, s.vectors.lookup current.objKey = some node → node.connections.length ≤ layer) →
      P st → P { st with candidates := rest })
    (hexpand : ∀ st current rest node, st.candidates = current :: rest →
      stops ef st.w current.distance = false → s.vectors.lookup current.objKey = some node →
      layer < node.connections.length → P st →
      P ((node.neighbors layer).foldl (visitNeighbor dist s query ef)
        { st with candidates := rest })) :
    ∀ fuel st, P st → P (searchLoop dist s query ef layer fuel st)
  | 0, _, h => h
  | fuel + 1, st, h => by
    unfold searchLoop
    split
    · exact h
    · rename_i current rest hcand
      dsimp only
      split
      · exact hstop st current rest hcand ‹_› h
      · have hgo : stops ef st.w current.distance = false := Bool.eq_false_iff.mpr ‹_›
        split
        · rename_i hnone
          refine searchLoop_induction P hstop hskip hexpand fuel _
            (hskip st current rest hcand hgo (fun node hn => ?_) h)
          rw [hnone] at hn
          cases hn
        · rename_i node hnode
          split
          · refine searchLoop_induction P hstop hskip hexpand fuel _
              (hskip st current rest hcand hgo (fun node' hn => ?_) h)
            rw [hnode, Option.some.injEq] at hn
            subst hn
            assumption
          · exact searchLoop_induction P hstop hskip hexpand fuel _
              (hexpand st current rest node hcand hgo hnode (not_le.mp ‹_›) h)

variable {dist s query ef layer}

/-- A candidate is a visited node, so the nodes among its neighbours are reachable. -/
lemma SearchInv.reachableAt_of_neighbor {e : ObjKey} {st : SearchState D}
    (h : SearchInv dist s query ef layer e st) {current : SearchCandidate D}
    {rest : List (SearchCandidate D)} (hcand : st.candidates = current :: rest) {node : Node}
    (hnode : s.vectors.lookup current.objKey = some node) :
    ∀ nk ∈ node.neighbors layer, nk ∈ s.vectors → nk ∈ reachableAt s layer e := by
  have hc : current ∈ st.candidates := hcand ▸ List.mem_cons_self
  have hcur : current.objKey ∈ reachableAt s layer e :=
    h.reach _ (mem_visitedNodes.mpr ⟨h.candidates_visited _ hc,
      AList.lookup_isSome.mp (by rw [hnode]; rfl)⟩)
  exact fun nk hnk hm => mem_reachableAt_of_edge hcur ⟨node, hnode, hnk, hm⟩

/-- Popping a candidate and visiting its neighbours keeps the invariant. -/
lemma SearchInv.expand {e : ObjKey} {st : SearchState D} (h : SearchInv dist s query ef layer e st)
    {current : SearchCandidate D} {rest : List (SearchCandidate D)}
    (hcand : st.candidates = current :: rest) {node : Node}
    (hnode : s.vectors.lookup current.objKey = some node) :
    SearchInv dist s query ef layer e
      ((node.neighbors layer).foldl (Realm.visitNeighbor dist s query ef)
        { st with candidates := rest }) := by
  refine foldl_visitNeighbor_induction dist s query ef _ ?_ _ (h.pop hcand)
  exact fun st' nk hnk h' => h'.visitNeighbor nk (h.reachableAt_of_neighbor hcand hnode nk hnk)

/-- The loop keeps the invariant of the search. -/
lemma SearchInv.searchLoop {e : ObjKey} (fuel : Nat) {st : SearchState D}
    (h : SearchInv dist s query ef layer e st) :
    SearchInv dist s query ef layer e (Realm.searchLoop dist s query ef layer fuel st) :=
  searchLoop_induction dist s query ef layer _ (fun _ _ _ hcand _ h => h.pop hcand)
    (fun _ _ _ hcand _ _ h => h.pop hcand)
    (fun _ _ _ _ hcand _ hnode _ h => h.expand hcand hnode) fuel st h

/-- In a graph whose neighbour lists name nodes, the loop visits nodes only. -/
lemma searchLoop_visited_subset
    (hclosed : ∀ a n, s.vectors.lookup a = some n → ∀ l b, b ∈ n.neighbors l → b ∈ s.vectors)
    (fuel : Nat) {st : SearchState D} (h : ∀ k ∈ st.visited, k ∈ s.vectors) :
    ∀ k ∈ (Realm.searchLoop dist s query ef layer fuel st).visited, k ∈ s.vectors := by
  refine searchLoop_induction dist s query ef layer (fun st => ∀ k ∈ st.visited, k ∈ s.vectors)
    (fun _ _ _ _ _ h => h) (fun _ _ _ _ _ _ h => h) ?_ fuel st h
  intro st current rest node _ _ hnode _ h
  refine foldl_visitNeighbor_induction dist s query ef
    (fun st => ∀ k ∈ st.visited, k ∈ s.vectors) ?_ { st with candidates := rest } h
  intro st' nk hnk h' k hk
  rw [visited_visitNeighbor] at hk
  split at hk
  · exact h' k hk
  · rcases List.mem_cons.mp hk with rfl | hk
    · exact hclosed _ node hnode layer k hnk
    · exact h' k hk

variable (dist s query ef layer) in
/-- The loop never forgets a visited key. -/
lemma visited_subset_searchLoop (fuel : Nat) (st : SearchState D) :
    st.visited ⊆ (Realm.searchLoop dist s query ef layer fuel st).visited := by
  refine searchLoop_induction dist s query ef layer (fun st' => st.visited ⊆ st'.visited)
    (fun _ _ _ _ _ h => h) (fun _ _ _ _ _ _ h => h) ?_ fuel st (List.Subset.refl _)
  intro st' current rest node _ _ _ _ h k hk
  exact mem_visited_foldl_visitNeighbor dist s query ef _ _ k (List.mem_append_right _ (h hk))

/-- A stop leaves a full result heap. -/
lemma le_length_of_stops {w : List (SearchCandidate D)} {d : D} (h : stops ef w d = true) :
    ef ≤ w.length := by
  unfold stops at h
  rw [Bool.and_eq_true] at h
  exact of_decide_eq_true h.2

/-! ## The loop ends on an empty queue or a full heap -/

section Measure

variable (s) in
/-- The candidates left plus the nodes not yet visited. -/
def searchMeasure (st : SearchState D) : Nat :=
  st.candidates.length + (s.vectors.keys.toFinset \ st.visited.toFinset).card

lemma card_sdiff_cons_le (K : Finset ObjKey) (V : List ObjKey) (k : ObjKey) :
    (K \ (k :: V).toFinset).card ≤ (K \ V.toFinset).card :=
  Finset.card_le_card (Finset.sdiff_subset_sdiff (le_refl K)
    (by rw [List.toFinset_cons]; exact Finset.subset_insert _ _))

lemma card_sdiff_cons_add_one {K : Finset ObjKey} {V : List ObjKey} {k : ObjKey} (hK : k ∈ K)
    (hV : k ∉ V) : (K \ (k :: V).toFinset).card + 1 = (K \ V.toFinset).card := by
  have hk : k ∈ K \ V.toFinset := Finset.mem_sdiff.mpr ⟨hK, by simpa using hV⟩
  rw [List.toFinset_cons, Finset.sdiff_insert, Finset.card_erase_of_mem hk]
  have := Finset.card_pos.mpr ⟨k, hk⟩
  omega

/-- A visit never raises the measure: a node it pushes as a candidate is one it marks
visited. -/
lemma searchMeasure_visitNeighbor_le (st : SearchState D) (nk : ObjKey) :
    searchMeasure s (visitNeighbor dist s query ef st nk) ≤ searchMeasure s st := by
  unfold visitNeighbor searchMeasure
  split
  · exact le_refl _
  · rename_i hnew
    dsimp only
    have hle := card_sdiff_cons_le s.vectors.keys.toFinset st.visited nk
    split
    · dsimp only
      omega
    · rename_i nb hnb
      split
      · have hK : nk ∈ s.vectors.keys.toFinset :=
          List.mem_toFinset.mpr (AList.mem_keys.mpr (AList.lookup_isSome.mp (by rw [hnb]; rfl)))
        have hlt := card_sdiff_cons_add_one hK hnew
        dsimp only
        rw [length_pushNearest]
        omega
      · dsimp only
        omega

lemma searchMeasure_foldl_le (l : List ObjKey) (st : SearchState D) :
    searchMeasure s (l.foldl (visitNeighbor dist s query ef) st) ≤ searchMeasure s st :=
  foldl_visitNeighbor_induction dist s query ef (fun st' => searchMeasure s st' ≤ searchMeasure s st)
    (fun st' nk _ h => (searchMeasure_visitNeighbor_le st' nk).trans h) st (le_refl _)

variable (dist query ef layer) in
/-- The exit rule of the candidate loop: with fuel at least the measure, a property `P` kept
by every round that goes on gives `Q` at the end, when `Q` follows from `P` at both exits, an
empty candidate heap and a stop.  The loop never ends for want of fuel. -/
theorem searchLoop_exit (P Q : SearchState D → Prop)
    (hempty : ∀ st, st.candidates = [] → P st → Q st)
    (hstop : ∀ st current rest, st.candidates = current :: rest →
      stops ef st.w current.distance = true → P st → Q { st with candidates := rest })
    (hskip : ∀ st current rest, st.candidates = current :: rest →
      stops ef st.w current.distance = false →
      (∀ node, s.vectors.lookup current.objKey = some node → node.connections.length ≤ layer) →
      P st → P { st with candidates := rest })
    (hexpand : ∀ st current rest node, st.candidates = current :: rest →
      stops ef st.w current.distance = false → s.vectors.lookup current.objKey = some node →
      layer < node.connections.length → P st →
      P ((node.neighbors layer).foldl (visitNeighbor dist s query ef)
        { st with candidates := rest })) :
    ∀ (fuel : Nat) (st : SearchState D), searchMeasure s st ≤ fuel → P st →
      Q (Realm.searchLoop dist s query ef layer fuel st)
  | 0, st, hμ, h => hempty st (List.eq_nil_of_length_eq_zero
      (show st.candidates.length = 0 by unfold searchMeasure at hμ; omega)) h
  | fuel + 1, st, hμ, h => by
    unfold Realm.searchLoop
    split
    · exact hempty st ‹_› h
    · rename_i current rest hcand
      -- each round pops a candidate
      have hpop : searchMeasure s { st with candidates := rest } ≤ fuel := by
        unfold searchMeasure at hμ ⊢
        rw [hcand, List.length_cons] at hμ
        dsimp only
        omega
      dsimp only
      split
      · exact hstop st current rest hcand ‹_› h
      · have hgo : stops ef st.w current.distance = false := Bool.eq_false_iff.mpr ‹_›
        split
        · rename_i hnone
          refine searchLoop_exit P Q hempty hstop hskip hexpand fuel _ hpop
            (hskip st current rest hcand hgo (fun node hn => ?_) h)
          rw [hnone] at hn
          cases hn
        · rename_i node hnode
          split
          · refine searchLoop_exit P Q hempty hstop hskip hexpand fuel _ hpop
              (hskip st current rest hcand hgo (fun node' hn => ?_) h)
            rw [hnode, Option.some.injEq] at hn
            subst hn
            assumption
          · exact searchLoop_exit P Q hempty hstop hskip hexpand fuel _
              ((searchMeasure_foldl_le _ _).trans hpop)
              (hexpand st current rest node hcand hgo hnode (not_le.mp ‹_›) h)

variable (dist query ef layer) in
/-- With fuel at least the measure, the loop ends on an empty candidate heap or at a stop,
with a full result heap; never for want of fuel. -/
theorem searchLoop_ends (fuel : Nat) (st : SearchState D) (hμ : searchMeasure s st ≤ fuel) :
    (Realm.searchLoop dist s query ef layer fuel st).candidates = [] ∨
      ef ≤ (Realm.searchLoop dist s query ef layer fuel st).w.length :=
  searchLoop_exit dist query ef layer (fun _ => True)
    (fun st => st.candidates = [] ∨ ef ≤ st.w.length)
    (fun _ hempty _ => Or.inl hempty) (fun _ _ _ _ hstop _ => Or.inr (le_length_of_stops hstop))
    (fun _ _ _ _ _ _ _ => trivial) (fun _ _ _ _ _ _ _ _ _ => trivial) fuel st hμ trivial

end Measure

end Loop

/-! ## Exhaustive search -/

section Exhaustive

variable {D : Type*} [LinearOrder D] {dist : Metrics D} {s : HNSWIndex} {query : List Binary64}
  {ef layer : Nat} {e : ObjKey}

variable (s layer) in
/-- Every visited node not waiting in the candidate heap has had its neighbours at `layer`
visited. -/
def Expanded (st : SearchState D) : Prop :=
  ∀ k ∈ visitedNodes s st, k ∈ st.candidates.map SearchCandidate.objKey ∨
    ∀ n, s.vectors.lookup k = some n → ∀ nk ∈ n.neighbors layer, nk ∈ st.visited

omit [LinearOrder D] in
/-- Once the candidate heap is empty, an expanded search has visited every node reachable
from a visited start. -/
lemma reachableAt_subset_of_expanded {st : SearchState D} (hexp : Expanded s layer st)
    (hempty : st.candidates = []) (he : e ∈ st.visited) :
    ∀ k ∈ reachableAt s layer e, k ∈ st.visited := by
  intro k hk
  induction hk with
  | refl => exact he
  | tail _ hedge ih =>
    obtain ⟨n, hn, hb, -⟩ := hedge
    have ha : _ ∈ visitedNodes s st :=
      mem_visitedNodes.mpr ⟨ih, AList.lookup_isSome.mp (by rw [hn]; rfl)⟩
    rcases hexp _ ha with hcand | hnb
    · rw [hempty] at hcand
      cases hcand
    · exact hnb n hn _ hb

namespace SearchInv

variable {st : SearchState D} (h : SearchInv dist s query ef layer e st)
include h

/-- A reachable node not yet visited: the visited nodes are fewer than the reachable ones. -/
lemma length_visitedNodes_lt (hfin : (reachableAt s layer e).Finite) {nk : ObjKey}
    (hnk : nk ∈ reachableAt s layer e) (hnew : nk ∉ st.visited) :
    (visitedNodes s st).length < (reachableAt s layer e).ncard := by
  rw [length_eq_ncard h.visitedNodes_nodup]
  refine Set.ncard_lt_ncard (ssubset_of_subset_not_subset (fun k hk => h.reach k hk) ?_) hfin
  exact fun hsub => hnew (mem_visitedNodes.mp (hsub hnk)).1

lemma length_visitedNodes_le (hfin : (reachableAt s layer e).Finite) :
    (visitedNodes s st).length ≤ (reachableAt s layer e).ncard := by
  rw [length_eq_ncard h.visitedNodes_nodup]
  exact Set.ncard_le_ncard (fun k hk => h.reach k hk) hfin

/-- A full result heap, when `ef` is at least the number of nodes reachable from `e`, means
every one of them is visited. -/
lemma reachableAt_subset_of_full (hfin : (reachableAt s layer e).Finite)
    (hC : (reachableAt s layer e).ncard ≤ ef) (hfull : ef ≤ st.w.length) :
    ∀ k ∈ reachableAt s layer e, k ∈ st.visited := by
  have hlen := h.w_length
  have hle := h.length_visitedNodes_le hfin
  have heq : {k | k ∈ visitedNodes s st} = reachableAt s layer e :=
    Set.eq_of_subset_of_ncard_le (fun k hk => h.reach k hk)
      (by rw [← length_eq_ncard h.visitedNodes_nodup]; omega) hfin
  intro k hk
  rw [← heq] at hk
  exact (mem_visitedNodes.mp hk).1

/-- When `ef` is at least the number of nodes reachable from `e`, a reachable node visited for
the first time is admitted, and so becomes a candidate. -/
lemma mem_candidates_visitNeighbor (he : e ∈ s.vectors) (hC : (reachableAt s layer e).ncard ≤ ef)
    {nk : ObjKey} (hnk : nk ∈ reachableAt s layer e) (hnew : nk ∉ st.visited) :
    nk ∈ (Realm.visitNeighbor dist s query ef st nk).candidates.map SearchCandidate.objKey := by
  have hlt := h.length_visitedNodes_lt (reachableAt_finite he) hnk hnew
  have hlen := h.w_length
  obtain ⟨nb, hnb⟩ : ∃ nb, s.vectors.lookup nk = some nb :=
    Option.isSome_iff_exists.mp (AList.lookup_isSome.mpr (mem_vectors_of_mem_reachableAt he hnk))
  have hadm : admits ef st.w (computeDistance dist s.config.metric query nb.vector) = true := by
    unfold admits
    rw [Bool.or_eq_true]
    exact Or.inr (decide_eq_true (by omega))
  unfold Realm.visitNeighbor
  simp only [hnew, if_false, hnb, hadm, if_true]
  exact List.mem_map.mpr ⟨_, mem_pushNearest.mpr (Or.inl rfl), rfl⟩

/-- Visiting neighbours that are reachable from `e` when they are nodes, with `ef` at least
the number of nodes reachable from `e`: the candidates and the visited keys stay, and each
node visited for the first time becomes a candidate. -/
lemma foldl_visitNeighbor_fresh (he : e ∈ s.vectors) (hC : (reachableAt s layer e).ncard ≤ ef)
    {l : List ObjKey} (hl : ∀ nk ∈ l, nk ∈ s.vectors → nk ∈ reachableAt s layer e) :
    SearchInv dist s query ef layer e (l.foldl (Realm.visitNeighbor dist s query ef) st) ∧
      st.candidates ⊆ (l.foldl (Realm.visitNeighbor dist s query ef) st).candidates ∧
      st.visited ⊆ (l.foldl (Realm.visitNeighbor dist s query ef) st).visited ∧
      ∀ k ∈ visitedNodes s (l.foldl (Realm.visitNeighbor dist s query ef) st), k ∉ st.visited →
        k ∈ (l.foldl (Realm.visitNeighbor dist s query ef) st).candidates.map
          SearchCandidate.objKey := by
  refine foldl_visitNeighbor_induction dist s query ef
    (fun st' => SearchInv dist s query ef layer e st' ∧ st.candidates ⊆ st'.candidates ∧
      st.visited ⊆ st'.visited ∧ ∀ k ∈ visitedNodes s st', k ∉ st.visited →
        k ∈ st'.candidates.map SearchCandidate.objKey) ?_ st
    ⟨h, List.Subset.refl _, List.Subset.refl _, fun k hk hk₀ => absurd (mem_visitedNodes.mp hk).1 hk₀⟩
  rintro st' nk hnk ⟨h', hcand, hvis, hnew⟩
  have hsub := candidates_subset_visitNeighbor dist s query ef st' nk
  refine ⟨h'.visitNeighbor nk (hl nk hnk), List.Subset.trans hcand hsub, fun k hk => ?_, fun k hk hk₀ => ?_⟩
  · rw [visited_visitNeighbor]
    split
    · exact hvis hk
    · exact List.mem_cons_of_mem _ (hvis hk)
  · obtain ⟨hkv, hkmem⟩ := mem_visitedNodes.mp hk
    by_cases hkst : k ∈ st'.visited
    · exact List.map_subset _ hsub (hnew k (mem_visitedNodes.mpr ⟨hkst, hkmem⟩) hk₀)
    · -- `k` is the neighbour just visited, for the first time
      have hknk : k = nk := by
        rw [visited_visitNeighbor] at hkv
        split at hkv
        · exact absurd hkv hkst
        · exact (List.mem_cons.mp hkv).resolve_right hkst
      subst hknk
      exact h'.mem_candidates_visitNeighbor he hC (hl k hnk hkmem) hkst

end SearchInv

/-- When `ef` is at least the number of nodes reachable from `e`, the loop keeps the search
expanded until every node reachable from `e` is visited. -/
lemma searchLoop_expanded (he : e ∈ s.vectors) (hC : (reachableAt s layer e).ncard ≤ ef)
    (fuel : Nat) {st : SearchState D} (h : SearchInv dist s query ef layer e st)
    (hx : Expanded s layer st ∨ ∀ k ∈ reachableAt s layer e, k ∈ st.visited) :
    Expanded s layer (searchLoop dist s query ef layer fuel st) ∨
      ∀ k ∈ reachableAt s layer e, k ∈ (searchLoop dist s query ef layer fuel st).visited := by
  refine (searchLoop_induction dist s query ef layer
    (fun st => SearchInv dist s query ef layer e st ∧
      (Expanded s layer st ∨ ∀ k ∈ reachableAt s layer e, k ∈ st.visited)) ?_ ?_ ?_
    fuel st ⟨h, hx⟩).2
  · -- a stop comes with a full result heap
    rintro st current rest hcand hstop ⟨h, -⟩
    exact ⟨h.pop hcand, Or.inr (h.reachableAt_subset_of_full (reachableAt_finite he) hC
      (le_length_of_stops hstop))⟩
  · -- a candidate without a list at `layer` has no neighbours there
    rintro st current rest hcand - hno ⟨h, hx⟩
    refine ⟨h.pop hcand, hx.imp (fun hexp k hk => ?_) id⟩
    rcases hexp k hk with hk' | hnb
    · rw [hcand, List.map_cons] at hk'
      rcases List.mem_cons.mp hk' with rfl | hk'
      · right
        intro n hn nk hnk
        rw [Node.neighbors_eq_nil (hno n hn)] at hnk
        cases hnk
      · exact Or.inl hk'
    · exact Or.inr hnb
  · rintro st current rest node hcand - hnode - ⟨h, hx⟩
    obtain ⟨h', hcand', hvis', hnew'⟩ :=
      (h.pop hcand).foldl_visitNeighbor_fresh he hC (h.reachableAt_of_neighbor hcand hnode)
    refine ⟨h', hx.imp (fun hexp k hk => ?_) (fun hall k hk => hvis' (hall k hk))⟩
    by_cases hk₀ : k ∈ st.visited
    · rcases hexp k (mem_visitedNodes.mpr ⟨hk₀, (mem_visitedNodes.mp hk).2⟩) with hk' | hnb
      · rw [hcand, List.map_cons] at hk'
        rcases List.mem_cons.mp hk' with rfl | hk'
        · -- the popped candidate, whose neighbours were just visited
          right
          intro n hn nk hnk
          rw [hnode, Option.some.injEq] at hn
          subst hn
          exact mem_visited_foldl_visitNeighbor dist s query ef _ _ nk (List.mem_append_left _ hnk)
        · exact Or.inl (List.map_subset _ hcand' hk')
      · exact Or.inr fun n hn nk hnk => hvis' (hnb n hn nk hnk)
    · exact Or.inl (hnew' k hk hk₀)

end Exhaustive

/-! ## What the search returns -/

section Result

variable {D : Type*} [LinearOrder D] (dist : Metrics D) (s : HNSWIndex) (query : List Binary64)
  (ef : Nat)

/-- The state the candidate loop of `search_layer_with_distances` ends in; the search returns
its result heap, and returns early as from an empty state. -/
def searchLayerEnd (entryPoint : ObjKey) (layer : Nat) : SearchState D :=
  if !entryPoint.isSet || s.vectors.entries.isEmpty then ⟨[], [], []⟩
  else
    match s.vectors.lookup entryPoint with
    | none => ⟨[], [], []⟩
    | some e =>
      let c : SearchCandidate D := ⟨entryPoint, computeDistance dist s.config.metric query e.vector⟩
      searchLoop dist s query ef layer s.vectors.entries.length ⟨[c], [c], [entryPoint]⟩

lemma searchLayerWithDistances_eq_searchLayerEnd (entryPoint : ObjKey) (layer : Nat) :
    searchLayerWithDistances dist s query ef entryPoint layer =
      ((searchLayerEnd dist s query ef entryPoint layer).w.map
        fun c => (c.objKey, c.distance)).reverse := by
  unfold searchLayerWithDistances searchLayerEnd
  split
  · rfl
  · cases s.vectors.lookup entryPoint <;> rfl

lemma keys_searchLayerWithDistances (entryPoint : ObjKey) (layer : Nat) :
    (searchLayerWithDistances dist s query ef entryPoint layer).map Prod.fst =
      ((searchLayerEnd dist s query ef entryPoint layer).w.map SearchCandidate.objKey).reverse := by
  rw [searchLayerWithDistances_eq_searchLayerEnd, List.map_reverse, List.map_map]
  rfl

variable (layer : Nat) (e : ObjKey)

/-- What `search_layer_with_distances` from `e` at `layer` returns, given the keys `visited`
its loop examined: distinct nodes at their distances to the query, each reachable from `e`,
nearest first, `min(ef, |visited|)` of them, none farther than an examined node left out, and,
when `ef` is at least the number of nodes reachable from `e`, exactly those nodes. -/
structure LayerSearchResult (l : List (ObjKey × D)) (visited : List ObjKey) : Prop where
  keys_nodup : (l.map Prod.fst).Nodup
  found : ∀ c ∈ l, IsFound dist s query c
  reachable : ∀ c ∈ l, c.1 ∈ reachableAt s layer e
  sorted : l.Pairwise fun a b => a.2 ≤ b.2
  length_eq : l.length = min ef visited.length
  mem_visited : ∀ c ∈ l, c.1 ∈ visited
  nearest : ∀ k ∈ visited, k ∉ l.map Prod.fst → ∀ c ∈ l, ∀ n, s.vectors.lookup k = some n →
    c.2 ≤ computeDistance dist s.config.metric query n.vector
  exhaustive : (reachableAt s layer e).ncard ≤ ef →
    ∀ k, k ∈ l.map Prod.fst ↔ k ∈ reachableAt s layer e

variable {dist s query ef layer e}

/-- The start of the loop: the entry point is the one candidate, the one result and the one
visited key. -/
lemma searchInv_start (hef : 1 ≤ ef) {n : Node} (hn : s.vectors.lookup e = some n) :
    SearchInv dist s query ef layer e
      ⟨[⟨e, computeDistance dist s.config.metric query n.vector⟩],
        [⟨e, computeDistance dist s.config.metric query n.vector⟩], [e]⟩ := by
  have hmem : e ∈ s.vectors := AList.lookup_isSome.mp (by rw [hn]; rfl)
  have hV : visitedNodes s (⟨[⟨e, computeDistance dist s.config.metric query n.vector⟩],
      [⟨e, computeDistance dist s.config.metric query n.vector⟩], [e]⟩ : SearchState D) = [e] := by
    simp [visitedNodes_eq, hmem]
  refine ⟨List.nodup_singleton e, ?_, by simp, by simp, by simp, List.pairwise_singleton _ _,
    List.cons_ne_nil _ _, ?_, ?_, ?_⟩
  · intro c hc
    simp only [List.mem_singleton, or_self] at hc
    subst hc
    exact ⟨n, hn, rfl⟩
  · rw [hV]
    simp only [List.length_singleton]
    omega
  · rw [hV]
    intro k hk hkw
    simp only [List.mem_singleton] at hk
    simp [hk] at hkw
  · rw [hV]
    intro k hk
    rw [List.mem_singleton.mp hk]
    exact mem_reachableAt_self e

omit [LinearOrder D] in
/-- At the start the measure is the number of nodes, the loop's fuel. -/
lemma searchMeasure_start (he : e ∈ s.vectors) (c : SearchCandidate D)
    (w : List (SearchCandidate D)) :
    searchMeasure s ⟨[c], w, [e]⟩ ≤ s.vectors.entries.length := by
  have hK : e ∈ s.vectors.keys.toFinset := List.mem_toFinset.mpr (AList.mem_keys.mpr he)
  have hcard : s.vectors.keys.toFinset.card = s.vectors.entries.length := by
    rw [List.toFinset_card_of_nodup s.vectors.keys_nodup, AList.keys, List.keys, List.length_map]
  unfold searchMeasure
  rw [List.toFinset_cons, List.toFinset_nil, insert_empty_eq, Finset.sdiff_singleton_eq_erase,
    Finset.card_erase_of_mem hK, hcard, List.length_singleton]
  have := Finset.card_pos.mpr ⟨e, hK⟩
  omega

/-- The end state of a search from a node with a set key satisfies the invariant and, when
`ef` is at least the number of nodes reachable from it, has visited them all. -/
lemma searchLayerEnd_spec (hef : 1 ≤ ef) (he : e ∈ s.vectors) (hset : e.isSet) :
    SearchInv dist s query ef layer e (searchLayerEnd dist s query ef e layer) ∧
      ((reachableAt s layer e).ncard ≤ ef →
        ∀ k ∈ reachableAt s layer e, k ∈ (searchLayerEnd dist s query ef e layer).visited) := by
  obtain ⟨n, hn⟩ := Option.isSome_iff_exists.mp (AList.lookup_isSome.mpr he)
  have hne : s.vectors.entries.isEmpty = false :=
    List.isEmpty_eq_false_iff.mpr fun hnil => (NodeMap.entries_eq_nil_iff.mp hnil) e he
  have h₀ : SearchInv dist s query ef layer e _ := searchInv_start hef hn
  unfold searchLayerEnd
  simp only [hset, hne, Bool.not_true, Bool.or_self, Bool.false_eq_true, if_false, hn]
  refine ⟨h₀.searchLoop _, fun hC => ?_⟩
  have hstart : Expanded s layer (⟨[⟨e, computeDistance dist s.config.metric query n.vector⟩],
      [⟨e, computeDistance dist s.config.metric query n.vector⟩], [e]⟩ : SearchState D) :=
    fun k hk => Or.inl (by simpa using (mem_visitedNodes.mp hk).1)
  rcases searchLoop_ends dist query ef layer _ _ (searchMeasure_start he _ _) with hempty | hfull
  · rcases searchLoop_expanded he hC _ h₀ (Or.inl hstart) with hexp | hall
    · exact reachableAt_subset_of_expanded hexp hempty
        (visited_subset_searchLoop dist s query ef layer _ _ (List.mem_singleton_self e))
    · exact hall
  · exact (h₀.searchLoop _).reachableAt_subset_of_full (reachableAt_finite he) hC hfull

/-- A search from a node with a set key returns what `LayerSearchResult` says, of the
visited nodes. -/
theorem searchLayerWithDistances_result (he : e ∈ s.vectors) (hset : e.isSet) (hef : 1 ≤ ef) :
    LayerSearchResult dist s query ef layer e (searchLayerWithDistances dist s query ef e layer)
      (visitedNodes s (searchLayerEnd dist s query ef e layer)) := by
  obtain ⟨h, hall⟩ : SearchInv dist s query ef layer e (searchLayerEnd dist s query ef e layer) ∧ _ :=
    searchLayerEnd_spec hef he hset
  have hkeys := keys_searchLayerWithDistances dist s query ef e layer
  have hmem : ∀ c ∈ searchLayerWithDistances dist s query ef e layer,
      ∃ x ∈ (searchLayerEnd dist s query ef e layer).w, (x.objKey, x.distance) = c := by
    intro c hc
    rw [searchLayerWithDistances_eq_searchLayerEnd, List.mem_reverse] at hc
    exact List.mem_map.mp hc
  refine ⟨?_, fun c hc => isFound_of_mem_searchLayerWithDistances hc, ?_, ?_, ?_, ?_, ?_, ?_⟩
  · rw [hkeys]
    exact List.nodup_reverse.mpr h.w_nodup
  · intro c hc
    obtain ⟨x, hx, rfl⟩ := hmem c hc
    exact h.reach _ (h.w_mem_visitedNodes hx)
  · rw [searchLayerWithDistances_eq_searchLayerEnd, List.pairwise_reverse, List.pairwise_map]
    exact h.w_sorted
  · rw [searchLayerWithDistances_eq_searchLayerEnd, List.length_reverse, List.length_map]
    exact h.w_length
  · intro c hc
    obtain ⟨x, hx, rfl⟩ := hmem c hc
    exact h.w_mem_visitedNodes hx
  · intro k hk hkl c hc n hn
    obtain ⟨x, hx, rfl⟩ := hmem c hc
    rw [hkeys, List.mem_reverse] at hkl
    exact h.w_best k hk hkl x hx n hn
  · -- every visited node is reachable, and the heap, never full, holds every visited node
    intro hC k
    rw [hkeys, List.mem_reverse]
    constructor
    · intro hk
      obtain ⟨x, hx, rfl⟩ := List.mem_map.mp hk
      exact h.reach _ (h.w_mem_visitedNodes hx)
    · intro hk
      have hlen := h.w_length
      have hle := h.length_visitedNodes_le (reachableAt_finite he)
      exact mem_keys_of_length h.w_nodup (fun c hc => h.w_mem_visitedNodes hc) (by omega)
        (mem_visitedNodes.mpr ⟨hall hC k hk, mem_vectors_of_mem_reachableAt he hk⟩)

/-- In a graph whose neighbour lists name nodes, a search visits nodes only. -/
lemma searchLayerEnd_visited_subset
    (hclosed : ∀ a n, s.vectors.lookup a = some n → ∀ l b, b ∈ n.neighbors l → b ∈ s.vectors) :
    ∀ k ∈ (searchLayerEnd dist s query ef e layer).visited, k ∈ s.vectors := by
  unfold searchLayerEnd
  split
  · simp
  · split
    · simp
    · rename_i n hn
      refine searchLoop_visited_subset hclosed _ fun k hk => ?_
      rw [List.mem_singleton.mp hk]
      exact AList.lookup_isSome.mp (by rw [hn]; rfl)

end Result

/-! ## A node under the null key -/

/-- An index of one node, without neighbours, stored under `key`, of dimension 1. -/
def singleNodeIndex (key : ObjKey) : HNSWIndex where
  config := { HNSWIndexConfig.ofMetric .euclidean with vectorDimension := 1 }
  vectors := (∅ : NodeMap).insert key ⟨key, [⟨0⟩], 0, [[]]⟩
  entryPoint := key
  entryPointLayer := 0

lemma lookup_singleNodeIndex {key a : ObjKey} {n : Node}
    (hn : (singleNodeIndex key).vectors.lookup a = some n) : a = key ∧ n = ⟨key, [⟨0⟩], 0, [[]]⟩ := by
  by_cases ha : a = key
  · subst ha
    simp only [singleNodeIndex, AList.lookup_insert, Option.some.injEq] at hn
    exact ⟨rfl, hn.symm⟩
  · simp only [singleNodeIndex] at hn
    rw [AList.lookup_insert_ne ha, AList.lookup_empty] at hn
    cases hn

lemma neighbors_singleNodeIndex {key a : ObjKey} {n : Node}
    (hn : (singleNodeIndex key).vectors.lookup a = some n) (l : Nat) : n.neighbors l = [] := by
  obtain ⟨-, rfl⟩ := lookup_singleNodeIndex hn
  cases l <;> rfl

lemma wellFormed_singleNodeIndex (key : ObjKey) : WellFormed (singleNodeIndex key) where
  closed a n hn l b hb := by
    rw [neighbors_singleNodeIndex hn] at hb
    cases hb
  symmetric a na b nb ha hb l := by
    simp [neighbors_singleNodeIndex ha, neighbors_singleNodeIndex hb]
  irreflexive a n hn l := by
    rw [neighbors_singleNodeIndex hn]
    exact List.not_mem_nil
  nodup a n hn l := by
    rw [neighbors_singleNodeIndex hn]
    exact List.nodup_nil
  length_connections a n hn := by
    obtain ⟨-, rfl⟩ := lookup_singleNodeIndex hn
    rfl
  neighbor_layer a na b nb ha hb l hl := by
    rw [neighbors_singleNodeIndex ha] at hl
    cases hl
  degree a n hn l := by
    rw [neighbors_singleNodeIndex hn]
    exact Nat.zero_le _

lemma mem_singleNodeIndex (key : ObjKey) : key ∈ (singleNodeIndex key).vectors :=
  (AList.mem_insert _).mpr (Or.inl rfl)

/-- From the one node of `singleNodeIndex`, only the node itself is reachable. -/
lemma reachableAt_singleNodeIndex (key : ObjKey) (layer : Nat) :
    reachableAt (singleNodeIndex key) layer key = {key} := by
  ext k
  have hnone : ∀ b, ¬LayerEdge (singleNodeIndex key) layer key b := by
    rintro b ⟨n, hn, hb, -⟩
    rw [neighbors_singleNodeIndex hn] at hb
    cases hb
  exact Relation.reflTransGen_iff_eq hnone

/-- An index of nodes at layer 0 under the given keys, with the given vectors, each node a
neighbour of every other: what inserting them at layer 0 builds while the degree bound `M0`
is above their number, with the first node as entry point. -/
def completeIndex (config : HNSWIndexConfig) (nodes : List (ObjKey × List Binary64)) :
    HNSWIndex where
  config := config
  vectors := nodes.foldr
    (fun kv m => m.insert kv.1 ⟨kv.1, kv.2, 0, [(nodes.map Prod.fst).erase kv.1]⟩) ∅
  entryPoint := (nodes.head?.map Prod.fst).getD ObjKey.null
  entryPointLayer := if nodes.isEmpty then -1 else 0

end Realm
