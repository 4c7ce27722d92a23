import Mathlib
import RealmCore.Hnsw.LayerSearch

/-!
# HNSW index: the layer search ends on every graph

A round of the candidate loop of `search_layer_with_distances` pops the nearest candidate, and
pushes a neighbour only when it marks that neighbour visited, which it does once: a key that
is visited and off the heap never comes back to it (`searchRun_keeps_out`).  So
the candidates left plus the nodes not yet visited (`searchMeasure`) drop by one each round,
on every graph, with cycles, one-sided edges or edges to erased keys, and the rounds of the
loop are well founded (`searchRound_wellFounded`).

The model runs the loop on fuel, one round a unit (`searchLoop_succ`).  `searchLoopEnd` is the
loop with no fuel, whose recursion the measure justifies, and the fuel the search gives, the
number of nodes, runs the loop to that end (`searchLayerEnd_eq_searchLoopEnd`).
-/

namespace Realm

section Rounds

variable {D : Type*} [LinearOrder D] (dist : Metrics D) (s : HNSWIndex) (query : List Binary64)
  (ef layer : Nat)

/-- One round of the candidate loop: the loop ends (`.inl`) on an empty heap or at a stop, and
otherwise goes on (`.inr`) from the state after the pop and the visits of the popped node's
neighbours at `layer`. -/
def searchRound (st : SearchState D) : SearchState D ⊕ SearchState D :=
  match st.candidates with
  | [] => .inl st
  | current :: rest =>
    let st := { st with candidates := rest }
    if stops ef st.w current.distance then .inl st
    else
      match s.vectors.lookup current.objKey with
      | none => .inr st
      | some node =>
        if node.connections.length ≤ layer then .inr st
        else .inr ((node.neighbors layer).foldl (visitNeighbor dist s query ef) st)

/-- The loop on fuel is the rounds, one a unit of fuel. -/
lemma searchLoop_succ (fuel : Nat) (st : SearchState D) :
    searchLoop dist s query ef layer (fuel + 1) st =
      match searchRound dist s query ef layer st with
      | .inl st' => st'
      | .inr st' => searchLoop dist s query ef layer fuel st' := by
  rw [searchLoop]
  unfold searchRound
  split
  · rename_i hc
    simp only [hc]
  · rename_i current rest hc
    simp only [hc]
    by_cases hstop : stops ef st.w current.distance = true
    · simp only [hstop, if_true]
    · simp only [hstop, Bool.false_eq_true, if_false]
      cases s.vectors.lookup current.objKey with
      | none => rfl
      | some node =>
        by_cases hl : node.connections.length ≤ layer
        · simp only [hl, if_true]
        · simp only [hl, if_false]

/-- A round that goes on pops a candidate: it is one of the three branches that do. -/
lemma searchRound_eq_inr {st st' : SearchState D}
    (h : searchRound dist s query ef layer st = .inr st') :
    ∃ current rest, st.candidates = current :: rest ∧
      (st' = { st with candidates := rest } ∨
        ∃ node, s.vectors.lookup current.objKey = some node ∧
          st' = (node.neighbors layer).foldl (visitNeighbor dist s query ef)
            { st with candidates := rest }) := by
  unfold searchRound at h
  split at h
  · cases h
  · rename_i current rest hcand
    dsimp only at h
    split at h
    · cases h
    · split at h
      · exact ⟨current, rest, hcand, .inl (Sum.inr.inj h).symm⟩
      · rename_i node hnode
        split at h
        · exact ⟨current, rest, hcand, .inl (Sum.inr.inj h).symm⟩
        · exact ⟨current, rest, hcand, .inr ⟨node, hnode, (Sum.inr.inj h).symm⟩⟩

omit [LinearOrder D] in
/-- A pop lowers the measure by one. -/
lemma searchMeasure_pop {st : SearchState D} {current : SearchCandidate D}
    {rest : List (SearchCandidate D)} (hcand : st.candidates = current :: rest) :
    searchMeasure s { st with candidates := rest } + 1 = searchMeasure s st := by
  unfold searchMeasure
  dsimp only
  rw [hcand, List.length_cons]
  omega

variable {dist s query ef layer}

/-- Every round that goes on lowers the measure: the pop takes one candidate off, and a visit
pushes a candidate only for a node it marks visited. -/
lemma searchMeasure_searchRound_lt {st st' : SearchState D}
    (h : searchRound dist s query ef layer st = .inr st') :
    searchMeasure s st' < searchMeasure s st := by
  obtain ⟨current, rest, hcand, rfl | ⟨node, -, rfl⟩⟩ := searchRound_eq_inr dist s query ef layer h
  · have := searchMeasure_pop s hcand
    omega
  · have hvisits : searchMeasure s ((node.neighbors layer).foldl (visitNeighbor dist s query ef)
        { st with candidates := rest }) ≤ searchMeasure s { st with candidates := rest } :=
      searchMeasure_foldl_le _ _
    have := searchMeasure_pop s hcand
    omega

end Rounds

/-! ## Keys go on the heap once -/

section Once

variable {D : Type*} [LinearOrder D] {dist : Metrics D} {s : HNSWIndex} {query : List Binary64}
  {ef layer : Nat}

/-- A visit pushes no key it finds visited, and forgets no visited key. -/
lemma visitNeighbor_keeps_out {st : SearchState D} {k : ObjKey} (hv : k ∈ st.visited)
    (hc : k ∉ st.candidates.map SearchCandidate.objKey) (nk : ObjKey) :
    k ∈ (visitNeighbor dist s query ef st nk).visited ∧
      k ∉ (visitNeighbor dist s query ef st nk).candidates.map SearchCandidate.objKey := by
  unfold visitNeighbor
  split
  · exact ⟨hv, hc⟩
  · rename_i hnew
    -- the visited neighbour is a new key, so not `k`
    have hne : nk ≠ k := fun h => hnew (h ▸ hv)
    dsimp only
    split
    · exact ⟨List.mem_cons_of_mem _ hv, hc⟩
    · split
      · refine ⟨List.mem_cons_of_mem _ hv, ?_⟩
        simp only [List.mem_map, mem_pushNearest, not_exists, not_and]
        rintro c (rfl | hcq) rfl
        · exact hne rfl
        · exact hc (List.mem_map_of_mem hcq)
      · exact ⟨List.mem_cons_of_mem _ hv, hc⟩

/-- A round keeps a visited key that is off the heap off it. -/
lemma searchRound_keeps_out {st st' : SearchState D} {k : ObjKey} (hv : k ∈ st.visited)
    (hc : k ∉ st.candidates.map SearchCandidate.objKey)
    (h : searchRound dist s query ef layer st = .inr st') :
    k ∈ st'.visited ∧ k ∉ st'.candidates.map SearchCandidate.objKey := by
  obtain ⟨current, rest, hcand, hst'⟩ := searchRound_eq_inr dist s query ef layer h
  -- the pop only removes a candidate
  have hrest : k ∉ rest.map SearchCandidate.objKey := fun hk =>
    hc (hcand ▸ List.mem_cons_of_mem _ hk)
  rcases hst' with rfl | ⟨node, -, rfl⟩
  · exact ⟨hv, hrest⟩
  · exact foldl_visitNeighbor_induction dist s query ef
      (fun st => k ∈ st.visited ∧ k ∉ st.candidates.map SearchCandidate.objKey)
      (fun _ nk _ h => visitNeighbor_keeps_out h.1 h.2 nk) _ ⟨hv, hrest⟩

variable (dist s query ef layer) in
/-- The rounds of the loop from one state to another. -/
def SearchRun : SearchState D → SearchState D → Prop :=
  Relation.ReflTransGen fun st st' => searchRound dist s query ef layer st = .inr st'

/-- A key is pushed on the candidate heap at most once: once it is visited and off the heap, no
later round puts it back, and it stays visited.  The induction is on the rounds. -/
theorem searchRun_keeps_out {st st' : SearchState D} {k : ObjKey}
    (hrun : SearchRun dist s query ef layer st st') (hv : k ∈ st.visited)
    (hc : k ∉ st.candidates.map SearchCandidate.objKey) :
    k ∈ st'.visited ∧ k ∉ st'.candidates.map SearchCandidate.objKey := by
  induction hrun with
  | refl => exact ⟨hv, hc⟩
  | tail _ hround ih => exact searchRound_keeps_out ih.1 ih.2 hround

end Once

/-! ## The loop ends -/

section Ends

variable {D : Type*} [LinearOrder D] (dist : Metrics D) (s : HNSWIndex) (query : List Binary64)
  (ef layer : Nat)

/-- The candidate loop of `search_layer_with_distances` ends on every graph, from every state,
for every query, `ef` and layer: each round that goes on lowers the candidates left plus the
nodes not yet visited, so the rounds are well founded. -/
theorem searchRound_wellFounded :
    (∀ st st' : SearchState D, searchRound dist s query ef layer st = .inr st' →
      searchMeasure s st' < searchMeasure s st) ∧
    WellFounded fun st' st : SearchState D => searchRound dist s query ef layer st = .inr st' :=
  ⟨fun _ _ h => searchMeasure_searchRound_lt h,
    Subrelation.wf (fun h => searchMeasure_searchRound_lt h)
      (InvImage.wf (searchMeasure s) Nat.lt_wfRel.wf)⟩

/-- The candidate loop with no fuel: rounds until one ends it. -/
def searchLoopEnd (st : SearchState D) : SearchState D :=
  match hround : searchRound dist s query ef layer st with
  | .inl st' => st'
  | .inr st' => searchLoopEnd st'
termination_by searchMeasure s st
decreasing_by exact searchMeasure_searchRound_lt hround

/-- One round, then the rest of the loop when the round goes on. -/
lemma searchLoopEnd_eq (st : SearchState D) :
    searchLoopEnd dist s query ef layer st =
      (searchRound dist s query ef layer st).elim id (searchLoopEnd dist s query ef layer) := by
  rw [searchLoopEnd]
  split <;> simp_all

variable {dist s query ef layer}

lemma searchLoopEnd_of_inl {st st' : SearchState D}
    (h : searchRound dist s query ef layer st = .inl st') :
    searchLoopEnd dist s query ef layer st = st' := by
  rw [searchLoopEnd_eq, h]
  rfl

lemma searchLoopEnd_of_inr {st st' : SearchState D}
    (h : searchRound dist s query ef layer st = .inr st') :
    searchLoopEnd dist s query ef layer st = searchLoopEnd dist s query ef layer st' := by
  rw [searchLoopEnd_eq, h]
  rfl

variable (dist s query ef layer)

/-- Fuel of at least the measure runs the loop to its end. -/
lemma searchLoop_eq_searchLoopEnd :
    ∀ (fuel : Nat) (st : SearchState D), searchMeasure s st ≤ fuel →
      searchLoop dist s query ef layer fuel st = searchLoopEnd dist s query ef layer st
  | 0, st, hμ => by
    -- no measure left: the heap is empty, and the loop ends at once
    have hnil : st.candidates = [] := List.eq_nil_of_length_eq_zero
      (show st.candidates.length = 0 by unfold searchMeasure at hμ; omega)
    have hround : searchRound dist s query ef layer st = .inl st := by
      unfold searchRound
      rw [hnil]
    rw [searchLoopEnd_of_inl hround]
    rfl
  | fuel + 1, st, hμ => by
    rw [searchLoop_succ]
    cases hround : searchRound dist s query ef layer st with
    | inl st' => exact (searchLoopEnd_of_inl hround).symm
    | inr st' =>
      rw [searchLoopEnd_of_inr hround]
      exact searchLoop_eq_searchLoopEnd fuel st' (by
        have := searchMeasure_searchRound_lt hround
        omega)

/-- The search's fuel, the number of nodes, never cuts its loop short. -/
theorem searchLayerEnd_eq_searchLoopEnd (entryPoint : ObjKey) (layer : Nat) :
    searchLayerEnd dist s query ef entryPoint layer =
      if !entryPoint.isSet || s.vectors.entries.isEmpty then ⟨[], [], []⟩
      else
        match s.vectors.lookup entryPoint with
        | none => ⟨[], [], []⟩
        | some e =>
          let c : SearchCandidate D :=
            ⟨entryPoint, computeDistance dist s.config.metric query e.vector⟩
          searchLoopEnd dist s query ef layer ⟨[c], [c], [entryPoint]⟩ := by
  unfold searchLayerEnd
  split
  · rfl
  · cases he : s.vectors.lookup entryPoint with
    | none => rfl
    | some e =>
      have hmem : entryPoint ∈ s.vectors := AList.lookup_isSome.mp (by rw [he]; rfl)
      exact searchLoop_eq_searchLoopEnd dist s query ef layer _ _ (searchMeasure_start hmem _ _)

end Ends

end Realm
