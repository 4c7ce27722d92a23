import Mathlib
import RealmCore.Hnsw.Basic

/-!
# HNSW index: distances, layer search and neighbour selection

`compute_distance`, `search_layer_with_distances`, `search_layer`,
`select_neighbors_simple` and `select_neighbors_heuristic` of src/realm/index_hnsw.cpp.

The distance functions are floating-point code; `Metrics` takes the three of them as
parameters valued in an arbitrary linear order, and `computeDistance` dispatches on the
configured metric as the source does.

The two `std::priority_queue`s of the search are lists whose head is `top()`: a push is an
ordered insertion, a pop drops the head.  The standard fixes only that `top()` is a greatest
element under the queue's comparison, which compares distances alone; the model places a new
candidate before the candidates of equal distance.  `std::sort`, which leaves the order of
equal elements unspecified too, is a stable insertion sort.  The candidate loop of the search
runs on fuel; it starts at the number of nodes, since every candidate pushed after the entry
point is a node no earlier candidate was.
-/

namespace Realm

variable {D : Type*} [LinearOrder D]

/-- `euclidean_distance`, `cosine_distance` and `dot_product_distance`. -/
structure Metrics (D : Type*) where
  euclideanDistance : List Binary64 → List Binary64 → D
  cosineDistance : List Binary64 → List Binary64 → D
  dotProductDistance : List Binary64 → List Binary64 → D

/-- `HNSWIndex::compute_distance`: the distance function of the configured metric. -/
def computeDistance (dist : Metrics D) (metric : DistanceMetric) (v1 v2 : List Binary64) : D :=
  match metric with
  | .euclidean => dist.euclideanDistance v1 v2
  | .cosine => dist.cosineDistance v1 v2
  | .dotProduct => dist.dotProductDistance v1 v2

/-- The doubles `0.0`, `1.0`, `2.0` and `3.0` as the integers they are; any other value reads
as `0`. -/
def gridValue (x : Binary64) : Int :=
  if x.bits = 0x3FF0000000000000 then 1
  else if x.bits = 0x4000000000000000 then 2
  else if x.bits = 0x4008000000000000 then 3
  else 0

/-- The three distances on one-dimensional vectors whose coordinate is `0.0`, `1.0`, `2.0` or
`3.0`, where the double arithmetic of `euclidean_distance`, `cosine_distance` and
`dot_product_distance` is exact: `|x - y|`, `1` against a zero vector and `0` between two
positive ones, and `-(x * y)`.  Runs of the index on concrete inputs use these. -/
def gridMetrics : Metrics Int where
  euclideanDistance v w := |gridValue (v.headD ⟨0⟩) - gridValue (w.headD ⟨0⟩)|
  cosineDistance v w := if gridValue (v.headD ⟨0⟩) = 0 ∨ gridValue (w.headD ⟨0⟩) = 0 then 1 else 0
  dotProductDistance v w := -(gridValue (v.headD ⟨0⟩) * gridValue (w.headD ⟨0⟩))

/-- `HNSWIndex::SearchCandidate`: a key and its distance to the query. -/
structure SearchCandidate (D : Type*) where
  objKey : ObjKey
  distance : D

/-- `push` on the min-heap of candidates (`std::greater`): its head is a nearest candidate. -/
def pushNearest (c : SearchCandidate D) (q : List (SearchCandidate D)) :
    List (SearchCandidate D) :=
  q.orderedInsert (fun a b => a.distance ≤ b.distance) c

/-- `push` on the max-heap of results (`std::less`): its head is a farthest result. -/
def pushFarthest (c : SearchCandidate D) (q : List (SearchCandidate D)) :
    List (SearchCandidate D) :=
  q.orderedInsert (fun a b => b.distance ≤ a.distance) c

/-- The three containers of the search: the candidate heap, the result heap `w` and the
visited keys. -/
structure SearchState (D : Type*) where
  candidates : List (SearchCandidate D)
  w : List (SearchCandidate D)
  visited : List ObjKey

section Search

variable (dist : Metrics D) (s : HNSWIndex) (query : List Binary64) (ef : Nat)

/-- `neighbor_dist < w.top().distance || w.size() < ef`: whether a neighbour at distance `d`
enters the results.  `w` is never empty during a search. -/
def admits (w : List (SearchCandidate D)) (d : D) : Bool :=
  (match w with
    | top :: _ => decide (d < top.distance)
    | [] => false) || decide (w.length < ef)

/-- `current.distance > w.top().distance && w.size() >= ef`: the search stops at a candidate
farther than every result once it holds `ef` results. -/
def stops (w : List (SearchCandidate D)) (d : D) : Bool :=
  (match w with
    | top :: _ => decide (top.distance < d)
    | [] => false) && decide (ef ≤ w.length)

/-- One pass of the inner loop of `search_layer_with_distances` over the neighbour `nk`: mark
it visited, and when it is a node close enough, push it on both heaps, dropping the farthest
result when there are more than `ef`. -/
def visitNeighbor (st : SearchState D) (nk : ObjKey) : SearchState D :=
  if nk ∈ st.visited then st
  else
    let st := { st with visited := nk :: st.visited }
    match s.vectors.lookup nk with
    | none => st
    | some nb =>
      let d := computeDistance dist s.config.metric query nb.vector
      if admits ef st.w d then
        let w := pushFarthest ⟨nk, d⟩ st.w
        { st with candidates := pushNearest ⟨nk, d⟩ st.candidates,
                  w := if ef < w.length then w.tail else w }
      else st

/-- The candidate loop of `search_layer_with_distances`, on fuel: pop the nearest candidate,
stop if it is farther than every result and the results are full, and otherwise visit its
neighbours at `layer`. -/
def searchLoop (layer : Nat) : Nat → SearchState D → SearchState D
  | 0, st => st
  | fuel + 1, st =>
    match st.candidates with
    | [] => st
    | current :: rest =>
      let st := { st with candidates := rest }
      if stops ef st.w current.distance then st
      else
        match s.vectors.lookup current.objKey with
        | none => searchLoop layer fuel st
        | some node =>
          if node.connections.length ≤ layer then searchLoop layer fuel st
          else searchLoop layer fuel ((node.neighbors layer).foldl (visitNeighbor dist s query ef) st)

/-- `HNSWIndex::search_layer_with_distances`: up to `ef` nodes found from `entryPoint` over
the edges of `layer`, nearest first, with their distances to `query`. -/
def searchLayerWithDistances (entryPoint : ObjKey) (layer : Nat) : List (ObjKey × D) :=
  if !entryPoint.isSet || s.vectors.entries.isEmpty then []
  else
    match s.vectors.lookup entryPoint with
    | none => []
    | some e =>
      let c : SearchCandidate D := ⟨entryPoint, computeDistance dist s.config.metric query e.vector⟩
      let st := searchLoop dist s query ef layer s.vectors.entries.length ⟨[c], [c], [entryPoint]⟩
      (st.w.map fun c => (c.objKey, c.distance)).reverse

/-- `HNSWIndex::search_layer`: the keys of `search_layer_with_distances`. -/
def searchLayer (entryPoint : ObjKey) (layer : Nat) : List ObjKey :=
  (searchLayerWithDistances dist s query ef entryPoint layer).map Prod.fst

end Search

/-- `HNSWIndex::select_neighbors_simple`: the first `M` candidates. -/
def selectNeighborsSimple (candidates : List (ObjKey × D)) (M : Nat) : List ObjKey :=
  (candidates.take M).map Prod.fst

section Heuristic

variable (dist : Metrics D) (s : HNSWIndex) (query : List Binary64)

/-- The inner loop of `extend_candidates` over one neighbour: add it with its distance to
the query unless it is in the working set already or is not a node. -/
def extendWith (acc : List (ObjKey × D) × List ObjKey) (nk : ObjKey) :
    List (ObjKey × D) × List ObjKey :=
  if nk ∈ acc.2 then acc
  else
    match s.vectors.lookup nk with
    | some nb => (acc.1 ++ [(nk, computeDistance dist s.config.metric query nb.vector)], nk :: acc.2)
    | none => acc

/-- The working set of `select_neighbors_heuristic` with `extend_candidates`: the candidates,
then the nodes adjacent to them at `layer`, each once, sorted by distance. -/
def extendedWorkingSet (candidates : List (ObjKey × D)) (layer : Nat) : List (ObjKey × D) :=
  let acc := candidates.foldl
    (fun acc c =>
      match s.vectors.lookup c.1 with
      | some node =>
        if layer < node.connections.length then (node.neighbors layer).foldl (extendWith dist s query) acc
        else acc
      | none => acc)
    (candidates, candidates.map Prod.fst)
  acc.1.insertionSort (fun a b => a.2 ≤ b.2)

/-- The diversity test: a candidate node is kept unless some selected node is closer to it
than the candidate is to the query. -/
def shouldAdd (selected : List ObjKey) (c : ObjKey × D) : Bool :=
  match s.vectors.lookup c.1 with
  | none => true
  | some cn =>
    selected.all fun k =>
      match s.vectors.lookup k with
      | some sn => !decide (computeDistance dist s.config.metric cn.vector sn.vector < c.2)
      | none => true

/-- The selection loop of `select_neighbors_heuristic`, which stops once `M` are selected. -/
def selectDiverse (M : Nat) : List (ObjKey × D) → List ObjKey → List ObjKey
  | [], result => result
  | c :: cs, result =>
    if M ≤ result.length then result
    else selectDiverse M cs (if shouldAdd dist s result c then result ++ [c.1] else result)

/-- `HNSWIndex::select_neighbors_heuristic`. -/
def selectNeighborsHeuristic (candidates : List (ObjKey × D)) (M layer : Nat)
    (extendCandidates : Bool) : List ObjKey :=
  let workingSet :=
    if extendCandidates then extendedWorkingSet dist s query candidates layer else candidates
  selectDiverse dist s M workingSet []

end Heuristic

end Realm
