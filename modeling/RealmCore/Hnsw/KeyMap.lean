import Mathlib
import RealmCore.Hnsw.Frame

/-!
# HNSW index: the map of indexed vectors

What the index stores, as opposed to how it links what it stores: a finite map from object
keys to vectors of one dimension.  `VectorMap` is that map with its dimension, and its
operations say what each write should do to it: `insert` binds a key to a non-empty vector of
the dimension, the first such vector fixing the dimension, and refuses a vector of another
length; `erase` unbinds; `set` is `erase` then `insert`; `clear` unbinds everything and keeps
the dimension.

`vectorMap_run` is the refinement: after every run from a new index, the node map of the
index, read as keys and vectors, is the abstract map after the same operations, and every
node is stored under its own key.  Graph maintenance never touches a node's key, vector or
layer (`Rewires`), which is why no vector is lost or duplicated by the maintenance of other
keys.
-/

namespace Realm

open NodeMap

/-- A finite map from object keys to vectors, with the dimension its vectors have. -/
@[ext]
structure VectorMap where
  lookup : ObjKey → Option (List Binary64)
  dimension : UInt64

namespace VectorMap

/-- The empty map of a new index. -/
def init (cfg : HNSWIndexConfig) : VectorMap :=
  ⟨fun _ => none, cfg.vectorDimension⟩

/-- Bind `key` to a non-empty vector of the map's dimension, the first vector fixing the
dimension; any other vector leaves the map as it is. -/
def insert (a : VectorMap) (key : ObjKey) (vector : List Binary64) : VectorMap :=
  if vector = [] then a
  else if a.dimension = 0 then ⟨Function.update a.lookup key (some vector), vector.length.toUInt64⟩
  else if vector.length.toUInt64 = a.dimension then
    ⟨Function.update a.lookup key (some vector), a.dimension⟩
  else a

/-- Unbind `key`. -/
def erase (a : VectorMap) (key : ObjKey) : VectorMap :=
  ⟨Function.update a.lookup key none, a.dimension⟩

/-- Unbind every key. -/
def clear (a : VectorMap) : VectorMap :=
  ⟨fun _ => none, a.dimension⟩

/-- One write, as the abstract map sees it. -/
def step (a : VectorMap) : Op → VectorMap
  | .insert key vector _ => a.insert key vector
  | .erase key => a.erase key
  | .set key vector _ => (a.erase key).insert key vector
  | .clear => a.clear

end VectorMap

/-- The keys and vectors an index holds, with its dimension. -/
def HNSWIndex.vectorMap (s : HNSWIndex) : VectorMap :=
  ⟨fun k => (s.vectors.lookup k).map Node.vector, s.config.vectorDimension⟩

/-- Every node is stored under its own object key. -/
def HNSWIndex.KeysConsistent (s : HNSWIndex) : Prop :=
  ∀ k n, s.vectors.lookup k = some n → n.objKey = k

variable {D : Type*} [LinearOrder D] (dist : Metrics D)

/-- A vector is part of a node's data. -/
lemma map_vector_eq_of_sameData {m m' : NodeMap} (h : SameData m m') (k : ObjKey) :
    (m.lookup k).map Node.vector = (m'.lookup k).map Node.vector := by
  have hk := congrArg (Option.map fun d : ObjKey × List Binary64 × Nat => d.2.1) (h k)
  have hv : (fun d : ObjKey × List Binary64 × Nat => d.2.1) ∘ Node.data = Node.vector := rfl
  rwa [Option.map_map, Option.map_map, hv] at hk

/-- So is an object key. -/
lemma map_objKey_eq_of_sameData {m m' : NodeMap} (h : SameData m m') (k : ObjKey) :
    (m.lookup k).map Node.objKey = (m'.lookup k).map Node.objKey := by
  have hk := congrArg (Option.map fun d : ObjKey × List Binary64 × Nat => d.1) (h k)
  have hv : (fun d : ObjKey × List Binary64 × Nat => d.1) ∘ Node.data = Node.objKey := rfl
  rwa [Option.map_map, Option.map_map, hv] at hk

lemma Rewires.vectorMap {s s' : HNSWIndex} (h : Rewires s s') : s'.vectorMap = s.vectorMap := by
  ext1
  · funext k
    exact (map_vector_eq_of_sameData h.vectors k).symm
  · exact congrArg HNSWIndexConfig.vectorDimension h.config

lemma Rewires.keysConsistent {s s' : HNSWIndex} (h : Rewires s s') (hs : s.KeysConsistent) :
    s'.KeysConsistent := by
  intro k n hn
  have hk := map_objKey_eq_of_sameData h.vectors k
  rw [hn] at hk
  cases hm : s.vectors.lookup k with
  | none => simp [hm] at hk
  | some n₀ =>
    rw [hm, Option.map_some, Option.map_some, Option.some.injEq] at hk
    exact hk ▸ hs k n₀ hm

/-- A successful `insert` binds the key as the abstract `insert` does. -/
lemma vectorMap_insert_ok {s s' : HNSWIndex} {key : ObjKey} {vector : List Binary64}
    {nodeLayer : Nat} (h : insert dist s key vector nodeLayer = .ok s') :
    s'.vectorMap = s.vectorMap.insert key vector := by
  rcases insert_eq_ok dist h with ⟨rfl, rfl⟩ | ⟨hv, config, hval, s₂, hrew, rfl⟩
  · exact (if_pos rfl).symm
  · -- both branches of the entry point update keep the vectors of `s₂`
    have hs₂ : (if s.vectors.entries = [] ∨ s.entryPointLayer < nodeLayer then
        { s₂ with entryPoint := key, entryPointLayer := nodeLayer } else s₂).vectorMap =
        s₂.vectorMap := by
      split <;> rfl
    rw [hs₂, hrew.vectorMap]
    have hlookup : (fun k => ((s.vectors.insert key (newNode key vector nodeLayer)).lookup k).map
        Node.vector) = Function.update (fun k => (s.vectors.lookup k).map Node.vector) key
          (some vector) := by
      funext k
      by_cases hk : k = key
      · subst hk
        simp [newNode]
      · simp [hk, AList.lookup_insert_ne hk]
    rcases validateVectorDimension_eq_ok.mp hval with ⟨h0, rfl⟩ | ⟨h0, hlen, rfl⟩
    · unfold HNSWIndex.vectorMap VectorMap.insert
      simp [hv, h0, hlookup]
    · unfold HNSWIndex.vectorMap VectorMap.insert
      simp [hv, h0, hlen, hlookup]

/-- A failing `insert` had a vector the abstract `insert` refuses too. -/
lemma vectorMap_insert_error {s : HNSWIndex} {key : ObjKey} {vector : List Binary64}
    {nodeLayer : Nat} {e : InvalidArgument} (h : insert dist s key vector nodeLayer = .error e) :
    s.vectorMap.insert key vector = s.vectorMap := by
  obtain ⟨hv, hval⟩ := insert_eq_error dist h
  obtain ⟨h0, hlen⟩ := validateVectorDimension_eq_error hval
  unfold VectorMap.insert HNSWIndex.vectorMap
  simp [hv, h0, hlen]

lemma vectorMap_afterCall_insert (s : HNSWIndex) (key : ObjKey) (vector : List Binary64)
    (nodeLayer : Nat) :
    (afterCall s (insert dist s key vector nodeLayer)).vectorMap =
      s.vectorMap.insert key vector := by
  cases h : insert dist s key vector nodeLayer with
  | ok s' => exact vectorMap_insert_ok dist h
  | error e => exact (vectorMap_insert_error dist h).symm

lemma vectorMap_erase (s : HNSWIndex) (key : ObjKey) :
    (erase s key).vectorMap = s.vectorMap.erase key := by
  obtain ⟨hconfig, hsame, -, -⟩ := erase_spec s key
  ext1
  · funext k
    rw [show (erase s key).vectorMap.lookup k = ((erase s key).vectors.lookup k).map Node.vector
      from rfl, ← map_vector_eq_of_sameData hsame k]
    by_cases hk : k = key
    · subst hk
      simp [VectorMap.erase]
    · unfold VectorMap.erase HNSWIndex.vectorMap
      simp [hk, AList.lookup_erase_ne hk]
  · unfold HNSWIndex.vectorMap VectorMap.erase
    simp [hconfig]

/-- Every write moves the index's vector map as it moves the abstract map. -/
lemma vectorMap_step (s : HNSWIndex) (o : Op) :
    (step dist s o).vectorMap = s.vectorMap.step o := by
  cases o with
  | insert key vector layer => exact vectorMap_afterCall_insert dist s key vector layer
  | erase key => exact vectorMap_erase s key
  | set key vector layer =>
    simp only [step, VectorMap.step]
    rw [vectorMap_afterCall_insert, vectorMap_erase]
  | clear => rfl

lemma keysConsistent_afterCall_insert {s : HNSWIndex} (hs : s.KeysConsistent) (key : ObjKey)
    (vector : List Binary64) (nodeLayer : Nat) :
    (afterCall s (insert dist s key vector nodeLayer)).KeysConsistent := by
  cases h : insert dist s key vector nodeLayer with
  | error e => exact hs
  | ok s' =>
    rcases insert_eq_ok dist h with ⟨-, rfl⟩ | ⟨-, config, -, s₂, hrew, rfl⟩
    · exact hs
    · -- the new node is stored under its own key, the others stay where they were
      have hs₁ : HNSWIndex.KeysConsistent
          { s with config := config,
                   vectors := s.vectors.insert key (newNode key vector nodeLayer) } := by
        intro k n hn
        by_cases hk : k = key
        · subst hk
          simp only [AList.lookup_insert, Option.some.injEq] at hn
          rw [← hn]
          rfl
        · exact hs k n (by simpa [AList.lookup_insert_ne hk] using hn)
      have hs₂ := hrew.keysConsistent hs₁
      split <;> exact hs₂

lemma keysConsistent_erase {s : HNSWIndex} (hs : s.KeysConsistent) (key : ObjKey) :
    (erase s key).KeysConsistent := by
  intro k n hn
  obtain ⟨-, hsame, -, -⟩ := erase_spec s key
  have hk := map_objKey_eq_of_sameData hsame k
  rw [hn] at hk
  by_cases hkey : k = key
  · subst hkey
    simp at hk
  · rw [AList.lookup_erase_ne hkey] at hk
    cases hm : s.vectors.lookup k with
    | none => simp [hm] at hk
    | some n₀ =>
      rw [hm, Option.map_some, Option.map_some, Option.some.injEq] at hk
      exact hk ▸ hs k n₀ hm

lemma keysConsistent_step (s : HNSWIndex) (o : Op) (hs : s.KeysConsistent) :
    (step dist s o).KeysConsistent := by
  cases o with
  | insert key vector layer => exact keysConsistent_afterCall_insert dist hs key vector layer
  | erase key => exact keysConsistent_erase hs key
  | set key vector layer =>
    exact keysConsistent_afterCall_insert dist (keysConsistent_erase hs key) key vector layer
  | clear =>
    intro k n hn
    simp [step, clear] at hn

lemma vectorMap_new (cfg : HNSWIndexConfig) : (HNSWIndex.new cfg).vectorMap = VectorMap.init cfg := by
  ext1
  · rfl
  · unfold HNSWIndex.vectorMap HNSWIndex.new VectorMap.init HNSWIndexConfig.normalize
    dsimp only
    split <;> split <;> rfl

/-- The index refines the abstract map: after any writes from a new index, its keys and vectors
are those of the abstract map after the same writes, and each node is stored under its own
object key. -/
theorem vectorMap_run (cfg : HNSWIndexConfig) (ops : List Op) :
    (Run.run (step dist) (HNSWIndex.new cfg) ops).vectorMap =
        Run.run VectorMap.step (VectorMap.init cfg) ops ∧
      (Run.run (step dist) (HNSWIndex.new cfg) ops).KeysConsistent := by
  have hinit : (HNSWIndex.new cfg).KeysConsistent := by
    intro k n hn
    unfold HNSWIndex.new at hn
    simp at hn
  refine ⟨?_, Run.run_invariant (keysConsistent_step dist) ops _ hinit⟩
  rw [← vectorMap_new cfg]
  exact Run.run_simulation (keysConsistent_step dist) (fun s o _ => vectorMap_step dist s o)
    ops _ hinit

/-- A map that binds every non-empty vector, as if `insert` had no dimension check. -/
def bindNonEmpty (a : ObjKey → Option (List Binary64)) : Op → ObjKey → Option (List Binary64)
  | .insert key vector _ => if vector = [] then a else Function.update a key (some vector)
  | .erase key => Function.update a key none
  | .set key vector _ =>
    if vector = [] then Function.update a key none else Function.update a key (some vector)
  | .clear => fun _ => none

/-- After a one-dimensional vector, a two-dimensional one is refused: its key is not indexed,
though the map that binds every non-empty vector binds it. -/
theorem insert_other_dimension_unbound :
    ((Run.run (step gridMetrics) (HNSWIndex.new (HNSWIndexConfig.ofMetric .euclidean))
        [.insert ⟨1⟩ [⟨0x3FF0000000000000⟩] 0,
          .insert ⟨2⟩ [⟨0x3FF0000000000000⟩, ⟨0x4000000000000000⟩] 0]).vectors.lookup ⟨2⟩).map
        Node.vector = none ∧
      Run.run bindNonEmpty (fun _ => none)
        [.insert ⟨1⟩ [⟨0x3FF0000000000000⟩] 0,
          .insert ⟨2⟩ [⟨0x3FF0000000000000⟩, ⟨0x4000000000000000⟩] 0] ⟨2⟩ =
        some [⟨0x3FF0000000000000⟩, ⟨0x4000000000000000⟩] := by
  decide

end Realm
