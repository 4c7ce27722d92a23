import Mathlib
import RealmCore.Lib.RefTree
import RealmCore.Hnsw.EntryPoint

/-!
# HNSW index: the persisted form

`save_to_storage` writes the index as a tree of arrays: a root array with references to a
metadata array (format version, entry point, entry layer and four configuration fields) and
to one array per node; a node's array refers to an info array (object key, layer), to the bit
patterns of its vector and to one array per layer `0..layer` with the neighbours' keys.
`storageTree` is that tree and `saveToStorage` stores it with `RefTree.Heap.store`, which
follows the order in which the source creates and fills the arrays.

`load_from_storage` reads the tree back through `Array::get` and `Array::get_as_ref`, skipping
null references and short arrays as the source does.  `loadFromStorage_saveToStorage` is the
round trip: from every state a run reaches, loading what saving wrote gives back the node map
(each node with the lists of its layers `0..layer`), the entry point and its layer, and the four
persisted configuration fields.
-/

namespace Realm

open RefTree RefTree.Heap NodeMap

/-! ## The layout -/

/-- `k_format_version`. -/
def kFormatVersion : Int64 := 1

/-- `Array::get`: a slot read as an `int64_t`. -/
def slotValue : Slot Int64 → Int64
  | .val v => v
  | .ref r => Int64.ofNat r

lemma slotValue_val (v : Int64) : slotValue (.val v) = v := rfl

/-- `Array::get_as_ref`: a slot read as a `ref_type`. -/
def slotRef : Slot Int64 → Nat
  | .ref r => r
  | .val v => v.toUInt64.toNat

/-- `array.get(i)`. -/
def arrayGet (a : List (Slot Int64)) (i : Nat) : Int64 := slotValue (a.getD i (.val 0))

/-- `array.get_as_ref(i)`. -/
def arrayGetAsRef (a : List (Slot Int64)) (i : Nat) : Nat := slotRef (a.getD i (.val 0))

/-- The arrays `save_to_storage` writes for a node: the info array (object key and layer), the
bit patterns of the vector, and one array per layer `0..layer` with the keys of the list at
that layer, empty where the node has none. -/
def nodeTree (node : Node) : RefTree.Tree Int64 :=
  .node (.leaf [node.objKey.value, Int64.ofInt node.layer] ::
    .leaf (node.vector.map Binary64.toInt64Bits) ::
    (List.range (node.layer + 1)).map fun layer => .leaf ((node.neighbors layer).map ObjKey.value))

/-- The metadata array. -/
def metadataTree (s : HNSWIndex) : RefTree.Tree Int64 :=
  .leaf [kFormatVersion, s.entryPoint.value, Int64.ofInt s.entryPointLayer,
    s.config.vectorDimension.toInt64, s.config.M.toInt64, s.config.efConstruction.toInt64,
    s.config.efSearch.toInt64]

/-- The tree `save_to_storage` writes: the metadata, then the nodes in iteration order. -/
def storageTree (s : HNSWIndex) : RefTree.Tree Int64 :=
  .node (metadataTree s :: s.vectors.entries.map fun e => nodeTree e.2)

/-- `HNSWIndex::save_to_storage`: the arrays of `storageTree` in fresh storage, and the new
root reference. -/
def saveToStorage (s : HNSWIndex) (h : Heap Int64) : Heap Int64 × Nat :=
  store h (storageTree s)

/-! ## Loading -/

/-- The metadata part of `load_from_storage`; `none` is the failed assertion on the format
version. -/
def loadMetadata (h : Heap Int64) (metadataRef : Nat) (s : HNSWIndex) : Option HNSWIndex :=
  if metadataRef = 0 then some s
  else
    let metadata := h.fetch metadataRef
    if metadata.length < 7 then some s
    else if arrayGet metadata 0 ≠ kFormatVersion then none
    else some { s with
      entryPoint := ⟨arrayGet metadata 1⟩
      entryPointLayer := (arrayGet metadata 2).toInt32.toInt
      config := { s.config with
        vectorDimension := (arrayGet metadata 3).toUInt64
        M := (arrayGet metadata 4).toUInt64
        efConstruction := (arrayGet metadata 5).toUInt64
        efSearch := (arrayGet metadata 6).toUInt64 } }

/-- The object key and layer of a node's info array.  Without one the source leaves the layer
uninitialised; it is read as `0` here. -/
def loadNodeInfo (h : Heap Int64) (infoRef : Nat) : ObjKey × Int :=
  if infoRef = 0 then (ObjKey.null, 0)
  else
    let info := h.fetch infoRef
    if info.length < 2 then (ObjKey.null, 0)
    else (⟨arrayGet info 0⟩, (arrayGet info 1).toInt32.toInt)

/-- The vector, from its array of bit patterns. -/
def loadVector (h : Heap Int64) (vectorRef : Nat) : List Binary64 :=
  if vectorRef = 0 then []
  else (h.fetch vectorRef).map fun slot => Binary64.ofInt64Bits (slotValue slot)

/-- `connections.resize(layer + 1)`, then the loop over the layers up to `layer` that have a
slot in `node_array`: the loop condition only fails once the slots run out, so each layer is
read when it has one.  A null reference leaves the list empty. -/
def loadConnections (h : Heap Int64) (nodeArray : List (Slot Int64)) (layer : Int) :
    List (List ObjKey) :=
  (List.range (layer + 1).toNat).map fun l =>
    if 2 + l < nodeArray.length then
      let connRef := arrayGetAsRef nodeArray (2 + l)
      if connRef = 0 then [] else (h.fetch connRef).map fun slot => ⟨slotValue slot⟩
    else []

/-- One node of `load_from_storage`, skipped when its reference is null or its array has fewer
than two slots, and otherwise stored under the object key it holds. -/
def loadNode (h : Heap Int64) (s : HNSWIndex) (nodeRef : Nat) : HNSWIndex :=
  if nodeRef = 0 then s
  else
    let nodeArray := h.fetch nodeRef
    if nodeArray.length < 2 then s
    else
      let info := loadNodeInfo h (arrayGetAsRef nodeArray 0)
      let node : Node := ⟨info.1, loadVector h (arrayGetAsRef nodeArray 1), info.2.toNat,
        loadConnections h nodeArray info.2⟩
      { s with vectors := s.vectors.insert info.1 node }

/-- `HNSWIndex::load_from_storage` from the root array at `root`. -/
def loadFromStorage (h : Heap Int64) (root : Nat) (s : HNSWIndex) : Option HNSWIndex :=
  let top := h.fetch root
  if top.length = 0 then some s
  else (loadMetadata h (arrayGetAsRef top 0) s).map fun s =>
    (top.drop 1).foldl (fun s slot => loadNode h s (slotRef slot)) s

/-- The accessor `HNSWIndex(ref, ...)` builds before loading: the given configuration, no
nodes, the null entry point at `-1`. -/
def HNSWIndex.unloaded (config : HNSWIndexConfig) : HNSWIndex :=
  { config := config, vectors := ∅, entryPoint := ObjKey.null, entryPointLayer := -1 }

/-- `HNSWIndex(ref, parent, ndx_in_parent, target_column, alloc, config)`: load, then fill in
the configuration defaults. -/
def HNSWIndex.ofRef (h : Heap Int64) (ref : Nat) (config : HNSWIndexConfig) :
    Option HNSWIndex :=
  (loadFromStorage h ref (HNSWIndex.unloaded config)).map fun s =>
    { s with config := s.config.normalize }

/-- A node as its persisted form keeps it: the lists of layers `0..layer`, a missing one
empty. -/
def Node.persisted (n : Node) : Node :=
  { n with connections := (List.range (n.layer + 1)).map n.neighbors }

@[simp] lemma Node.objKey_persisted (n : Node) : n.persisted.objKey = n.objKey := rfl
@[simp] lemma Node.vector_persisted (n : Node) : n.persisted.vector = n.vector := rfl
@[simp] lemma Node.layer_persisted (n : Node) : n.persisted.layer = n.layer := rfl

lemma Node.neighbors_persisted {n : Node} {l : Nat} (hl : l ≤ n.layer) :
    n.persisted.neighbors l = n.neighbors l := by
  simp [Node.persisted, Node.neighbors, List.getD_eq_getElem?_getD, Nat.lt_succ_of_le hl]

/-! ## Reading back what was written -/

lemma arrayGetAsRef_map_ref {rs : List Nat} {i : Nat} (hi : i < rs.length) :
    arrayGetAsRef (rs.map .ref) i = rs[i] := by
  simp [arrayGetAsRef, List.getD_eq_getElem?_getD, List.getElem?_eq_getElem hi, slotRef]

/-- An `int` stored in an `int64_t` and cast back. -/
lemma toInt_toInt32_ofInt {x : Int} (h₁ : -2 ^ 31 ≤ x) (h₂ : x < 2 ^ 31) :
    (Int64.ofInt x).toInt32.toInt = x := by
  rw [Int64.toInt32_ofInt, Int32.toInt_ofInt_of_le h₁ h₂]

lemma loadNodeInfo_of_holds {h : Heap Int64} {r : Nat} {k : ObjKey} {layer : Nat}
    (hh : Holds h r (.leaf [k.value, Int64.ofInt layer])) (hl : layer ≤ kMaxLayerCap) :
    loadNodeInfo h r = (k, (layer : Int)) := by
  obtain ⟨h0, -, hf⟩ := hh
  have hlayer : (Int64.ofInt layer).toInt32.toInt = layer :=
    toInt_toInt32_ofInt (by omega) (by unfold kMaxLayerCap at hl; omega)
  unfold loadNodeInfo arrayGet
  simp only [Nat.pos_iff_ne_zero.mp h0, if_false, hf, List.map_cons, List.map_nil,
    List.getD_cons_zero, List.getD_cons_succ, slotValue_val, hlayer]
  simp

lemma loadVector_of_holds {h : Heap Int64} {r : Nat} {v : List Binary64}
    (hh : Holds h r (.leaf (v.map Binary64.toInt64Bits))) : loadVector h r = v := by
  obtain ⟨h0, -, hf⟩ := hh
  simp [loadVector, Nat.pos_iff_ne_zero.mp h0, hf, slotValue_val, Function.comp_def]

/-- The list of one layer read back from its array. -/
lemma loadList_of_holds {h : Heap Int64} {r : Nat} {ns : List ObjKey}
    (hh : Holds h r (.leaf (ns.map ObjKey.value))) :
    (if r = 0 then [] else (h.fetch r).map fun slot => (⟨slotValue slot⟩ : ObjKey)) = ns := by
  obtain ⟨h0, -, hf⟩ := hh
  simp [Nat.pos_iff_ne_zero.mp h0, hf, slotValue_val, Function.comp_def]

/-- A node array that holds `nodeTree n` is read back as `n`, lists cut to its layers. -/
lemma loadNode_of_holds {h : Heap Int64} {r : Nat} {n : Node} (hh : Holds h r (nodeTree n))
    (hl : n.layer ≤ kMaxLayerCap) (s : HNSWIndex) :
    loadNode h s r = { s with vectors := s.vectors.insert n.objKey n.persisted } := by
  obtain ⟨h0, -, rs, hfetch, hall⟩ := hh
  match rs, hall with
  | ri :: rv :: rcs, ⟨_, hinfo, _, hvec, hconns⟩ =>
    have hlen : rcs.length = n.layer + 1 := by simpa using hconns.length_eq
    have hconn : loadConnections h ((ri :: rv :: rcs).map .ref) n.layer =
        (List.range (n.layer + 1)).map n.neighbors := by
      have hn : ((n.layer : Int) + 1).toNat = n.layer + 1 := by omega
      rw [loadConnections, hn]
      refine List.map_congr_left fun l hmem => ?_
      have hlt : l < rcs.length := by rw [hlen]; exact List.mem_range.mp hmem
      have hget : arrayGetAsRef ((ri :: rv :: rcs).map .ref) (2 + l) = rcs[l] := by
        rw [arrayGetAsRef_map_ref (by simp; omega)]
        simp [Nat.add_comm 2 l]
      have hleaf := hconns.getElem hlt
      simp only [List.get_eq_getElem, List.getElem_map, List.getElem_range] at hleaf
      rw [if_pos (by simp; omega), hget]
      exact loadList_of_holds hleaf
    have hri : arrayGetAsRef ((ri :: rv :: rcs).map .ref) 0 = ri := rfl
    have hrv : arrayGetAsRef ((ri :: rv :: rcs).map .ref) 1 = rv := rfl
    have hlen₂ : ¬((ri :: rv :: rcs).map (Slot.ref : Nat → Slot Int64)).length < 2 := by simp
    simp only [loadNode, if_neg (Nat.pos_iff_ne_zero.mp h0), hfetch, if_neg hlen₂, hri, hrv,
      loadNodeInfo_of_holds hinfo hl, loadVector_of_holds hvec, Int.toNat_natCast, hconn]
    rfl
  | [], hall => exact hall.elim
  | [_], ⟨_, _, hall⟩ => exact hall.elim

/-- The loop of `load_from_storage` over node arrays that hold the nodes of `l`, each under its
own key, inserts them one after another. -/
lemma foldl_loadNode (h : Heap Int64) (p : Nat) :
    ∀ (l : List (Sigma fun _ : ObjKey => Node)) (rs : List Nat) (s : HNSWIndex),
      HoldsAll h p rs (l.map fun e => nodeTree e.2) →
      (∀ e ∈ l, e.2.objKey = e.1 ∧ e.2.layer ≤ kMaxLayerCap) →
      rs.foldl (loadNode h) s =
        { s with vectors := l.foldl (fun m e => m.insert e.1 e.2.persisted) s.vectors }
  | [], [], s, _, _ => rfl
  | e :: l, r :: rs, s, ⟨_, he, hrest⟩, hl => by
    obtain ⟨hkey, hlayer⟩ := hl e List.mem_cons_self
    rw [List.foldl_cons, loadNode_of_holds he hlayer, hkey,
      foldl_loadNode h p l rs _ hrest fun e' he' => hl e' (List.mem_cons_of_mem e he')]
    rfl
  | [], _ :: _, _, hall, _ => hall.elim
  | _ :: _, [], _, hall, _ => hall.elim

lemma loadMetadata_of_holds {h : Heap Int64} {r : Nat} {S : HNSWIndex}
    (hh : Holds h r (metadataTree S)) (h₁ : -1 ≤ S.entryPointLayer)
    (h₂ : S.entryPointLayer ≤ kMaxLayerCap) (s : HNSWIndex) :
    loadMetadata h r s = some { s with
      entryPoint := S.entryPoint
      entryPointLayer := S.entryPointLayer
      config := { s.config with
        vectorDimension := S.config.vectorDimension
        M := S.config.M
        efConstruction := S.config.efConstruction
        efSearch := S.config.efSearch } } := by
  obtain ⟨h0, -, hf⟩ := hh
  have hlayer : (Int64.ofInt S.entryPointLayer).toInt32.toInt = S.entryPointLayer :=
    toInt_toInt32_ofInt (by omega) (by unfold kMaxLayerCap at h₂; omega)
  unfold loadMetadata arrayGet
  simp only [Nat.pos_iff_ne_zero.mp h0, if_false, hf, List.map_cons, List.map_nil,
    List.getD_cons_zero, List.getD_cons_succ, slotValue_val, hlayer]
  simp

/-! ## The states a run reaches -/

/-- What the persisted form needs of a state: each node is stored under its own key, and every
layer, the entry layer included, lies between `-1` and the layer cap. -/
structure StorageInvariant (s : HNSWIndex) : Prop where
  keys : s.KeysConsistent
  layer_le : ∀ k n, s.vectors.lookup k = some n → n.layer ≤ kMaxLayerCap
  entryPointLayer_ge : -1 ≤ s.entryPointLayer
  entryPointLayer_le : s.entryPointLayer ≤ kMaxLayerCap

lemma layer_le_of_sameData {m m' : NodeMap} (h : SameData m m') {c : Nat}
    (hl : ∀ k n, m.lookup k = some n → n.layer ≤ c) :
    ∀ k n, m'.lookup k = some n → n.layer ≤ c := by
  intro k n' hn'
  obtain ⟨n, hn, hd⟩ := h.lookup_eq_some hn'
  have hlayer : n.layer = n'.layer := congrArg (fun d => d.2.2) hd
  exact hlayer ▸ hl k n hn

lemma StorageInvariant.of_rewires {s s' : HNSWIndex} (hs : StorageInvariant s)
    (h : Rewires s s') : StorageInvariant s' :=
  ⟨h.keysConsistent hs.keys, layer_le_of_sameData h.vectors hs.layer_le,
    h.entryPointLayer ▸ hs.entryPointLayer_ge, h.entryPointLayer ▸ hs.entryPointLayer_le⟩

lemma StorageInvariant.setEntryPoint {s : HNSWIndex} (hs : StorageInvariant s) (key : ObjKey)
    {layer : Nat} (hl : layer ≤ kMaxLayerCap) :
    StorageInvariant { s with entryPoint := key, entryPointLayer := layer } :=
  ⟨hs.keys, hs.layer_le, by dsimp only; omega, by dsimp only; exact_mod_cast hl⟩

/-- The rescan of `erase` ends at `-1` or at the layer of a node. -/
lemma rescanEntryPoint_layer_bounds (m : NodeMap)
    (hl : ∀ k n, m.lookup k = some n → n.layer ≤ kMaxLayerCap) :
    -1 ≤ (rescanEntryPoint m).2 ∧ (rescanEntryPoint m).2 ≤ kMaxLayerCap := by
  rw [rescanEntryPoint_eq]
  rcases foldl_rescanStep m.entries (ObjKey.null, -1) with ⟨hkeep, -⟩ | ⟨e, he, hres, hlt, -⟩
  · rw [hkeep]
    simp [kMaxLayerCap_eq]
  · have hle : e.2.layer ≤ kMaxLayerCap := hl e.1 e.2 (AList.mem_lookup_iff.mpr he)
    rw [hres]
    dsimp only at hlt ⊢
    omega

section Run

variable {D : Type*} [LinearOrder D] (dist : Metrics D)

lemma storageInvariant_insertNode {s : HNSWIndex} (hs : StorageInvariant s) (key : ObjKey)
    (config : HNSWIndexConfig) (vector : List Binary64) {nodeLayer : Nat}
    (hl : nodeLayer ≤ kMaxLayerCap) :
    StorageInvariant
      { s with config := config, vectors := s.vectors.insert key (newNode key vector nodeLayer) } := by
  refine ⟨?_, ?_, hs.entryPointLayer_ge, hs.entryPointLayer_le⟩
  · intro k n hn
    by_cases hk : k = key
    · subst hk
      simp only [AList.lookup_insert, Option.some.injEq] at hn
      rw [← hn]
      rfl
    · exact hs.keys k n (by rwa [AList.lookup_insert_ne hk] at hn)
  · intro k n hn
    by_cases hk : k = key
    · subst hk
      simp only [AList.lookup_insert, Option.some.injEq] at hn
      rw [← hn]
      exact hl
    · exact hs.layer_le k n (by rwa [AList.lookup_insert_ne hk] at hn)

lemma storageInvariant_afterCall_insert {s : HNSWIndex} (hs : StorageInvariant s) (key : ObjKey)
    (vector : List Binary64) {nodeLayer : Nat} (hl : nodeLayer ≤ kMaxLayerCap) :
    StorageInvariant (afterCall s (insert dist s key vector nodeLayer)) := by
  cases h : insert dist s key vector nodeLayer with
  | error e => exact hs
  | ok s' =>
    rcases insert_eq_ok dist h with ⟨-, rfl⟩ | ⟨-, config, -, s₂, hrew, rfl⟩
    · exact hs
    · have hs₂ := (storageInvariant_insertNode hs key config vector hl).of_rewires hrew
      split
      · exact hs₂.setEntryPoint key hl
      · exact hs₂

lemma storageInvariant_erase {s : HNSWIndex} (hs : StorageInvariant s) (key : ObjKey) :
    StorageInvariant (erase s key) := by
  obtain ⟨-, hsame, hrescan, hkeep⟩ := erase_spec s key
  have hlayers : ∀ k n, (erase s key).vectors.lookup k = some n → n.layer ≤ kMaxLayerCap := by
    refine layer_le_of_sameData hsame fun k n hn => hs.layer_le k n ?_
    by_cases hk : k = key
    · subst hk
      simp at hn
    · rwa [AList.lookup_erase_ne hk] at hn
  have hbounds : -1 ≤ (erase s key).entryPointLayer ∧
      (erase s key).entryPointLayer ≤ kMaxLayerCap := by
    by_cases hcase : key ∈ s.vectors ∧ key = s.entryPoint
    · -- the entry layer is the rescan's
      have hep := congrArg Prod.snd (hrescan hcase)
      dsimp only at hep
      rw [hep]
      exact rescanEntryPoint_layer_bounds _ hlayers
    · rw [(hkeep hcase).2]
      exact ⟨hs.entryPointLayer_ge, hs.entryPointLayer_le⟩
  exact ⟨keysConsistent_erase hs.keys key, hlayers, hbounds.1, hbounds.2⟩

lemma storageInvariant_step (s : HNSWIndex) (o : Op) (hs : StorageInvariant s) :
    StorageInvariant (step dist s o) := by
  cases o with
  | insert key vector layer =>
    exact storageInvariant_afterCall_insert dist hs key vector (Nat.le_of_lt_succ layer.isLt)
  | erase key => exact storageInvariant_erase hs key
  | set key vector layer =>
    exact storageInvariant_afterCall_insert dist (storageInvariant_erase hs key) key vector
      (Nat.le_of_lt_succ layer.isLt)
  | clear =>
    refine ⟨fun k n hn => ?_, fun k n hn => ?_, ?_, ?_⟩ <;> simp [step, clear, kMaxLayerCap_eq] at *

lemma storageInvariant_run (cfg : HNSWIndexConfig) (ops : List Op) :
    StorageInvariant (Run.run (step dist) (HNSWIndex.new cfg) ops) := by
  have hinit : StorageInvariant (HNSWIndex.new cfg) :=
    ⟨fun k n hn => by simp [HNSWIndex.new] at hn, fun k n hn => by simp [HNSWIndex.new] at hn,
      by simp [HNSWIndex.new], by simp [HNSWIndex.new, kMaxLayerCap_eq]⟩
  exact Run.run_invariant (storageInvariant_step dist) ops _ hinit

/-- Loading a root that holds the tree of a state with the invariant, into a fresh accessor:
the metadata fields, and every node inserted under its key. -/
lemma loadFromStorage_of_holds {h : Heap Int64} {r : Nat} {S : HNSWIndex}
    (hh : Holds h r (storageTree S)) (hinv : StorageInvariant S) (config : HNSWIndexConfig) :
    loadFromStorage h r (HNSWIndex.unloaded config) = some
      { config := { config with
          vectorDimension := S.config.vectorDimension
          M := S.config.M
          efConstruction := S.config.efConstruction
          efSearch := S.config.efSearch }
        vectors := S.vectors.entries.foldl (fun m e => m.insert e.1 e.2.persisted) ∅
        entryPoint := S.entryPoint
        entryPointLayer := S.entryPointLayer } := by
  obtain ⟨-, -, rs, hfetch, hall⟩ := hh
  match rs, hall with
  | rm :: rns, ⟨_, hmeta, hnodes⟩ =>
    have hentries : ∀ e ∈ S.vectors.entries, e.2.objKey = e.1 ∧ e.2.layer ≤ kMaxLayerCap :=
      fun e he => ⟨hinv.keys e.1 e.2 (AList.mem_lookup_iff.mpr he),
        hinv.layer_le e.1 e.2 (AList.mem_lookup_iff.mpr he)⟩
    simp only [loadFromStorage, hfetch, List.length_map, List.length_cons, Nat.add_one_ne_zero,
      if_false]
    rw [show arrayGetAsRef ((rm :: rns).map .ref) 0 = rm from rfl,
      loadMetadata_of_holds hmeta hinv.entryPointLayer_ge hinv.entryPointLayer_le,
      Option.map_some, List.map_cons, List.drop_succ_cons, List.drop_zero, List.foldl_map]
    exact congrArg some (foldl_loadNode _ _ _ _ _ hnodes hentries)
  | [], hall => exact hall.elim

/-- The map `load_from_storage` builds: the empty one with every node inserted under its key. -/
lemma lookup_loaded (S : HNSWIndex) (k : ObjKey) :
    (S.vectors.entries.foldl (fun (m : NodeMap) e => m.insert e.1 e.2.persisted) ∅).lookup k =
      (S.vectors.lookup k).map Node.persisted := by
  rw [AList.lookup_foldl_insert Node.persisted _ S.vectors.nodupKeys]
  simp [AList.lookup]

/-- Persistence round trip: for every state a run reaches, `load_from_storage` on the root that
`save_to_storage` wrote, into a fresh accessor of any configuration, gives back every node
(object key, layer, vector bits, and the lists of the layers `0..layer`) under its key, the
entry point and its layer, and the four persisted configuration fields. -/
theorem loadFromStorage_saveToStorage (cfg : HNSWIndexConfig) (ops : List Op)
    (heap : Heap Int64) (config : HNSWIndexConfig) :
    let S := Run.run (step dist) (HNSWIndex.new cfg) ops
    ∃ L, loadFromStorage (saveToStorage S heap).1 (saveToStorage S heap).2
        (HNSWIndex.unloaded config) = some L ∧
      (∀ k, L.vectors.lookup k = (S.vectors.lookup k).map Node.persisted) ∧
      L.entryPoint = S.entryPoint ∧ L.entryPointLayer = S.entryPointLayer ∧
      L.config = { config with
        vectorDimension := S.config.vectorDimension
        M := S.config.M
        efConstruction := S.config.efConstruction
        efSearch := S.config.efSearch } := by
  intro S
  exact ⟨_, loadFromStorage_of_holds (holds_store heap (storageTree S))
    (storageInvariant_run dist cfg ops) config, lookup_loaded S, rfl, rfl, rfl⟩

end Run

end Realm
