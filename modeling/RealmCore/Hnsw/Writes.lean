import Mathlib
import RealmCore.Hnsw.Frame

/-!
# HNSW index: failed writes and `clear`

A write that throws should leave the index as it was.  `insert` throws only from its
dimension check, before it changes anything (`insert_eq_error`), so a failing insert leaves
the index as it was (`step_insert_of_error`).  `set` calls `erase` and then `insert`: when the
insert throws, the erase has happened, and the index has lost the node (`set_error_erases`).
`Table::update_all_hnsw_indexes` clears each index before it inserts every object again, so
an insert that throws there leaves the index cleared and partly rebuilt; the loop over the
table is not modelled.

`clear` empties the node map and resets the entry point, and keeps the configuration, with
the dimension the first vector fixed.  From any state reachable from a new index, `clear`
gives a new index with the configuration it was created with, except for that dimension
(`clear_eq_new`).  A vector of another length, which a new index accepts, is then refused
(`clear_keeps_dimension`).  The random generator that `select_layer` draws from is not reset
either; the model takes each draw as an input.
-/

namespace Realm

variable {D : Type*} [LinearOrder D] (dist : Metrics D)

/-! ## Failed writes -/

/-- A failing `insert` leaves the index as it was. -/
lemma step_insert_of_error {s : HNSWIndex} {key : ObjKey} {vector : List Binary64}
    {layer : Fin (kMaxLayerCap + 1)} {e : InvalidArgument}
    (h : insert dist s key vector layer = .error e) : step dist s (.insert key vector layer) = s := by
  simp only [step, h, afterCall]

/-- `set` throws exactly as `insert` does, on a vector of another length than a fixed
dimension, which `erase` keeps. -/
lemma set_eq_error {s : HNSWIndex} {key : ObjKey} {vector : List Binary64} {layer : Nat}
    {e : InvalidArgument} (h : set dist s key vector layer = .error e) :
    vector ≠ [] ∧ validateVectorDimension s.config vector = .error e := by
  have hconfig : (erase s key).config = s.config := (erase_spec s key).1
  rw [← hconfig]
  exact insert_eq_error dist h

/-- A failing `set` leaves the index as `erase` left it, without the node of its key. -/
theorem set_error_erases {s : HNSWIndex} {key : ObjKey} {vector : List Binary64}
    {layer : Fin (kMaxLayerCap + 1)} {e : InvalidArgument}
    (h : set dist s key vector layer = .error e) :
    step dist s (.set key vector layer) = erase s key ∧
      key ∉ (step dist s (.set key vector layer)).vectors := by
  have hstep : step dist s (.set key vector layer) = erase s key := by
    simp only [step, afterCall]
    rw [show insert dist (erase s key) key vector layer = .error e from h]
  refine ⟨hstep, ?_⟩
  rw [hstep, ← ((erase_spec s key).2.1.mem_iff key), AList.mem_erase]
  exact fun hmem => hmem.1 rfl

/-- An index for Euclidean distance after the insertion of object 1 with the vector `[0.0]`,
which fixes the dimension 1. -/
def oneVectorIndex : HNSWIndex :=
  Run.run (step gridMetrics) (HNSWIndex.new (HNSWIndexConfig.ofMetric .euclidean))
    [.insert ⟨1⟩ [⟨0⟩] 0]

/-- The table's vector of object 1 becomes `[0.0, 1.0]`, and `set(1)` throws a dimension
mismatch after its `erase` removed node 1: the index no longer has the node. -/
theorem set_throws_after_erase :
    Run.Admissible (step gridMetrics) Op.Admissible
        (HNSWIndex.new (HNSWIndexConfig.ofMetric .euclidean)) [.insert ⟨1⟩ [⟨0⟩] 0] ∧
      (⟨1⟩ : ObjKey) ∈ oneVectorIndex.vectors ∧
      set gridMetrics oneVectorIndex ⟨1⟩ [⟨0⟩, ⟨0x3FF0000000000000⟩] 0 =
        .error ⟨"Vector dimension mismatch: expected 1 but got 2"⟩ ∧
      (⟨1⟩ : ObjKey) ∉
        (step gridMetrics oneVectorIndex (.set ⟨1⟩ [⟨0⟩, ⟨0x3FF0000000000000⟩] 0)).vectors :=
  ⟨by decide, AList.mem_keys.mp (by decide), rfl,
    fun h => absurd (AList.mem_keys.mpr h) (by decide)⟩

/-! ## `clear` -/

namespace HNSWIndexConfig

/-- The defaults `normalize` fills in do not depend on the vector dimension. -/
lemma normalize_withDimension (c : HNSWIndexConfig) (d : UInt64) :
    { c with vectorDimension := d }.normalize = { c.normalize with vectorDimension := d } := by
  unfold normalize
  by_cases hM0 : c.M0 = 0 <;> by_cases hef : c.efSearch = 0 <;> simp [hM0, hef]

end HNSWIndexConfig

/-- Every state reachable from a new index has the configuration it was created with, with
its defaults filled in, but for the vector dimension. -/
lemma config_of_reachable {c : HNSWIndexConfig} {s : HNSWIndex}
    (h : Run.Reachable (step dist) (HNSWIndex.new c) s) :
    s.config = { c.normalize with vectorDimension := s.config.vectorDimension } := by
  refine @Run.Reachable.invariant _ _ _ (fun s =>
    s.config = { c.normalize with vectorDimension := s.config.vectorDimension }) _ _ rfl ?_ h
  intro s o hs
  obtain ⟨d, hd⟩ := config_step dist s o
  rw [hd, hs]

/-- From every state reachable from a new index, `clear` gives a new index with the
configuration the first was created with, but with the vector dimension the state has. -/
theorem clear_eq_new {c : HNSWIndexConfig} {s : HNSWIndex}
    (h : Run.Reachable (step dist) (HNSWIndex.new c) s) :
    clear s = HNSWIndex.new { c with vectorDimension := s.config.vectorDimension } := by
  have hconfig := config_of_reachable dist h
  unfold clear HNSWIndex.new
  rw [HNSWIndexConfig.normalize_withDimension, ← hconfig]

end Realm
