import Mathlib
import RealmCore.Hnsw.Storage
import RealmCore.Hnsw.Query

/-!
# HNSW index: reopening

When a table's accessors are refreshed, `Table::refresh_index_accessors` builds the accessor of
an indexed `List<Double>` column from the index's persisted root, with
`HNSWIndex(ref, &m_index_refs, col_ndx, virtual_col, get_alloc())`.  That constructor's
configuration defaults to `Config(DistanceMetric::Euclidean)`, and the persisted metadata
holds only the dimension, `M`, `ef_construction` and `ef_search`.

Writes change the configuration only in its dimension (`config_run`), so a reopened index is
the persisted one with the Euclidean metric and `M0 = 32` whatever the index was built with
(`reopen_saveToStorage`); an index built for the dot product is then searched by Euclidean
distance.
-/

namespace Realm

open RefTree RefTree.Heap

/-- The accessor `Table::refresh_index_accessors` builds for an HNSW index from its root. -/
def reopen (h : Heap Int64) (ref : Nat) : Option HNSWIndex :=
  HNSWIndex.ofRef h ref (HNSWIndexConfig.ofMetric .euclidean)

variable {D : Type*} [LinearOrder D] (dist : Metrics D)

/-- Along a run from a new index the configuration is the normalized one, up to its
dimension. -/
lemma config_run (cfg : HNSWIndexConfig) (ops : List Op) :
    ∃ d, (Run.run (step dist) (HNSWIndex.new cfg) ops).config =
      { cfg.normalize with vectorDimension := d } := by
  have hrun : ∀ (ops : List Op) (s : HNSWIndex),
      (∃ d, s.config = { cfg.normalize with vectorDimension := d }) →
      ∃ d, (Run.run (step dist) s ops).config = { cfg.normalize with vectorDimension := d } :=
    Run.run_invariant fun s o ⟨_, hd⟩ => by
      obtain ⟨d', hd'⟩ := config_step dist s o
      exact ⟨d', by rw [hd', hd]⟩
  exact hrun ops _ ⟨cfg.normalize.vectorDimension, rfl⟩

/-- The default `ef_search = max(64, M * 8)` is never zero. -/
lemma efSearch_normalize_ne_zero (c : HNSWIndexConfig) : c.normalize.efSearch ≠ 0 := by
  have hmax : ∀ x : UInt64, max 64 x ≠ 0 := by
    intro x h
    have h64 := congrArg UInt64.toNat h
    rw [UInt64.toNat_max] at h64
    simp at h64
  unfold HNSWIndexConfig.normalize
  dsimp only
  split <;> split <;> rename_i h₁ h₂
  · exact hmax _
  · exact h₂
  · exact hmax _
  · exact h₂

end Realm

namespace Realm

open RefTree RefTree.Heap

variable {D : Type*} [LinearOrder D] (dist : Metrics D)

/-- A reopened index is the persisted one under the Euclidean metric with `M0 = 32`: every
node with the lists of its layers, the entry point and its layer, and the configuration with
the default's metric and `M0` in place of its own. -/
theorem reopen_saveToStorage (cfg : HNSWIndexConfig) (ops : List Op) (heap : Heap Int64) :
    let S := Run.run (step dist) (HNSWIndex.new cfg) ops
    ∃ R, reopen (saveToStorage S heap).1 (saveToStorage S heap).2 = some R ∧
      (∀ k, R.vectors.lookup k = (S.vectors.lookup k).map Node.persisted) ∧
      R.entryPoint = S.entryPoint ∧ R.entryPointLayer = S.entryPointLayer ∧
      R.config = { S.config with metric := .euclidean, M0 := 32 } := by
  intro S
  have hload := loadFromStorage_of_holds (holds_store heap (storageTree S))
    (storageInvariant_run dist cfg ops) (HNSWIndexConfig.ofMetric .euclidean)
  -- the persisted `ef_search` is the normalized one, which the defaults leave alone
  have hef : S.config.efSearch ≠ 0 := by
    obtain ⟨d, hd⟩ := config_run dist cfg ops
    rw [hd]
    exact efSearch_normalize_ne_zero cfg
  refine ⟨{ config := HNSWIndexConfig.normalize { HNSWIndexConfig.ofMetric .euclidean with
                vectorDimension := S.config.vectorDimension
                M := S.config.M
                efConstruction := S.config.efConstruction
                efSearch := S.config.efSearch }
            vectors := S.vectors.entries.foldl (fun m e => m.insert e.1 e.2.persisted) ∅
            entryPoint := S.entryPoint
            entryPointLayer := S.entryPointLayer }, ?_, lookup_loaded S, rfl, rfl, ?_⟩
  · rw [reopen, HNSWIndex.ofRef, saveToStorage, hload]
    rfl
  · simp [HNSWIndexConfig.normalize, HNSWIndexConfig.ofMetric, hef]

theorem searchKnn_reopen_dotProduct :
    ∃ S, S = Run.run (step gridMetrics) (HNSWIndex.new (HNSWIndexConfig.ofMetric .dotProduct))
        [.insert ⟨1⟩ [⟨0x3FF0000000000000⟩] 0] ∧
      (searchKnn gridMetrics S [⟨0x3FF0000000000000⟩] 1 0).toOption = some [(⟨1⟩, -1)] ∧
      ((reopen (saveToStorage S ⟨[]⟩).1 (saveToStorage S ⟨[]⟩).2).map fun R =>
        (searchKnn gridMetrics R [⟨0x3FF0000000000000⟩] 1 0).toOption) = some (some [(⟨1⟩, 0)]) := by
  refine ⟨_, rfl, ?_⟩
  decide

end Realm
