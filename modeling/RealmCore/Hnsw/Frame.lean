import Mathlib
import RealmCore.Hnsw.Ops

/-!
# HNSW index: what graph maintenance leaves alone

`connect_nodes`, `disconnect_nodes` and `prune_connections` only rewire neighbour lists:
they keep every key of `m_vectors`, and under each key its object key, vector and layer, and
they keep the configuration and the entry point.  `Rewires s s'` says so of two states, and
it is reflexive and transitive, so the statement for a loop or a whole connection phase of
`insert` is the composition of the statements for its steps.  The one exception is
`erase`, whose disconnection loop rewires the map before the node itself is removed.
-/

namespace Realm

open EraseRemove NodeMap

variable {D : Type*} [LinearOrder D] (dist : Metrics D)

/-- `s'` is `s` with neighbour lists changed and nothing else. -/
structure Rewires (s s' : HNSWIndex) : Prop where
  config : s'.config = s.config
  entryPoint : s'.entryPoint = s.entryPoint
  entryPointLayer : s'.entryPointLayer = s.entryPointLayer
  vectors : SameData s.vectors s'.vectors

namespace Rewires

lemma refl (s : HNSWIndex) : Rewires s s :=
  ⟨rfl, rfl, rfl, SameData.refl _⟩

lemma trans {s₁ s₂ s₃ : HNSWIndex} (h₁₂ : Rewires s₁ s₂) (h₂₃ : Rewires s₂ s₃) :
    Rewires s₁ s₃ :=
  ⟨h₂₃.config.trans h₁₂.config, h₂₃.entryPoint.trans h₁₂.entryPoint,
    h₂₃.entryPointLayer.trans h₁₂.entryPointLayer, h₁₂.vectors.trans h₂₃.vectors⟩

/-- Replacing the node map by one with the same data rewires. -/
lemma of_vectors {s : HNSWIndex} {m : NodeMap} (h : SameData s.vectors m) :
    Rewires s { s with vectors := m } :=
  ⟨rfl, rfl, rfl, h⟩

/-- A loop whose every pass rewires rewires. -/
lemma foldl {α : Type*} {f : HNSWIndex → α → HNSWIndex} (hf : ∀ s a, Rewires s (f s a)) :
    ∀ (l : List α) (s : HNSWIndex), Rewires s (l.foldl f s) := by
  intro l
  induction l with
  | nil => exact refl
  | cons a l ih => exact fun s => (hf s a).trans (ih (f s a))

end Rewires

/-- The disconnection inside a range-`for` rewires the map. -/
lemma sameData_disconnectIterated (m : NodeMap) (st : Storage ObjKey) (node other : ObjKey)
    (layer : Nat) : SameData m (disconnectIterated m st node other layer).1 := by
  unfold disconnectIterated
  split
  · exact sameData_disconnectNodes m node other layer
  · exact SameData.refl m

/-- A range-`for` of disconnections rewires the map it starts from. -/
lemma sameData_rangeFor {body : NodeMap → Storage ObjKey → ObjKey → NodeMap × Storage ObjKey}
    (hbody : ∀ m st x, SameData m (body m st x).1) (i k : Nat) (m : NodeMap)
    (st : Storage ObjKey) : SameData m (rangeFor body i k m st) :=
  rangeFor_invariant (P := fun m' => SameData m m')
    (fun _ st x h => h.trans (hbody _ st x)) i k m st (SameData.refl m)

lemma sameData_disconnectLayer (m : NodeMap) (key : ObjKey) (layer : Nat) :
    SameData m (disconnectLayer m key layer) := by
  unfold disconnectLayer
  split
  · split
    · exact sameData_rangeFor (fun m st nb => sameData_disconnectIterated m st key nb layer) _ _ _ _
    · exact SameData.refl m
  · exact SameData.refl m

lemma rewires_pruneConnections (s : HNSWIndex) (nodeKey : ObjKey) (layer : Nat) :
    Rewires s (pruneConnections dist s nodeKey layer) := by
  unfold pruneConnections
  split
  · exact Rewires.refl s
  · split
    · exact Rewires.refl s
    · split
      · exact Rewires.refl s
      · -- the disconnections, then the assignment of the new list to the pruned node
        refine Rewires.of_vectors ((sameData_rangeFor ?_ _ _ _ _).trans (sameData_modify _ _ ?_))
        · intro m st old
          unfold pruneBody
          split
          · exact SameData.refl m
          · exact sameData_disconnectIterated m st nodeKey old layer
        · simp

lemma rewires_connectLayers (s : HNSWIndex) (key : ObjKey) (query : List Binary64) :
    ∀ (k : Nat) (curr : ObjKey), Rewires s (connectLayers dist s key query k curr) := by
  intro k
  induction k generalizing s with
  | zero => exact fun _ => Rewires.refl s
  | succ lc ih =>
    intro curr
    simp only [connectLayers]
    have hconnect := Rewires.foldl
      (f := fun s nb => { s with vectors := connectNodes s.vectors key nb lc })
      (fun s nb => Rewires.of_vectors (sameData_connectNodes s.vectors key nb lc))
    have hprune := Rewires.foldl (f := fun s nb => pruneConnections dist s nb lc)
      (fun s nb => rewires_pruneConnections dist s nb lc)
    exact ((hconnect _ s).trans (hprune _ _)).trans (ih _ _)

end Realm

namespace Realm

open NodeMap

variable {D : Type*} [LinearOrder D] (dist : Metrics D)

/-! ## Spec lemmas of `insert` and `erase` -/

lemma SameData.erase {m m' : NodeMap} (h : SameData m m') (k : ObjKey) :
    SameData (m.erase k) (m'.erase k) := by
  intro k'
  by_cases hk : k' = k
  · subst hk
    simp
  · rw [AList.lookup_erase_ne hk, AList.lookup_erase_ne hk]
    exact h k'

/-- What a successful `insert` does: nothing for an empty vector; otherwise it validates the
dimension, adds the new node, rewires, and makes the new node the entry point when the index
was empty or the node's layer is above the entry point's. -/
theorem insert_eq_ok {s s' : HNSWIndex} {key : ObjKey} {vector : List Binary64}
    {nodeLayer : Nat} (h : insert dist s key vector nodeLayer = .ok s') :
    (vector = [] ∧ s' = s) ∨
    (vector ≠ [] ∧ ∃ config, validateVectorDimension s.config vector = .ok config ∧
      ∃ s₂, Rewires
          { s with config := config, vectors := s.vectors.insert key (newNode key vector nodeLayer) }
          s₂ ∧
        s' = if s.vectors.entries = [] ∨ s.entryPointLayer < nodeLayer then
          { s₂ with entryPoint := key, entryPointLayer := nodeLayer } else s₂) := by
  unfold insert at h
  by_cases hv : vector.isEmpty
  · left
    simp only [hv, if_true, Except.ok.injEq] at h
    exact ⟨List.isEmpty_iff.mp hv, h.symm⟩
  · right
    refine ⟨fun h' => hv (List.isEmpty_iff.mpr h'), ?_⟩
    simp only [hv, Bool.false_eq_true, if_false] at h
    cases hval : validateVectorDimension s.config vector with
    | error e => simp [hval] at h; cases h
    | ok config =>
      refine ⟨config, rfl, ?_⟩
      simp only [hval, bind, Except.bind] at h
      by_cases he : s.vectors.entries.isEmpty
      · -- the first node becomes the entry point
        simp only [he, if_true, pure, Except.pure, Except.ok.injEq] at h
        refine ⟨_, Rewires.refl _, ?_⟩
        rw [if_pos (Or.inl (List.isEmpty_iff.mp he))]
        exact h.symm
      · have hne : s.vectors.entries ≠ [] := fun h' => he (List.isEmpty_iff.mpr h')
        simp only [he, Bool.false_eq_true, if_false] at h
        have hrew := rewires_connectLayers dist
          { s with config := config, vectors := s.vectors.insert key (newNode key vector nodeLayer) }
          key vector (nodeLayer + 1)
          (descend dist { s with config := config } vector nodeLayer
            (s.entryPointLayer - nodeLayer).toNat s.entryPoint)
        refine ⟨_, hrew, ?_⟩
        -- the connection phase keeps the entry point the update compares against
        rw [hrew.entryPointLayer] at h
        simp only [hne, false_or]
        split at h <;> rename_i hlt <;> simp only [pure, Except.pure, Except.ok.injEq] at h
        · rw [if_pos hlt]
          exact h.symm
        · rw [if_neg hlt]
          exact h.symm

/-- A failing `insert` failed its dimension check, before changing anything. -/
theorem insert_eq_error {s : HNSWIndex} {key : ObjKey} {vector : List Binary64}
    {nodeLayer : Nat} {e : InvalidArgument} (h : insert dist s key vector nodeLayer = .error e) :
    vector ≠ [] ∧ validateVectorDimension s.config vector = .error e := by
  unfold insert at h
  by_cases hv : vector.isEmpty
  · simp [hv] at h
  · refine ⟨fun h' => hv (List.isEmpty_iff.mpr h'), ?_⟩
    simp only [hv, Bool.false_eq_true, if_false] at h
    cases hval : validateVectorDimension s.config vector with
    | error e' => simp only [hval, bind, Except.bind, Except.error.injEq] at h; rw [h]
    | ok config =>
      simp only [hval, bind, Except.bind] at h
      split at h <;> (try split at h) <;> simp [pure, Except.pure] at h

/-- What `erase` does: it keeps the configuration, its node map is the old one rewired and
without `key`, and it rescans for the entry point exactly when it removed it. -/
theorem erase_spec (s : HNSWIndex) (key : ObjKey) :
    (erase s key).config = s.config ∧
    SameData (s.vectors.erase key) (erase s key).vectors ∧
    (key ∈ s.vectors ∧ key = s.entryPoint →
      ((erase s key).entryPoint, (erase s key).entryPointLayer) =
        rescanEntryPoint (erase s key).vectors) ∧
    (¬(key ∈ s.vectors ∧ key = s.entryPoint) →
      (erase s key).entryPoint = s.entryPoint ∧
        (erase s key).entryPointLayer = s.entryPointLayer) := by
  unfold erase
  split
  · rename_i hnode
    have hnmem : key ∉ s.vectors := AList.lookup_eq_none.mp hnode
    refine ⟨rfl, ?_, fun h => absurd h.1 hnmem, fun _ => ⟨rfl, rfl⟩⟩
    intro k'
    by_cases hk : k' = key
    · subst hk
      simp [hnode]
    · rw [AList.lookup_erase_ne hk]
  · rename_i node hnode
    have hmem : key ∈ s.vectors := AList.lookup_isSome.mp (by simp [hnode])
    -- the disconnections rewire, then the node goes
    have hsame : SameData s.vectors
        ((List.range (node.layer + 1)).foldl (fun m layer => disconnectLayer m key layer)
          s.vectors) := by
      suffices ∀ (l : List Nat) (m : NodeMap), SameData m
          (l.foldl (fun m layer => disconnectLayer m key layer) m) from this _ _
      intro l
      induction l with
      | nil => exact SameData.refl
      | cons layer l ih => exact fun m => (sameData_disconnectLayer m key layer).trans (ih _)
    split
    · rename_i hkey
      exact ⟨rfl, SameData.erase hsame key, fun _ => rfl, fun h => absurd ⟨hmem, hkey⟩ h⟩
    · rename_i hkey
      exact ⟨rfl, SameData.erase hsame key, fun h => absurd h.2 hkey, fun _ => ⟨rfl, rfl⟩⟩

/-- A write changes the configuration in its dimension only. -/
lemma config_step (s : HNSWIndex) (o : Op) :
    ∃ d, (step dist s o).config = { s.config with vectorDimension := d } := by
  -- `insert` changes it only through the dimension check
  have hinsert : ∀ (t : HNSWIndex) key vector layer,
      ∃ d, (afterCall t (insert dist t key vector layer)).config =
        { t.config with vectorDimension := d } := by
    intro t key vector layer
    cases h : insert dist t key vector layer with
    | error e => exact ⟨_, rfl⟩
    | ok t' =>
      rcases insert_eq_ok dist h with ⟨-, rfl⟩ | ⟨-, config, hval, s₂, hrew, rfl⟩
      · exact ⟨_, rfl⟩
      · have hconfig : (if t.vectors.entries = [] ∨ t.entryPointLayer < layer then
            { s₂ with entryPoint := key, entryPointLayer := layer } else s₂).config = config := by
          split <;> exact hrew.config
        simp only [afterCall, hconfig]
        rcases validateVectorDimension_eq_ok.mp hval with ⟨-, rfl⟩ | ⟨-, -, rfl⟩
        · exact ⟨_, rfl⟩
        · exact ⟨_, rfl⟩
  cases o with
  | insert key vector layer => exact hinsert s key vector layer
  | erase key => exact ⟨s.config.vectorDimension, (erase_spec s key).1⟩
  | set key vector layer =>
    obtain ⟨d, hd⟩ := hinsert (erase s key) key vector layer
    exact ⟨d, by rw [step, hd, (erase_spec s key).1]⟩
  | clear => exact ⟨s.config.vectorDimension, rfl⟩

end Realm
