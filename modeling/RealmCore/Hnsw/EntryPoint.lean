import Mathlib
import RealmCore.Hnsw.KeyMap

/-!
# HNSW index: the entry point

Every search starts at `m_entry_point`, at layer `m_entry_point_layer`, and descends from
there; a search from a node that is not the highest, or from a key that is not a node, misses
the upper layers.  `EntryPointConsistent` is what the searches rely on: the null key at layer
`-1` exactly when the index is empty, and otherwise a node of highest layer, at its layer.

`insert` raises the entry point only to a strictly higher layer, and `erase` rescans for a
node of highest layer when it removes the entry point.  The rescan takes the first node of
highest layer in the iteration order of `m_vectors`, which the standard leaves unspecified,
so `rescanEntryPoint_spec` holds for every order.  The invariant needs what the callers
promise (`Op.Admissible`): `insert` is called for objects not indexed yet, whose keys are
never null.
-/

namespace Realm

open NodeMap

variable {D : Type*} [LinearOrder D] (dist : Metrics D)

/-- The entry point invariant. -/
structure EntryPointConsistent (s : HNSWIndex) : Prop where
  empty_iff : s.vectors.entries = [] ↔ s.entryPoint = ObjKey.null ∧ s.entryPointLayer = -1
  entry : s.vectors.entries ≠ [] →
    ∃ n, s.vectors.lookup s.entryPoint = some n ∧ (n.layer : Int) = s.entryPointLayer
  layer_le : ∀ k n, s.vectors.lookup k = some n → (n.layer : Int) ≤ s.entryPointLayer

/-- The invariant `EntryPointConsistent` is carried with: nodes are stored under their own
keys, and no key is null. -/
structure EntryPointInvariant (s : HNSWIndex) : Prop where
  keys : s.KeysConsistent
  keys_set : ∀ k ∈ s.vectors, k.isSet
  consistent : EntryPointConsistent s

/-! ## The rescan -/

/-- One step of the rescan. -/
def rescanStep (acc : ObjKey × Int) (e : Sigma fun _ : ObjKey => Node) : ObjKey × Int :=
  if acc.2 < e.2.layer then (e.2.objKey, e.2.layer) else acc

lemma rescanEntryPoint_eq (m : NodeMap) :
    rescanEntryPoint m = m.entries.foldl rescanStep (ObjKey.null, -1) := rfl

/-- The rescan from any accumulator either keeps it, when no entry is above it, or ends at an
entry above it that no entry is above. -/
lemma foldl_rescanStep (l : List (Sigma fun _ : ObjKey => Node)) (acc : ObjKey × Int) :
    (l.foldl rescanStep acc = acc ∧ ∀ e ∈ l, (e.2.layer : Int) ≤ acc.2) ∨
    (∃ e ∈ l, l.foldl rescanStep acc = (e.2.objKey, (e.2.layer : Int)) ∧ acc.2 < e.2.layer ∧
      ∀ e' ∈ l, (e'.2.layer : Int) ≤ e.2.layer) := by
  induction l generalizing acc with
  | nil => exact Or.inl ⟨rfl, by simp⟩
  | cons e l ih =>
    rw [List.foldl_cons]
    -- the accumulator after `e` is at least as high as before, and as high as `e`
    have hup : acc.2 ≤ (rescanStep acc e).2 ∧ (e.2.layer : Int) ≤ (rescanStep acc e).2 := by
      unfold rescanStep
      split <;> rename_i h
      · exact ⟨h.le, le_rfl⟩
      · exact ⟨le_rfl, not_lt.mp h⟩
    rcases ih (rescanStep acc e) with ⟨hr, hle⟩ | ⟨e₁, he₁, hr, hlt, hle⟩
    · by_cases h : acc.2 < e.2.layer
      · right
        have hacc : rescanStep acc e = (e.2.objKey, (e.2.layer : Int)) := by simp [rescanStep, h]
        refine ⟨e, List.mem_cons_self, hr.trans hacc, h, ?_⟩
        intro e' he'
        rcases List.mem_cons.mp he' with rfl | he'
        · exact le_rfl
        · simpa [hacc] using hle e' he'
      · left
        have hacc : rescanStep acc e = acc := by simp [rescanStep, h]
        refine ⟨hr.trans hacc, ?_⟩
        intro e' he'
        rcases List.mem_cons.mp he' with rfl | he'
        · exact not_lt.mp h
        · simpa [hacc] using hle e' he'
    · right
      refine ⟨e₁, List.mem_cons_of_mem e he₁, hr, lt_of_le_of_lt hup.1 hlt, ?_⟩
      intro e' he'
      rcases List.mem_cons.mp he' with rfl | he'
      · exact hup.2.trans hlt.le
      · exact hle e' he'

/-- The rescan finds the null key at `-1` in an empty map, and otherwise a node of highest
layer, whatever the iteration order. -/
lemma rescanEntryPoint_spec (m : NodeMap) (hkeys : ∀ k n, m.lookup k = some n → n.objKey = k) :
    (m.entries = [] → rescanEntryPoint m = (ObjKey.null, -1)) ∧
    (m.entries ≠ [] → ∃ n, m.lookup (rescanEntryPoint m).1 = some n ∧
      (n.layer : Int) = (rescanEntryPoint m).2 ∧
      ∀ k n', m.lookup k = some n' → (n'.layer : Int) ≤ (rescanEntryPoint m).2) := by
  refine ⟨fun h => by simp [rescanEntryPoint_eq, h], fun hne => ?_⟩
  rw [rescanEntryPoint_eq]
  rcases foldl_rescanStep m.entries (ObjKey.null, -1) with ⟨-, hle⟩ | ⟨e, he, hr, -, hle⟩
  · -- every layer is at least 0, so a nonempty map has an entry above `-1`
    obtain ⟨e, he⟩ := List.exists_mem_of_ne_nil _ hne
    have := hle e he
    omega
  · have hlookup : m.lookup e.1 = some e.2 := AList.mem_lookup_iff.mpr he
    have hkey : e.2.objKey = e.1 := hkeys e.1 e.2 hlookup
    refine ⟨e.2, ?_, by rw [hr], ?_⟩
    · rw [hr, hkey]
      exact hlookup
    · intro k n' hn'
      rw [hr]
      exact hle ⟨k, n'⟩ (AList.mem_lookup_iff.mp hn')

end Realm

namespace Realm

open NodeMap

variable {D : Type*} [LinearOrder D] (dist : Metrics D)

/-! ## The invariant along a run -/

/-- The invariant reads the node map only through its data. -/
lemma EntryPointInvariant.of_sameData {s s' : HNSWIndex} (hs : EntryPointInvariant s)
    (h : SameData s.vectors s'.vectors) (hep : s'.entryPoint = s.entryPoint)
    (hepl : s'.entryPointLayer = s.entryPointLayer) : EntryPointInvariant s' := by
  have hlayer : ∀ {n n' : Node}, n.data = n'.data → n.layer = n'.layer :=
    fun hd => congrArg (fun d => d.2.2) hd
  refine ⟨?_, ?_, ⟨?_, ?_, ?_⟩⟩
  · intro k n' hn'
    obtain ⟨n, hn, hd⟩ := h.lookup_eq_some hn'
    rw [← hs.keys k n hn]
    exact (congrArg Prod.fst hd).symm
  · exact fun k hk => hs.keys_set k ((h.mem_iff k).mpr hk)
  · rw [← h.entries_eq_nil_iff, hep, hepl]
    exact hs.consistent.empty_iff
  · intro hne
    obtain ⟨n, hn, hl⟩ := hs.consistent.entry (fun h' => hne (h.entries_eq_nil_iff.mp h'))
    obtain ⟨n', hn', hd⟩ := h.symm.lookup_eq_some hn
    exact ⟨n', hep ▸ hn', by rw [hepl, ← hl, hlayer hd]⟩
  · intro k n' hn'
    obtain ⟨n, hn, hd⟩ := h.lookup_eq_some hn'
    rw [hepl, ← hlayer hd]
    exact hs.consistent.layer_le k n hn

/-- Adding a fresh node, and making it the entry point when the index was empty or the node
is above the entry point, keeps the invariant. -/
lemma entryPointInvariant_insertNode {s : HNSWIndex} (hs : EntryPointInvariant s)
    {key : ObjKey} (hset : key.isSet) (hfresh : key ∉ s.vectors) (config : HNSWIndexConfig)
    (vector : List Binary64) (nodeLayer : Nat) :
    EntryPointInvariant
      (if s.vectors.entries = [] ∨ s.entryPointLayer < nodeLayer then
        { s with config := config, vectors := s.vectors.insert key (newNode key vector nodeLayer),
                 entryPoint := key, entryPointLayer := nodeLayer }
      else { s with config := config,
                    vectors := s.vectors.insert key (newNode key vector nodeLayer) }) := by
  have hne : (s.vectors.insert key (newNode key vector nodeLayer)).entries ≠ [] := by
    rw [Ne, entries_eq_nil_iff, not_forall]
    exact ⟨key, not_not.mpr ((AList.mem_insert _).mpr (Or.inl rfl))⟩
  have hkeys : ∀ k n, (s.vectors.insert key (newNode key vector nodeLayer)).lookup k = some n →
      n.objKey = k := by
    intro k n hn
    by_cases hk : k = key
    · subst hk
      simp only [AList.lookup_insert, Option.some.injEq] at hn
      rw [← hn]
      rfl
    · exact hs.keys k n (by rwa [AList.lookup_insert_ne hk] at hn)
  have hkeys_set : ∀ k ∈ s.vectors.insert key (newNode key vector nodeLayer), k.isSet := by
    intro k hk
    rcases (AList.mem_insert _).mp hk with rfl | hk
    · exact hset
    · exact hs.keys_set k hk
  -- the old nodes keep their layers, none of which is above the old entry point
  have hold : ∀ k n, k ≠ key →
      (s.vectors.insert key (newNode key vector nodeLayer)).lookup k = some n →
      (n.layer : Int) ≤ s.entryPointLayer := fun k n hk hn =>
    hs.consistent.layer_le k n (by rwa [AList.lookup_insert_ne hk] at hn)
  split
  · rename_i hcond
    refine ⟨hkeys, hkeys_set, ⟨?_, fun _ => ⟨_, AList.lookup_insert _, rfl⟩, ?_⟩⟩
    · simp only [hne, false_iff, not_and]
      intro hkey
      simp [hkey, ObjKey.null, ObjKey.isSet] at hset
    · intro k n hn
      by_cases hk : k = key
      · subst hk
        simp only [AList.lookup_insert, Option.some.injEq] at hn
        rw [← hn]
        exact le_rfl
      · have hle := hold k n hk hn
        rcases hcond with hempty | hlt
        · -- an empty index had no other node
          exact absurd (AList.lookup_isSome.mp (by rw [AList.lookup_insert_ne hk] at hn; simp [hn]))
            (entries_eq_nil_iff.mp hempty k)
        · dsimp only
          omega
  · rename_i hcond
    simp only [not_or, not_lt] at hcond
    obtain ⟨hsne, hle⟩ := hcond
    obtain ⟨n₀, hn₀, hl₀⟩ := hs.consistent.entry hsne
    have hep : s.entryPoint ≠ key := fun h => hfresh (h ▸ AList.lookup_isSome.mp (by simp [hn₀]))
    refine ⟨hkeys, hkeys_set, ⟨?_, fun _ => ⟨n₀, ?_, hl₀⟩, ?_⟩⟩
    · simp only [hne, false_iff]
      exact fun h => hsne (hs.consistent.empty_iff.mpr h)
    · rw [AList.lookup_insert_ne hep]
      exact hn₀
    · intro k n hn
      by_cases hk : k = key
      · subst hk
        simp only [AList.lookup_insert, Option.some.injEq] at hn
        rw [← hn]
        exact hle
      · exact hold k n hk hn

end Realm

namespace Realm

open NodeMap

variable {D : Type*} [LinearOrder D] (dist : Metrics D)

lemma entryPointInvariant_afterCall_insert {s : HNSWIndex} (hs : EntryPointInvariant s)
    {key : ObjKey} (hset : key.isSet) (hfresh : key ∉ s.vectors) (vector : List Binary64)
    (nodeLayer : Nat) : EntryPointInvariant (afterCall s (insert dist s key vector nodeLayer)) := by
  cases h : insert dist s key vector nodeLayer with
  | error e => exact hs
  | ok s' =>
    rcases insert_eq_ok dist h with ⟨-, rfl⟩ | ⟨-, config, -, s₂, hrew, rfl⟩
    · exact hs
    · -- the connection phase changes neighbour lists only, so the invariant of the state
      -- with the new node and the updated entry point carries over
      have ht := entryPointInvariant_insertNode hs hset hfresh config vector nodeLayer
      by_cases hcond : s.vectors.entries = [] ∨ s.entryPointLayer < nodeLayer
      · rw [if_pos hcond] at ht ⊢
        exact ht.of_sameData hrew.vectors rfl rfl
      · rw [if_neg hcond] at ht ⊢
        exact ht.of_sameData hrew.vectors hrew.entryPoint hrew.entryPointLayer

/-- Removing a node other than the entry point keeps the invariant. -/
lemma entryPointInvariant_erase_of_ne {s : HNSWIndex} (hs : EntryPointInvariant s) {key : ObjKey}
    (hkey : key ≠ s.entryPoint) : EntryPointInvariant { s with vectors := s.vectors.erase key } := by
  have hsub : ∀ k n, (s.vectors.erase key).lookup k = some n → s.vectors.lookup k = some n := by
    intro k n hn
    by_cases hk : k = key
    · subst hk
      simp at hn
    · rwa [AList.lookup_erase_ne hk] at hn
  refine ⟨fun k n hn => hs.keys k n (hsub k n hn),
    fun k hk => hs.keys_set k ((AList.mem_erase).mp hk).2, ⟨?_, ?_, ?_⟩⟩
  · by_cases hsne : s.vectors.entries = []
    · -- erasing from an empty map leaves it empty
      have hempty : (s.vectors.erase key).entries = [] := by
        rw [entries_eq_nil_iff] at hsne ⊢
        exact fun k hk => hsne k ((AList.mem_erase).mp hk).2
      simp only [hempty, true_iff]
      exact hs.consistent.empty_iff.mp hsne
    · -- the entry point survives, so the map stays nonempty
      obtain ⟨n₀, hn₀, -⟩ := hs.consistent.entry hsne
      have hmem : s.entryPoint ∈ s.vectors.erase key :=
        (AList.mem_erase).mpr ⟨hkey.symm, AList.lookup_isSome.mp (by simp [hn₀])⟩
      have hne : (s.vectors.erase key).entries ≠ [] := fun h => entries_eq_nil_iff.mp h _ hmem
      simp only [hne, false_iff]
      exact fun h => hsne (hs.consistent.empty_iff.mpr h)
  · intro hne
    have hsne : s.vectors.entries ≠ [] := by
      intro h
      apply hne
      rw [entries_eq_nil_iff] at h ⊢
      exact fun k hk => h k ((AList.mem_erase).mp hk).2
    obtain ⟨n₀, hn₀, hl₀⟩ := hs.consistent.entry hsne
    exact ⟨n₀, by rw [AList.lookup_erase_ne (Ne.symm hkey)]; exact hn₀, hl₀⟩
  · exact fun k n hn => hs.consistent.layer_le k n (hsub k n hn)

lemma entryPointInvariant_erase {s : HNSWIndex} (hs : EntryPointInvariant s) (key : ObjKey) :
    EntryPointInvariant (erase s key) := by
  obtain ⟨hconfig, hsame, hrescan, hkeep⟩ := erase_spec s key
  by_cases hcase : key ∈ s.vectors ∧ key = s.entryPoint
  · -- the entry point was removed: the rescan finds the new one
    have hkeys := keysConsistent_erase hs.keys key
    have hkeys_set : ∀ k ∈ (erase s key).vectors, k.isSet := fun k hk =>
      hs.keys_set k ((AList.mem_erase).mp ((hsame.mem_iff k).mpr hk)).2
    obtain ⟨hnil, hsome⟩ := rescanEntryPoint_spec (erase s key).vectors hkeys
    have hep := hrescan hcase
    refine ⟨hkeys, hkeys_set, ⟨?_, ?_, ?_⟩⟩
    · constructor
      · intro h
        rw [hnil h] at hep
        exact Prod.mk.inj hep
      · rintro ⟨hnull, -⟩ 
        by_contra hne
        obtain ⟨n, hn, -, -⟩ := hsome hne
        rw [← hep] at hn
        have hmem : (erase s key).entryPoint ∈ (erase s key).vectors :=
          AList.lookup_isSome.mp (by simp [hn])
        have := hkeys_set _ hmem
        simp [hnull, ObjKey.null, ObjKey.isSet] at this
    · intro hne
      obtain ⟨n, hn, hl, -⟩ := hsome hne
      rw [← hep] at hn hl
      exact ⟨n, hn, hl⟩
    · intro k n hn
      by_cases hne : (erase s key).vectors.entries = []
      · exact absurd (AList.lookup_isSome.mp (by simp [hn])) (entries_eq_nil_iff.mp hne k)
      · obtain ⟨-, -, -, hle⟩ := hsome hne
        rw [← hep] at hle
        exact hle k n hn
  · obtain ⟨hep, hepl⟩ := hkeep hcase
    by_cases hmem : key ∈ s.vectors
    · -- another node was removed
      have hne : key ≠ s.entryPoint := fun h => hcase ⟨hmem, h⟩
      exact (entryPointInvariant_erase_of_ne hs hne).of_sameData hsame hep hepl
    · -- nothing was removed
      have hsame' : SameData s.vectors (erase s key).vectors := by
        refine SameData.trans ?_ hsame
        intro k
        by_cases hk : k = key
        · subst hk
          rw [AList.lookup_erase, AList.lookup_eq_none.mpr hmem]
        · rw [AList.lookup_erase_ne hk]
      exact hs.of_sameData hsame' hep hepl

lemma entryPointInvariant_step {s : HNSWIndex} (hs : EntryPointInvariant s) (o : Op)
    (hadm : o.Admissible s) : EntryPointInvariant (step dist s o) := by
  cases o with
  | insert key vector layer =>
    exact entryPointInvariant_afterCall_insert dist hs hadm.1 hadm.2 vector layer
  | erase key => exact entryPointInvariant_erase hs key
  | set key vector layer =>
    -- after the erase the key is not indexed, as `insert` needs
    have hfresh : key ∉ (erase s key).vectors := by
      obtain ⟨-, hsame, -, -⟩ := erase_spec s key
      rw [← hsame.mem_iff]
      simp
    exact entryPointInvariant_afterCall_insert dist (entryPointInvariant_erase hs key) hadm
      hfresh vector layer
  | clear =>
    refine ⟨fun k n hn => by simp [step, clear] at hn, fun k hk => by simp [step, clear] at hk,
      ⟨by simp [step, clear], fun h => by simp [step, clear] at h, ?_⟩⟩
    intro k n hn
    simp [step, clear] at hn

/-- A statement about every stored node is one about every entry of the map. -/
lemma NodeMap.forall_lookup_iff {m : NodeMap} {Q : ObjKey → Node → Prop} :
    (∀ a n, m.lookup a = some n → Q a n) ↔ ∀ x ∈ m.entries, Q x.1 x.2 :=
  ⟨fun h x hx => h x.1 x.2 (AList.mem_lookup_iff.mpr hx),
    fun h a n hn => h ⟨a, n⟩ (AList.mem_lookup_iff.mp hn)⟩

namespace EntryPointInvariant

/-- `EntryPointInvariant` with its quantifiers bounded by the entries of the map. -/
abbrev Check (s : HNSWIndex) : Prop :=
  (∀ x ∈ s.vectors.entries,
    x.2.objKey = x.1 ∧ x.1.isSet = true ∧ (x.2.layer : Int) ≤ s.entryPointLayer) ∧
    (s.vectors.entries = [] ↔ s.entryPoint = ObjKey.null ∧ s.entryPointLayer = -1) ∧
    (s.vectors.entries ≠ [] →
      ∃ n ∈ s.vectors.lookup s.entryPoint, (n.layer : Int) = s.entryPointLayer)

lemma iff_check {s : HNSWIndex} : EntryPointInvariant s ↔ Check s := by
  constructor
  · intro h
    refine ⟨fun x hx => ?_, h.consistent.empty_iff, fun hne => ?_⟩
    · have hn : s.vectors.lookup x.1 = some x.2 := AList.mem_lookup_iff.mpr hx
      exact ⟨h.keys _ _ hn, h.keys_set _ (AList.lookup_isSome.mp (by rw [hn]; rfl)),
        h.consistent.layer_le _ _ hn⟩
    · obtain ⟨n, hn, hl⟩ := h.consistent.entry hne
      exact ⟨n, hn, hl⟩
  · rintro ⟨hentries, hempty, hentry⟩
    have hnodes := (NodeMap.forall_lookup_iff (Q := fun k n =>
      n.objKey = k ∧ k.isSet = true ∧ (n.layer : Int) ≤ s.entryPointLayer)).mpr hentries
    refine ⟨fun k n hn => (hnodes k n hn).1, fun k hk => ?_,
      ⟨hempty, fun hne => ?_, fun k n hn => (hnodes k n hn).2.2⟩⟩
    · obtain ⟨n, hn⟩ := Option.isSome_iff_exists.mp (AList.lookup_isSome.mpr hk)
      exact (hnodes k n hn).2.1
    · obtain ⟨n, hn, hl⟩ := hentry hne
      exact ⟨n, hn, hl⟩

end EntryPointInvariant

/-- Whether the entry point invariant holds can be decided. -/
instance (s : HNSWIndex) : Decidable (EntryPointInvariant s) :=
  decidable_of_iff' (EntryPointInvariant.Check s) EntryPointInvariant.iff_check

end Realm
