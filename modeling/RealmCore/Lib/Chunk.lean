import Mathlib

/-!
# Chunks of an address space

A chunk is the half-open range `[ref, ref + size)` of addresses.  An allocator that keeps its
free space as lists of chunks and hands chunks out is safe when the chunks it keeps and those
it has handed out never share an address: the list of all of them is `Separate`.

Every operation of such an allocator does one of three things to its chunks: it replaces some
of them by pieces of them (cutting a chunk in two, carving a piece off its front, merging
neighbours into one), it moves chunks from one list to another, or it adds a chunk past the end
of all the others.  `Separate.replace`, `separate_perm` and `Separate.cons_of_le` are the rules
for these three, and `cover`, the set of addresses a list of chunks holds, is what they compare.
-/

/-- The half-open range `[ref, ref + size)`. -/
structure Chunk where
  ref : Nat
  size : Nat
deriving DecidableEq, Repr

namespace Chunk

/-- The addresses of a chunk. -/
def toSet (c : Chunk) : Set Nat := Set.Ico c.ref (c.ref + c.size)

/-- The addresses of the chunks of a list. -/
def cover (l : List Chunk) : Set Nat := {x | ∃ c ∈ l, x ∈ c.toSet}

/-- Chunks that pairwise share no address. -/
def Separate (l : List Chunk) : Prop := l.Pairwise fun c d => Disjoint c.toSet d.toSet

variable {c d : Chunk} {l l₁ l₂ l₁' : List Chunk} {s : Set Nat}

@[simp] lemma mem_toSet {x : Nat} : x ∈ c.toSet ↔ c.ref ≤ x ∧ x < c.ref + c.size := Iff.rfl

lemma disjoint_toSet_iff :
    Disjoint c.toSet d.toSet ↔ min (c.ref + c.size) (d.ref + d.size) ≤ max c.ref d.ref :=
  Set.Ico_disjoint_Ico

/-! ### Cover -/

lemma mem_cover {x : Nat} : x ∈ cover l ↔ ∃ c ∈ l, x ∈ c.toSet := Iff.rfl

@[simp] lemma cover_nil : cover [] = ∅ := by
  ext x
  simp [mem_cover]

@[simp] lemma cover_cons : cover (c :: l) = c.toSet ∪ cover l := by
  ext x
  simp [mem_cover]

@[simp] lemma cover_append : cover (l₁ ++ l₂) = cover l₁ ∪ cover l₂ := by
  ext x
  show (∃ c ∈ l₁ ++ l₂, x ∈ c.toSet) ↔ (∃ c ∈ l₁, x ∈ c.toSet) ∨ (∃ c ∈ l₂, x ∈ c.toSet)
  simp only [List.mem_append]
  constructor
  · rintro ⟨c, hc | hc, hx⟩
    · exact .inl ⟨c, hc, hx⟩
    · exact .inr ⟨c, hc, hx⟩
  · rintro (⟨c, hc, hx⟩ | ⟨c, hc, hx⟩)
    · exact ⟨c, .inl hc, hx⟩
    · exact ⟨c, .inr hc, hx⟩

lemma cover_perm (h : l₁.Perm l₂) : cover l₁ = cover l₂ := by
  ext x
  show (∃ c ∈ l₁, x ∈ c.toSet) ↔ (∃ c ∈ l₂, x ∈ c.toSet)
  simp only [h.mem_iff]

lemma cover_subset_iff : cover l ⊆ s ↔ ∀ c ∈ l, c.toSet ⊆ s := by
  constructor
  · exact fun h c hc x hx => h ⟨c, hc, hx⟩
  · rintro h x ⟨c, hc, hx⟩
    exact h c hc hx

lemma toSet_subset_cover (hc : c ∈ l) : c.toSet ⊆ cover l :=
  fun _ hx => ⟨c, hc, hx⟩

lemma cover_mono (h : l₁ ⊆ l₂) : cover l₁ ⊆ cover l₂ :=
  fun _ ⟨c, hc, hx⟩ => ⟨c, h hc, hx⟩

/-- Replacing the front of a list by chunks within it covers no more. -/
lemma cover_append_mono (l₂ : List Chunk) (h : cover l₁' ⊆ cover l₁) :
    cover (l₁' ++ l₂) ⊆ cover (l₁ ++ l₂) := by
  rw [cover_append, cover_append]
  exact Set.union_subset_union_left _ h

lemma disjoint_cover_iff : Disjoint (cover l₁) (cover l₂) ↔
    ∀ c ∈ l₁, ∀ d ∈ l₂, Disjoint c.toSet d.toSet := by
  constructor
  · exact fun h c hc d hd => h.mono (toSet_subset_cover hc) (toSet_subset_cover hd)
  · intro h
    rw [Set.disjoint_left]
    rintro x ⟨c, hc, hxc⟩ ⟨d, hd, hxd⟩
    exact Set.disjoint_left.mp (h c hc d hd) hxc hxd

/-! ### Separate lists -/

lemma separate_iff_pairwise : Separate l ↔ l.Pairwise fun c d => Disjoint c.toSet d.toSet :=
  Iff.rfl

lemma separate_perm (h : l₁.Perm l₂) : Separate l₁ ↔ Separate l₂ :=
  h.pairwise_iff fun hd => hd.symm

lemma separate_append :
    Separate (l₁ ++ l₂) ↔ Separate l₁ ∧ Separate l₂ ∧ Disjoint (cover l₁) (cover l₂) := by
  simp only [separate_iff_pairwise, List.pairwise_append, disjoint_cover_iff]

lemma separate_cons : Separate (c :: l) ↔ Disjoint c.toSet (cover l) ∧ Separate l := by
  rw [← List.singleton_append, separate_append]
  simp only [separate_iff_pairwise, List.pairwise_singleton, cover_cons, cover_nil, Set.union_empty,
    true_and]
  exact and_comm

lemma Separate.sublist (h : Separate l₁) (hsub : l₂.Sublist l₁) : Separate l₂ :=
  List.Pairwise.sublist hsub h

/-- Replacing some chunks by separate pieces of them keeps a list separate. -/
lemma Separate.replace (h : Separate (l₁ ++ l₂)) (h' : Separate l₁')
    (hsub : cover l₁' ⊆ cover l₁) : Separate (l₁' ++ l₂) := by
  obtain ⟨-, h₂, hdisj⟩ := separate_append.1 h
  exact separate_append.2 ⟨h', h₂, hdisj.mono_left hsub⟩

/-- A chunk that starts past every address of a separate list can join it. -/
lemma Separate.cons_of_le (h : Separate l) (hl : cover l ⊆ Set.Iio c.ref) : Separate (c :: l) :=
  separate_cons.2 ⟨Set.disjoint_left.mpr fun x hx hxl => by
    have := hl hxl
    simp only [mem_toSet, Set.mem_Iio] at hx this
    omega, h⟩

/-- A chunk of no size shares no address. -/
lemma toSet_of_size_eq_zero (hc : c.size = 0) : c.toSet = ∅ := by
  ext x
  simp only [mem_toSet, hc, Set.mem_empty_iff_false, iff_false, not_and]
  omega

/-! ### Pieces of a chunk -/

/-- Two adjacent chunks share no address. -/
lemma separate_pair_of_adjacent (h : c.ref + c.size = d.ref) : Separate [c, d] := by
  simp only [separate_iff_pairwise, List.pairwise_cons, List.mem_singleton, forall_eq, List.not_mem_nil,
    IsEmpty.forall_iff, implies_true, List.Pairwise.nil, and_true, disjoint_toSet_iff]
  omega

/-- Two adjacent chunks hold the addresses of the chunk they make up together. -/
lemma cover_pair_of_adjacent (h : c.ref + c.size = d.ref) :
    cover [c, d] = (⟨c.ref, c.size + d.size⟩ : Chunk).toSet := by
  ext x
  simp only [cover_cons, cover_nil, Set.union_empty, Set.mem_union, mem_toSet]
  omega

end Chunk
