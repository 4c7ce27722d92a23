import Mathlib

/-!
# Components of a hypergraph, and partial labellings that name them

A list of edges `E`, each a list of vertices, links two vertices when a chain of edges joins
them: `Linked E` is the transitive closure of `Comention E`, "in one edge together".  It is an
equivalence on the vertices that some edge holds (`linked_self_iff`), and holds of no other.
Adding an edge `e` links `x` to `y` when they were linked, or when `x` reaches one vertex of `e`
and another vertex of `e` reaches `y` (`linked_append_iff`).

A partial labelling `f : α → Option ι` groups the vertices it labels by their label
(`SameLabel f`); it `Represents` the components of `E` when two vertices share a label exactly
when `E` links them.  An index that keeps a pointer from each vertex to its group is such a
labelling, and the three ways it treats a new edge keep this:

* an edge `[a]` of a vertex without a label: label it with an unused label
  (`represents_label_fresh`);
* an edge `[a]` of a labelled vertex: nothing (`represents_of_labelled`);
* an edge `[a, b]` of two labelled vertices: relabel the class of one with the label of the
  other (`represents_relabel`), in either direction (`sameLabel_relabel_comm`).
-/

namespace Components

variable {α ι : Type*}

/-! ### Linked vertices -/

/-- Two vertices lie in one edge of `E`. -/
def Comention (E : List (List α)) (x y : α) : Prop := ∃ e ∈ E, x ∈ e ∧ y ∈ e

/-- Two vertices are joined by a chain of edges of `E`. -/
def Linked (E : List (List α)) : α → α → Prop := Relation.TransGen (Comention E)

variable {E : List (List α)} {e : List α} {x y a b : α}

lemma comention_symm : Comention E x y → Comention E y x := by
  rintro ⟨e, he, hx, hy⟩
  exact ⟨e, he, hy, hx⟩

lemma linked_symm (h : Linked E x y) : Linked E y x :=
  Relation.TransGen.mono (fun _ _ => comention_symm) y x (Relation.TransGen.swap y x h)

lemma reflTransGen_comention_symm (h : Relation.ReflTransGen (Comention E) x y) :
    Relation.ReflTransGen (Comention E) y x :=
  Relation.ReflTransGen.mono (fun _ _ => comention_symm) y x (Relation.ReflTransGen.swap y x h)

lemma mem_of_linked : Linked E x y → ∃ e ∈ E, x ∈ e := by
  intro h
  obtain ⟨c, hxc, -⟩ := Relation.TransGen.head'_iff.mp h
  obtain ⟨e, he, hx, -⟩ := hxc
  exact ⟨e, he, hx⟩

/-- A vertex is linked to itself exactly when an edge holds it. -/
lemma linked_self_iff : Linked E x x ↔ ∃ e ∈ E, x ∈ e := by
  refine ⟨mem_of_linked, ?_⟩
  rintro ⟨e, he, hx⟩
  exact Relation.TransGen.single ⟨e, he, hx, hx⟩

lemma comention_append_iff : Comention (E ++ [e]) x y ↔ Comention E x y ∨ (x ∈ e ∧ y ∈ e) := by
  simp only [Comention, List.mem_append, List.mem_singleton]
  constructor
  · rintro ⟨e', he' | rfl, hx, hy⟩
    · exact Or.inl ⟨e', he', hx, hy⟩
    · exact Or.inr ⟨hx, hy⟩
  · rintro (⟨e', he', hx, hy⟩ | ⟨hx, hy⟩)
    · exact ⟨e', Or.inl he', hx, hy⟩
    · exact ⟨e, Or.inr rfl, hx, hy⟩

lemma reflTransGen_append {x y : α} (h : Relation.ReflTransGen (Comention E) x y) :
    Relation.ReflTransGen (Comention (E ++ [e])) x y :=
  Relation.ReflTransGen.mono (fun _ _ hc => comention_append_iff.2 (Or.inl hc)) x y h

/-- A path over `E ++ [e]` either stays in `E`, or enters `e` at some `a` and leaves it at some
`b`: the edge `e` joins every two of its vertices, so one visit suffices. -/
theorem linked_append_iff :
    Linked (E ++ [e]) x y ↔ Linked E x y ∨ ∃ a ∈ e, ∃ b ∈ e,
      Relation.ReflTransGen (Comention E) x a ∧ Relation.ReflTransGen (Comention E) b y := by
  constructor
  · intro h
    induction h with
    | single hxy =>
      rcases comention_append_iff.1 hxy with hxy | ⟨hx, hy⟩
      · exact Or.inl (Relation.TransGen.single hxy)
      · exact Or.inr ⟨x, hx, _, hy, Relation.ReflTransGen.refl, Relation.ReflTransGen.refl⟩
    | tail _ hzy ih =>
      rcases comention_append_iff.1 hzy with hzy | ⟨hz, hy⟩
      · -- an old edge extends both kinds of path
        rcases ih with ih | ⟨a, ha, b, hb, hxa, hbz⟩
        · exact Or.inl (ih.tail hzy)
        · exact Or.inr ⟨a, ha, b, hb, hxa, hbz.tail hzy⟩
      · -- the new edge: leave it at `y` itself
        rcases ih with ih | ⟨a, ha, -, -, hxa, -⟩
        · exact Or.inr ⟨_, hz, _, hy, ih.to_reflTransGen, Relation.ReflTransGen.refl⟩
        · exact Or.inr ⟨a, ha, _, hy, hxa, Relation.ReflTransGen.refl⟩
  · rintro (h | ⟨a, ha, b, hb, hxa, hby⟩)
    · exact Relation.TransGen.mono (fun _ _ hc => comention_append_iff.2 (Or.inl hc)) x y h
    · have hab : Comention (E ++ [e]) a b := comention_append_iff.2 (Or.inr ⟨ha, hb⟩)
      exact Relation.TransGen.trans_left (Relation.TransGen.tail' (reflTransGen_append hxa) hab)
        (reflTransGen_append hby)

/-- Lists of edges that put the same pairs together link alike. -/
lemma linked_congr {E' : List (List α)} (hE : ∀ x y, Comention E x y ↔ Comention E' x y) :
    Linked E x y ↔ Linked E' x y :=
  ⟨Relation.TransGen.mono (fun x y => (hE x y).mp) x y,
    Relation.TransGen.mono (fun x y => (hE x y).mpr) x y⟩

/-! ### Labellings -/

/-- Two vertices carry one label. -/
def SameLabel (f : α → Option ι) (x y : α) : Prop := ∃ i, f x = some i ∧ f y = some i

/-- The labelling groups the vertices as `E` links them. -/
def Represents (f : α → Option ι) (E : List (List α)) : Prop :=
  ∀ x y, SameLabel f x y ↔ Linked E x y

/-- Every vertex labelled `j` relabelled `i`. -/
def relabel [DecidableEq ι] (f : α → Option ι) (j i : ι) (x : α) : Option ι :=
  if f x = some j then some i else f x

variable {f g : α → Option ι} {i j k : ι}

lemma sameLabel_self_iff : SameLabel f x x ↔ f x ≠ none := by
  simp [SameLabel, Option.ne_none_iff_exists']

lemma Represents.congr (h : Represents f E) (hfg : ∀ x y, SameLabel g x y ↔ SameLabel f x y) :
    Represents g E :=
  fun x y => (hfg x y).trans (h x y)

lemma Represents.of_comention_iff {E' : List (List α)} (h : Represents f E)
    (hE : ∀ x y, Comention E x y ↔ Comention E' x y) : Represents f E' :=
  fun x y => (h x y).trans (linked_congr hE)

/-- Under a representing labelling, the labelled vertices are those that an edge holds. -/
lemma Represents.ne_none_iff (h : Represents f E) : f x ≠ none ↔ ∃ e ∈ E, x ∈ e := by
  rw [← sameLabel_self_iff, h, linked_self_iff]

/-- Under a representing labelling, the vertices that reach `a` are those of its label. -/
lemma Represents.reflTransGen_iff (h : Represents f E) (ha : f a = some i) :
    Relation.ReflTransGen (Comention E) x a ↔ f x = some i := by
  rw [Relation.reflTransGen_iff_eq_or_transGen]
  constructor
  · rintro (rfl | hxa)
    · exact ha
    · obtain ⟨k, hx, hk⟩ := (h x a).mpr hxa
      rw [ha] at hk
      cases hk
      exact hx
  · intro hx
    exact Or.inr ((h x a).mp ⟨i, hx, ha⟩)

/-- Writing `v` at each vertex of a list, in turn. -/
lemma foldl_update_apply [DecidableEq α] (l : List α) (v : Option ι) (f : α → Option ι) (y : α) :
    l.foldl (fun g x => Function.update g x v) f y = if y ∈ l then v else f y := by
  induction l generalizing f with
  | nil => simp
  | cons a l ih =>
    rw [List.foldl_cons, ih, Function.update_apply]
    by_cases hy : y ∈ l <;> by_cases ha : y = a <;> simp [hy, ha]

/-- Writing `i` at each vertex of the class `j`, listed, relabels that class. -/
lemma foldl_update_eq_relabel [DecidableEq α] [DecidableEq ι] {l : List α}
    (hl : ∀ x, x ∈ l ↔ f x = some j) :
    l.foldl (fun g x => Function.update g x (some i)) f = relabel f j i := by
  funext y
  rw [foldl_update_apply, relabel, if_congr (hl y) rfl rfl]

lemma relabel_eq_some_iff [DecidableEq ι] :
    relabel f j i x = some k ↔ (f x = some j ∧ k = i) ∨ (f x = some k ∧ k ≠ j) := by
  unfold relabel
  by_cases hx : f x = some j
  · simp only [hx, if_true, Option.some.injEq, true_and, eq_comm (a := i)]
    grind
  · simp only [hx, if_false, false_and, false_or]
    grind

@[simp] lemma relabel_self [DecidableEq ι] : relabel f i i = f := by
  funext x
  unfold relabel
  by_cases hx : f x = some i <;> simp [hx]

/-- Labelling a new vertex with an unused label adds the pair of it with itself. -/
lemma sameLabel_update_fresh [DecidableEq α] (ha : f a = none) (hk : ∀ x, f x ≠ some k) :
    SameLabel (Function.update f a (some k)) x y ↔ SameLabel f x y ∨ (x = a ∧ y = a) := by
  by_cases hxa : x = a <;> by_cases hya : y = a
  · simp [SameLabel, hxa, hya]
  · subst hxa
    simp [SameLabel, hya, ha, hk y]
  · subst hya
    simp [SameLabel, hxa, ha, hk x]
  · simp [SameLabel, hxa, hya]

/-- Relabelling the class `j` with `i` joins the classes `i` and `j` and keeps the others. -/
lemma sameLabel_relabel [DecidableEq ι] : SameLabel (relabel f j i) x y ↔
    SameLabel f x y ∨ ((f x = some i ∨ f x = some j) ∧ (f y = some i ∨ f y = some j)) := by
  unfold SameLabel relabel
  by_cases hx : f x = some j <;> by_cases hy : f y = some j <;> simp only [hx, hy, if_true, if_false]
  all_goals grind

/-- The two directions of a relabelling group the vertices alike. -/
lemma sameLabel_relabel_comm [DecidableEq ι] :
    SameLabel (relabel f i j) x y ↔ SameLabel (relabel f j i) x y := by
  rw [sameLabel_relabel, sameLabel_relabel]
  grind

/-- A new vertex with an unused label is a component of its own. -/
theorem represents_label_fresh [DecidableEq α] (h : Represents f E) (ha : f a = none)
    (hk : ∀ x, f x ≠ some k) : Represents (Function.update f a (some k)) (E ++ [[a]]) := by
  -- nothing reaches `a` in `E`, which holds it in no edge
  have hfresh : ∀ x, Relation.ReflTransGen (Comention E) x a ↔ x = a := by
    intro x
    rw [Relation.reflTransGen_iff_eq_or_transGen]
    refine ⟨fun hx => hx.elim Eq.symm fun hxa => ?_, fun hx => Or.inl hx.symm⟩
    exact absurd (h.ne_none_iff.mpr (mem_of_linked (linked_symm hxa))) (by simp [ha])
  intro x y
  rw [sameLabel_update_fresh ha hk, linked_append_iff, h x y]
  simp only [List.mem_singleton, exists_eq_left, hfresh]
  constructor
  · rintro (hl | ⟨rfl, rfl⟩)
    · exact Or.inl hl
    · exact Or.inr ⟨rfl, Relation.ReflTransGen.refl⟩
  · rintro (hl | ⟨rfl, hay⟩)
    · exact Or.inl hl
    · exact Or.inr ⟨rfl, ((hfresh y).mp (reflTransGen_comention_symm hay))⟩

/-- An edge of one labelled vertex links nothing new. -/
theorem represents_of_labelled (h : Represents f E) (ha : f a = some i) :
    Represents f (E ++ [[a]]) := by
  intro x y
  rw [linked_append_iff, ← h x y]
  simp only [List.mem_singleton, exists_eq_left]
  constructor
  · exact Or.inl
  · rintro (hl | ⟨hxa, hay⟩)
    · exact hl
    · exact ⟨i, (h.reflTransGen_iff ha).mp hxa,
        (h.reflTransGen_iff ha).mp (reflTransGen_comention_symm hay)⟩

/-- An edge of two labelled vertices joins their classes, which relabelling one class with the
other's label does. -/
theorem represents_relabel [DecidableEq ι] (h : Represents f E) (ha : f a = some i)
    (hb : f b = some j) : Represents (relabel f j i) (E ++ [[a, b]]) := by
  -- a vertex reaches `a` or `b` exactly when it carries the label `i` or `j`
  have hreach : ∀ x, Relation.ReflTransGen (Comention E) x a ↔ f x = some i :=
    fun _ => h.reflTransGen_iff ha
  have hreach' : ∀ x, Relation.ReflTransGen (Comention E) x b ↔ f x = some j :=
    fun _ => h.reflTransGen_iff hb
  intro x y
  rw [sameLabel_relabel, linked_append_iff, h x y]
  simp only [List.mem_cons, List.not_mem_nil, or_false, exists_eq_or_imp, exists_eq_left]
  have hya : Relation.ReflTransGen (Comention E) a y ↔ f y = some i :=
    ⟨fun hy => (hreach y).mp (reflTransGen_comention_symm hy),
      fun hy => reflTransGen_comention_symm ((hreach y).mpr hy)⟩
  have hyb : Relation.ReflTransGen (Comention E) b y ↔ f y = some j :=
    ⟨fun hy => (hreach' y).mp (reflTransGen_comention_symm hy),
      fun hy => reflTransGen_comention_symm ((hreach' y).mpr hy)⟩
  rw [hreach, hreach', hya, hyb]
  simp only [or_and_right, and_or_left, or_assoc]
  exact or_congr_right (or_congr_right or_left_comm)

end Components
