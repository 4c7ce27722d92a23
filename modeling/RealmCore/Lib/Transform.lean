import Mathlib

/-!
# Transforming two sequences of operations against each other

Two parties apply sequences of operations to one state; each must then apply the other's
operations to its own result.  Operational transformation rewrites the operations of each
sequence past those of the other with a merge of two operations, which may discard either of
them and may fail.  Each operation carries a tag, the party or batch it comes from, which the
merge reads (to order two operations that conflict) and which the transformation keeps.

`transform` is the nested loop: each operation of the first (major) sequence in turn is
merged with each remaining operation of the second (minor) sequence in order
(`transformMajor`); the minor sequence keeps what the merges leave of it, and a major
operation that a merge discards meets no further minor ones.

`transform_converges` is the grid argument.  If every merge of two operations that apply to
one state, with tags the merge is used on, succeeds and brings the two results to a common
state (`Converges`), then the transformation of two sequences that apply to one state
succeeds, and applying the transformed minor sequence after the major one, or the transformed
major sequence after the minor one, ends in the same state.

`toOption_transform_swap` is the symmetry of the loop: if the merge the other party uses is this
merge with the sides exchanged (`SwapsWith`), then transforming the minor sequence through the
major one gives, up to the error reported, the two results of the transformation here exchanged.
-/

namespace Transform

variable {τ ι σ ε : Type*}

/-- Application of a sequence of operations, failing at the first one that does not apply. -/
def applyAll (apply : σ → ι → Option σ) : σ → List ι → Option σ
  | s, [] => some s
  | s, i :: is => (apply s i).bind fun s' => applyAll apply s' is

/-- The inner loop: the major operation merged with each operation of `minors` in turn, until
a merge discards it. -/
def transformMajor (merge : τ × ι → τ × ι → Except ε (Option ι × Option ι)) (major : τ × ι) :
    List (τ × ι) → Except ε (Option ι × List (τ × ι))
  | [] => .ok (some major.2, [])
  | minor :: minors =>
    match merge major minor with
    | .error e => .error e
    | .ok (none, minor') => .ok (none, (minor'.map (minor.1, ·)).toList ++ minors)
    | .ok (some major', minor') =>
      match transformMajor merge (major.1, major') minors with
      | .error e => .error e
      | .ok (major'', minors') => .ok (major'', (minor'.map (minor.1, ·)).toList ++ minors')

/-- The outer loop: each major operation in turn is transformed through what is left of the
minor sequence. -/
def transform (merge : τ × ι → τ × ι → Except ε (Option ι × Option ι)) :
    List (τ × ι) → List (τ × ι) → Except ε (List (τ × ι) × List (τ × ι))
  | [], minors => .ok ([], minors)
  | major :: majors, minors =>
    match transformMajor merge major minors with
    | .error e => .error e
    | .ok (major', minors') =>
      match transform merge majors minors' with
      | .error e => .error e
      | .ok (majors', minors'') => .ok ((major'.map (major.1, ·)).toList ++ majors', minors'')

/-! The two loops one step at a time; the proofs below rewrite with these rather than unfold the
definitions again. -/

section Steps

variable (merge : τ × ι → τ × ι → Except ε (Option ι × Option ι))

lemma transformMajor_nil (major : τ × ι) : transformMajor merge major [] = .ok (some major.2, []) :=
  rfl

lemma transformMajor_cons (major minor : τ × ι) (minors : List (τ × ι)) :
    transformMajor merge major (minor :: minors) =
      match merge major minor with
      | .error e => .error e
      | .ok (none, minor') => .ok (none, (minor'.map (minor.1, ·)).toList ++ minors)
      | .ok (some major', minor') =>
        match transformMajor merge (major.1, major') minors with
        | .error e => .error e
        | .ok (major'', minors') => .ok (major'', (minor'.map (minor.1, ·)).toList ++ minors') :=
  rfl

lemma transform_nil (minors : List (τ × ι)) : transform merge [] minors = .ok ([], minors) := rfl

lemma transform_cons (major : τ × ι) (majors minors : List (τ × ι)) :
    transform merge (major :: majors) minors =
      match transformMajor merge major minors with
      | .error e => .error e
      | .ok (major', minors') =>
        match transform merge majors minors' with
        | .error e => .error e
        | .ok (majors', minors'') => .ok ((major'.map (major.1, ·)).toList ++ majors', minors'') :=
  rfl

end Steps

/-- A merge of two operations that apply to one state, with tags related by `R`, succeeds and
brings the two results to a common state: applying what is left of the minor operation after
the major one, or what is left of the major one after the minor one. -/
def Converges (apply : σ → ι → Option σ) (merge : τ × ι → τ × ι → Except ε (Option ι × Option ι))
    (R : τ → τ → Prop) : Prop :=
  ∀ s s₁ s₂ (major minor : τ × ι), R major.1 minor.1 → apply s major.2 = some s₁ →
    apply s minor.2 = some s₂ →
    ∃ major' minor', merge major minor = .ok (major', minor') ∧
      ∃ t, applyAll apply s₁ minor'.toList = some t ∧ applyAll apply s₂ major'.toList = some t

section ApplyAll

variable {apply : σ → ι → Option σ}

@[simp] lemma applyAll_nil (s : σ) : applyAll apply s [] = some s := rfl

@[simp] lemma applyAll_cons (s : σ) (i : ι) (is : List ι) :
    applyAll apply s (i :: is) = (apply s i).bind fun s' => applyAll apply s' is := rfl

lemma applyAll_singleton (s : σ) (i : ι) : applyAll apply s [i] = apply s i := by
  rw [applyAll_cons]
  cases apply s i <;> rfl

lemma applyAll_append (s : σ) (is js : List ι) :
    applyAll apply s (is ++ js) = (applyAll apply s is).bind fun s' => applyAll apply s' js := by
  induction is generalizing s with
  | nil => rfl
  | cons i is ih =>
    simp only [List.cons_append, applyAll_cons, ih]
    cases apply s i <;> rfl

/-- A sequence that applies, followed by one that applies to its result. -/
lemma applyAll_append_of_eq {s t u : σ} {is js : List ι} (h₁ : applyAll apply s is = some t)
    (h₂ : applyAll apply t js = some u) : applyAll apply s (is ++ js) = some u := by
  rw [applyAll_append, h₁, Option.bind_some, h₂]

lemma applyAll_cons_eq_some {s u : σ} {i : ι} {is : List ι}
    (h : applyAll apply s (i :: is) = some u) :
    ∃ t, apply s i = some t ∧ applyAll apply t is = some u := by
  simp only [applyAll_cons, Option.bind_eq_some_iff] at h
  exact h

end ApplyAll

/-! ## The tags of the transformed sequences -/

section Tags

variable {merge : τ × ι → τ × ι → Except ε (Option ι × Option ι)}

/-- What a merge leaves of a tagged operation, with its tag. -/
lemma map_fst_tagged (t : τ) (o : Option ι) :
    List.Sublist (((o.map (t, ·)).toList).map Prod.fst) [t] := by
  cases o <;> simp

/-- The minor operations that leave a row keep their tags, in order. -/
lemma transformMajor_tags {major : τ × ι} {minors minors' : List (τ × ι)} {major' : Option ι}
    (h : transformMajor merge major minors = .ok (major', minors')) :
    List.Sublist (minors'.map Prod.fst) (minors.map Prod.fst) := by
  induction minors generalizing major major' minors' with
  | nil =>
    cases h
    exact List.Sublist.slnil
  | cons minor minors ih =>
    rw [transformMajor_cons] at h
    rcases hm : merge major minor with e | ⟨_ | major₁, minor'⟩ <;> rw [hm] at h <;> dsimp only at h
    · cases h
    · cases h
      rw [List.map_append, List.map_cons]
      exact (map_fst_tagged minor.1 _).append (List.Sublist.refl _)
    · rcases hrow : transformMajor merge (major.1, major₁) minors with e | ⟨major₂, minors₁⟩ <;>
        rw [hrow] at h
      · cases h
      · cases h
        rw [List.map_append, List.map_cons]
        exact (map_fst_tagged minor.1 _).append (ih hrow)

end Tags

/-! ## The grid -/

section Grid

variable {apply : σ → ι → Option σ} {merge : τ × ι → τ × ι → Except ε (Option ι × Option ι)}
  {R : τ → τ → Prop}

/-- One major operation through a minor sequence: a row of the grid, by induction on the minor
sequence with one merge per step. -/
lemma transformMajor_converges (hconv : Converges apply merge R) :
    ∀ (minors : List (τ × ι)) (s s₁ s₂ : σ) (major : τ × ι), (∀ m ∈ minors, R major.1 m.1) →
      apply s major.2 = some s₁ → applyAll apply s (minors.map Prod.snd) = some s₂ →
      ∃ major' minors', transformMajor merge major minors = .ok (major', minors') ∧
        ∃ t, applyAll apply s₁ (minors'.map Prod.snd) = some t ∧
          applyAll apply s₂ major'.toList = some t := by
  intro minors
  induction minors with
  | nil =>
    intro s s₁ s₂ major _ h₁ h₂
    cases h₂
    exact ⟨some major.2, [], rfl, s₁, rfl, by rw [Option.toList_some, applyAll_singleton, h₁]⟩
  | cons minor minors ih =>
    intro s s₁ s₂ major hR h₁ h₂
    obtain ⟨s₃, hminor, hminors⟩ := applyAll_cons_eq_some h₂
    obtain ⟨major', minor', hmerge, t, ht₁, ht₂⟩ :=
      hconv s s₁ s₃ major minor (hR minor List.mem_cons_self) h₁ hminor
    have hsnd : ((minor'.map (minor.1, ·)).toList).map Prod.snd = minor'.toList := by
      cases minor' <;> rfl
    cases major' with
    | none =>
      -- the major operation is discarded: the rest of the minor sequence is left as it is
      cases ht₂
      refine ⟨none, (minor'.map (minor.1, ·)).toList ++ minors,
        by rw [transformMajor_cons, hmerge], s₂, ?_, rfl⟩
      rw [List.map_append, hsnd]
      exact applyAll_append_of_eq ht₁ hminors
    | some major' =>
      rw [Option.toList_some, applyAll_singleton] at ht₂
      obtain ⟨major'', minors', hrow, u, hu₁, hu₂⟩ :=
        ih s₃ t s₂ (major.1, major') (fun m hm => hR m (List.mem_cons_of_mem _ hm)) ht₂ hminors
      refine ⟨major'', (minor'.map (minor.1, ·)).toList ++ minors',
        by simp only [transformMajor_cons, hmerge, hrow], u, ?_, hu₂⟩
      rw [List.map_append, hsnd]
      exact applyAll_append_of_eq ht₁ hu₁

/-- The grid argument: two sequences that apply to one state, with the tags of every pair
related, are transformed without failure, and each transformed sequence brings the other's
result to a common state. -/
theorem transform_converges (hconv : Converges apply merge R) :
    ∀ (majors minors : List (τ × ι)) (s s₁ s₂ : σ),
      (∀ M ∈ majors, ∀ m ∈ minors, R M.1 m.1) →
      applyAll apply s (majors.map Prod.snd) = some s₁ →
      applyAll apply s (minors.map Prod.snd) = some s₂ →
      ∃ majors' minors', transform merge majors minors = .ok (majors', minors') ∧
        ∃ t, applyAll apply s₁ (minors'.map Prod.snd) = some t ∧
          applyAll apply s₂ (majors'.map Prod.snd) = some t := by
  intro majors
  induction majors with
  | nil =>
    intro minors s s₁ s₂ _ h₁ h₂
    cases h₁
    exact ⟨[], minors, rfl, s₂, h₂, rfl⟩
  | cons major majors ih =>
    intro minors s s₁ s₂ hR h₁ h₂
    obtain ⟨s₃, hmajor, hmajors⟩ := applyAll_cons_eq_some h₁
    -- the first row of the grid, then the rest of the major sequence from its end state
    obtain ⟨major', minors', hrow, t, ht₁, ht₂⟩ :=
      transformMajor_converges hconv minors s s₃ s₂ major (hR major List.mem_cons_self) hmajor h₂
    -- the minor operations that leave the row keep their tags
    have hR' : ∀ M ∈ majors, ∀ m ∈ minors', R M.1 m.1 := by
      intro M hM m hm
      obtain ⟨m₀, hm₀, hfst⟩ := List.mem_map.mp
        ((transformMajor_tags hrow).subset (List.mem_map_of_mem hm))
      have hM₀ := hR M (List.mem_cons_of_mem _ hM) m₀ hm₀
      rwa [hfst] at hM₀
    obtain ⟨majors', minors'', hrest, u, hu₁, hu₂⟩ := ih minors' s₃ s₁ t hR' hmajors ht₁
    refine ⟨(major'.map (major.1, ·)).toList ++ majors', minors'',
      by simp only [transform_cons, hrow, hrest], u, hu₁, ?_⟩
    have hsnd : ((major'.map (major.1, ·)).toList).map Prod.snd = major'.toList := by
      cases major' <;> rfl
    rw [List.map_append, hsnd]
    exact applyAll_append_of_eq ht₂ hu₂

end Grid

/-! ## Exchanging the roles

The peer at the other end transforms the two sequences with the roles exchanged: its major
sequence is the minor one here.  Each cell of the grid depends only on the cells before it in its
row and its column, so when the merge of the other peer is this merge with the sides exchanged
(`SwapsWith`), both peers compute the same grid: a row here is a column there
(`toOption_transformMajor_swap`), and the whole transformation there is the one here with the
two results exchanged (`toOption_transform_swap`).  A merge with the sides exchanged may report
another error than the merge itself, so the comparison is made up to the error reported. -/

section Swap

variable {merge merge' : τ × ι → τ × ι → Except ε (Option ι × Option ι)} {R : τ → τ → Prop}

/-- `merge'` is `merge` with the two sides exchanged, on operations whose tags are related by
`R`, up to the error either reports. -/
def SwapsWith (merge merge' : τ × ι → τ × ι → Except ε (Option ι × Option ι))
    (R : τ → τ → Prop) : Prop :=
  ∀ x y : τ × ι, R x.1 y.1 → (merge' y x).toOption = (merge x y).toOption.map Prod.swap

/-- Operations transformed through no operation are left as they are. -/
lemma transform_nil_right (majors : List (τ × ι)) : transform merge majors [] = .ok (majors, []) := by
  induction majors with
  | nil => rfl
  | cons x xs ih => simp [transform_cons, transformMajor_nil, ih]

/-! Up to the error they report, the two loops are binds of `Option`s. -/

@[simp] lemma toOption_ok {α : Type*} (a : α) : (Except.ok a : Except ε α).toOption = some a := rfl

@[simp] lemma toOption_error {α : Type*} (e : ε) : (Except.error e : Except ε α).toOption = none :=
  rfl

@[simp] lemma toOption_map {α β : Type*} (f : α → β) (r : Except ε α) :
    (r.map f).toOption = r.toOption.map f := by
  cases r <;> rfl

lemma toOption_transformMajor_cons (x y : τ × ι) (ys : List (τ × ι)) :
    (transformMajor merge x (y :: ys)).toOption =
      (merge x y).toOption.bind fun p =>
        match p.1 with
        | none => some (none, (p.2.map (y.1, ·)).toList ++ ys)
        | some x' => (transformMajor merge (x.1, x') ys).toOption.map
            fun q => (q.1, (p.2.map (y.1, ·)).toList ++ q.2) := by
  rw [transformMajor_cons]
  rcases merge x y with e | ⟨_ | x', y'⟩
  · rfl
  · rfl
  · simp only [toOption_ok, Option.bind_some]
    rcases transformMajor merge (x.1, x') ys with e | ⟨x'', ys'⟩ <;> rfl

lemma toOption_transform_cons (x : τ × ι) (xs minors : List (τ × ι)) :
    (transform merge (x :: xs) minors).toOption =
      (transformMajor merge x minors).toOption.bind fun p =>
        (transform merge xs p.2).toOption.map fun q => ((p.1.map (x.1, ·)).toList ++ q.1, q.2) := by
  rw [transform_cons]
  rcases transformMajor merge x minors with e | ⟨x', ms⟩
  · rfl
  · simp only [toOption_ok, Option.bind_some]
    rcases transform merge xs ms with e | ⟨xs', ms'⟩ <;> rfl

/-- A row over two minor sequences in turn. -/
lemma toOption_transformMajor_append (x : τ × ι) (A B : List (τ × ι)) :
    (transformMajor merge x (A ++ B)).toOption =
      (transformMajor merge x A).toOption.bind fun p =>
        match p.1 with
        | none => some (none, p.2 ++ B)
        | some x' => (transformMajor merge (x.1, x') B).toOption.map fun q => (q.1, p.2 ++ q.2) := by
  induction A generalizing x with
  | nil =>
    obtain ⟨t, v⟩ := x
    dsimp only [List.nil_append, transformMajor_nil, toOption_ok, Option.bind_some]
    rcases transformMajor merge (t, v) B with e | ⟨x', B'⟩ <;> rfl
  | cons a A ih =>
    rw [List.cons_append, toOption_transformMajor_cons, toOption_transformMajor_cons]
    rcases merge x a with e | ⟨_ | x', a'⟩
    · rfl
    · simp
    · simp only [toOption_ok, Option.bind_some, ih]
      rcases transformMajor merge (x.1, x') A with e | ⟨_ | x'', A'⟩
      · rfl
      · simp
      · simp only [toOption_ok, Option.bind_some, Option.map_some]
        rcases transformMajor merge (x.1, x'') B with e | ⟨x₃, B'⟩ <;> simp

/-- A transformation through two minor sequences in turn: what it leaves, up to the error it
reports, is that of the transformation through the first, then through the second. -/
lemma toOption_transform_append (majors A B : List (τ × ι)) :
    (transform merge majors (A ++ B)).toOption =
      (transform merge majors A).toOption.bind fun p =>
        (transform merge p.1 B).toOption.map fun q => (q.1, p.2 ++ q.2) := by
  induction majors generalizing A B with
  | nil => rfl
  | cons x xs ih =>
    rw [toOption_transform_cons, toOption_transform_cons, toOption_transformMajor_append]
    rcases transformMajor merge x A with e | ⟨_ | x', A'⟩
    · rfl
    · -- the major operation is discarded in the first part
      simp only [toOption_ok, Option.bind_some, ih]
      rcases transform merge xs A' with e | ⟨xs', A''⟩
      · rfl
      · simp only [toOption_ok, Option.bind_some, Option.map_some, Option.map_none,
          Option.toList_none, List.nil_append]
        rcases transform merge xs' B with e | ⟨xs'', B'⟩ <;> rfl
    · -- the major operation goes on through the second part
      simp only [toOption_ok, Option.bind_some, Option.map_some, Option.toList_some]
      rcases h₁ : transformMajor merge (x.1, x') B with e | ⟨x'', B'⟩
      · rcases transform merge xs A' with e' | ⟨xs₁, A''⟩
        · rfl
        · simp [toOption_transform_cons, h₁]
      · simp only [toOption_ok, Option.map_some, Option.bind_some, ih]
        rcases transform merge xs A' with e' | ⟨xs₁, A''⟩
        · rfl
        · simp only [toOption_ok, Option.bind_some, Option.map_some, List.singleton_append,
            toOption_transform_cons, h₁]
          rcases transform merge xs₁ B' with e'' | ⟨xs₂, B''⟩ <;> simp

/-- One major operation through a minor sequence is the transformation of that sequence, with
the roles exchanged, through the one operation: a row of the grid is a column of the other. -/
lemma toOption_transformMajor_swap (h : SwapsWith merge merge' R) (x : τ × ι) (m : List (τ × ι))
    (hR : ∀ y ∈ m, R x.1 y.1) :
    (transformMajor merge x m).toOption.map (fun p => (p.2, (p.1.map (x.1, ·)).toList)) =
      (transform merge' m [x]).toOption := by
  induction m generalizing x with
  | nil =>
    obtain ⟨t, v⟩ := x
    rfl
  | cons y ys ih =>
    rw [toOption_transformMajor_cons, toOption_transform_cons, toOption_transformMajor_cons]
    have hs := h x y (hR y List.mem_cons_self)
    rcases hm : merge x y with e | ⟨x', y'⟩
    · rw [hm] at hs
      simp only [toOption_error, Option.map_none] at hs
      simp [hs]
    · rw [hm] at hs
      simp only [toOption_ok, Option.map_some, Prod.swap_prod_mk] at hs
      rw [hs]
      simp only [toOption_ok, Option.bind_some]
      cases x' with
      | none => cases y' <;> simp [transformMajor_nil, transform_nil_right]
      | some x'' =>
        -- the major operation goes on along the row
        have hrow := ih (x.1, x'') fun z hz => hR z (List.mem_cons_of_mem _ hz)
        cases y' <;>
          simp only [transformMajor_nil, toOption_ok, Option.map_some, Option.bind_some,
            Option.toList_some, List.append_nil, List.singleton_append] <;>
          rw [← hrow, Option.map_map, Option.map_map] <;> rfl

/-- The transformation with the roles exchanged: transforming the minor sequence through the
major one with the exchanged merge gives, up to the error reported, what the transformation of
the major sequence through the minor one gives, exchanged. -/
theorem toOption_transform_swap (h : SwapsWith merge merge' R) :
    ∀ (majors minors : List (τ × ι)), (∀ M ∈ majors, ∀ m ∈ minors, R M.1 m.1) →
      (transform merge majors minors).toOption.map Prod.swap =
        (transform merge' minors majors).toOption := by
  intro majors
  induction majors with
  | nil =>
    intro minors _
    simp [transform_nil, transform_nil_right]
  | cons x xs ih =>
    intro minors hR
    rw [toOption_transform_cons, show x :: xs = [x] ++ xs from rfl, toOption_transform_append,
      ← toOption_transformMajor_swap h x minors (hR x List.mem_cons_self)]
    rcases hrow : transformMajor merge x minors with e | ⟨x', minors'⟩
    · rfl
    · -- the tags of what is left of the minor sequence are tags of the minor sequence
      have hR' : ∀ M ∈ xs, ∀ m ∈ minors', R M.1 m.1 := by
        intro M hM m hm
        obtain ⟨m₀, hm₀, hfst⟩ := List.mem_map.mp
          ((transformMajor_tags hrow).subset (List.mem_map_of_mem hm))
        have hM₀ := hR M (List.mem_cons_of_mem _ hM) m₀ hm₀
        rwa [hfst] at hM₀
      simp only [toOption_ok, Option.bind_some, Option.map_some, Option.map_map]
      rw [← ih minors' hR']
      rcases transform merge xs minors' with e | ⟨xs', minors''⟩ <;> rfl

end Swap

end Transform
