import Mathlib
import RealmCore.Sync.ChangesetIndex

/-!
# The index after a scan and the adds

The runs of the `ChangesetIndex` operations over whole changesets.  A scan step links the
subjects of one instruction, which adds that instruction's subjects as one edge to the
components the pointers name (`Inv.scanLoop`); from a new index a scan over changesets without
destructive schema changes leaves pointers that name the components of all their edges
(`inv_scanChangesets`).  An add step puts the position of an instruction in the ranges of the
one group of its subjects and moves no pointer (`Inv.addInstruction`), and ranges only grow, so
what an add covers stays covered through the later ones (`Inv.addChangesets`).
`buildIndex_represents_covers` puts the two together for the indexing of
`Transformer::merge_changesets`.
-/

namespace Realm.Sync

open Components

namespace ChangesetIndex

variable {S R : Type} [DecidableEq S] {idx : ChangesetIndex S}

/-! ### The scan -/

/-- The edges of a changeset: what each of its instructions names, as one edge. -/
def edges (log : List (Option (Instruction S R))) : List (List (Subject S)) :=
  log.filterMap (Option.map Instruction.subjects)

omit [DecidableEq S] in
@[simp] lemma edges_nil : edges ([] : List (Option (Instruction S R))) = [] := rfl

omit [DecidableEq S] in
@[simp] lemma edges_cons_none (log : List (Option (Instruction S R))) :
    edges (none :: log) = edges log := rfl

omit [DecidableEq S] in
@[simp] lemma edges_cons_some (instr : Instruction S R) (log : List (Option (Instruction S R))) :
    edges (some instr :: log) = instr.subjects :: edges log := rfl

/-- The scan of a changeset without destructive schema changes keeps the pointers sound and
adds its edges to the components they name. -/
lemma Inv.scanLoop (h : Inv idx) {E : List (List (Subject S))} (hr : Represents idx.groupOf E)
    (log : List (Option (Instruction S R)))
    (hlog : ∀ x ∈ log, x.any Instruction.isDestructiveSchemaChange = false) :
    Inv (ChangesetIndex.scanLoop idx log) ∧
      Represents (ChangesetIndex.scanLoop idx log).groupOf (E ++ edges log) ∧
      (ChangesetIndex.scanLoop idx log).containsDestructiveSchemaChanges =
        idx.containsDestructiveSchemaChanges := by
  induction log generalizing idx E with
  | nil => exact ⟨h, by rw [edges_nil, List.append_nil]; exact hr, rfl⟩
  | cons x rest ih =>
    have hrest : ∀ y ∈ rest, y.any Instruction.isDestructiveSchemaChange = false :=
      fun y hy => hlog y (List.mem_cons_of_mem x hy)
    cases x with
    | none => simpa [ChangesetIndex.scanLoop] using ih h hr hrest
    | some instr =>
      -- one instruction links its subjects; the rest of the changeset follows
      have hd : instr.isDestructiveSchemaChange = false := by simpa using hlog _ List.mem_cons_self
      obtain ⟨h', hr'⟩ := h.linkSubjects hr instr.subjects (length_subjects_le instr)
      obtain ⟨h'', hr'', hflag⟩ := ih h' hr' hrest
      simp only [ChangesetIndex.scanLoop, hd, Bool.false_eq_true, if_false, edges_cons_some]
      refine ⟨h'', ?_, ?_⟩
      · simpa [scanInstruction] using hr''
      · simpa [scanInstruction] using hflag

/-- Scanning changesets without destructive schema changes, from a new index: the groups are
the components of what the instructions name together. -/
lemma inv_scanChangesets (logs : List (List (Option (Instruction S R))))
    (hlogs : ∀ log ∈ logs, ∀ x ∈ log, x.any Instruction.isDestructiveSchemaChange = false) :
    Inv (logs.foldl scanChangeset (new : ChangesetIndex S)) ∧
      Represents (logs.foldl scanChangeset (new : ChangesetIndex S)).groupOf
        (logs.flatMap edges) ∧
      (logs.foldl scanChangeset (new : ChangesetIndex S)).containsDestructiveSchemaChanges =
        false := by
  -- the run from any sound index that names the components of `E`
  suffices hrun : ∀ (idx : ChangesetIndex S) (E : List (List (Subject S))), Inv idx →
      Represents idx.groupOf E → idx.containsDestructiveSchemaChanges = false →
      Inv (logs.foldl scanChangeset idx) ∧
        Represents (logs.foldl scanChangeset idx).groupOf (E ++ logs.flatMap edges) ∧
        (logs.foldl scanChangeset idx).containsDestructiveSchemaChanges = false by
    have hnew : Represents (new : ChangesetIndex S).groupOf [] := by
      intro x y
      simp only [SameLabel, Linked]
      constructor
      · rintro ⟨_, hx, -⟩
        cases x <;> cases hx
      · intro hxy
        obtain ⟨e, he, -⟩ := mem_of_linked hxy
        cases he
    simpa using hrun new [] inv_new hnew rfl
  induction logs with
  | nil => exact fun idx E h hr hd => ⟨h, by simpa using hr, hd⟩
  | cons log rest ih =>
    intro idx E h hr hd
    obtain ⟨h', hr', hd'⟩ := h.scanLoop hr log (hlogs log List.mem_cons_self)
    have hscan : scanChangeset idx log = ChangesetIndex.scanLoop idx log := by
      simp [scanChangeset, hd]
    have := ih (fun l hl => hlogs l (List.mem_cons_of_mem log hl)) _ _ h' hr' (hd'.trans hd)
    simpa [hscan, List.append_assoc] using this

/-! ### The adds -/

omit [DecidableEq S] in
lemma rangesCover_iff (ranges : Nat → List Changeset.Range) (c pos : Nat) :
    rangesCover ranges c pos = true ↔ InRanges (ranges c) pos := by
  simp [rangesCover, InRanges]

/-- The instruction at `pos` of the changeset `c` lies in the ranges of a group at which all
the subjects of `l` point. -/
def Covers (idx : ChangesetIndex S) (c pos : Nat) (l : List (Subject S)) : Prop :=
  ∃ g cg, idx.conflictGroups g = some cg ∧ (∀ s ∈ l, idx.groupOf s = some g) ∧
    rangesCover cg.ranges c pos = true

omit [DecidableEq S] in
lemma Covers.of_eq {idx' : ChangesetIndex S} {c pos : Nat} {l : List (Subject S)}
    (h : Covers idx c pos l) (hg : idx'.groupOf = idx.groupOf)
    (hc : idx'.conflictGroups = idx.conflictGroups) : Covers idx' c pos l := by
  obtain ⟨g, cg, hcg, hl, hin⟩ := h
  exact ⟨g, cg, by rw [hc]; exact hcg, by rw [hg]; exact hl, hin⟩

variable {g c pos : Nat} {cg : ConflictGroup S}

omit [DecidableEq S] in
@[simp] lemma groupOf_addRange : (idx.addRange g c pos).groupOf = idx.groupOf :=
  groupOf_congr rfl rfl

omit [DecidableEq S] in
lemma conflictGroups_addRange (g' : Nat) :
    (idx.addRange g c pos).conflictGroups g' =
      if g' = g then
        some { idx.group g with
          ranges := Function.update (idx.group g).ranges c
            (addInstructionAt ((idx.group g).ranges c) pos) }
      else idx.conflictGroups g' := by
  simp [addRange, Function.update_apply]

omit [DecidableEq S] in
lemma Inv.addRange (h : Inv idx) (hg : idx.conflictGroups g = some cg) :
    Inv (idx.addRange g c pos) := by
  have hgroups := @conflictGroups_addRange S idx g c pos
  rw [group_of_some hg] at hgroups
  constructor
  · intro s g' hs
    rw [hgroups]
    split_ifs
    · simp
    · exact h.live s g' (by simpa using hs)
  · -- the ranges are not part of the members
    intro g' cg' hcg s
    rw [hgroups] at hcg
    rw [groupOf_addRange]
    split_ifs at hcg with hg'
    · cases hcg
      subst hg'
      exact h.members g' cg hg s
    · exact h.members g' cg' hcg s
  · intro g' hg'
    have hlt := h.lt_nextAddress (g := g) (by simp [hg])
    rw [hgroups, if_neg (by change idx.nextAddress ≤ g' at hg'; omega)]
    exact h.fresh g' hg'
  · intro g' cg' hcg c'
    rw [hgroups] at hcg
    split_ifs at hcg with hg'
    · cases hcg
      subst hg'
      simp only [Function.update_apply]
      split_ifs with hc
      · subst hc
        exact separated_addInstructionAt (h.separated g' cg hg c') pos
      · exact h.separated g' cg hg c'
    · exact h.separated g' cg' hcg c'

omit [DecidableEq S] in
/-- Ranges only grow: what was covered stays covered. -/
lemma Inv.covers_addRange (h : Inv idx) {c' pos' : Nat} {l : List (Subject S)}
    (hc : Covers idx c' pos' l) (g c pos : Nat) : Covers (idx.addRange g c pos) c' pos' l := by
  obtain ⟨g', cg', hcg, hl, hin⟩ := hc
  rw [rangesCover_iff] at hin
  by_cases hgg : g' = g
  · -- the group that grew: the changeset `c` gained `pos`, the others are as they were
    subst hgg
    refine ⟨g', _, (conflictGroups_addRange g').trans (if_pos rfl), by simpa using hl, ?_⟩
    rw [rangesCover_iff, group_of_some hcg]
    simp only [Function.update_apply]
    split_ifs with hcc
    · subst hcc
      exact (inRanges_addInstructionAt (h.separated g' cg' hcg c') pos pos').mpr (Or.inl hin)
    · exact hin
  · refine ⟨g', cg', ?_, by simpa using hl, (rangesCover_iff _ _ _).mpr hin⟩
    rw [conflictGroups_addRange, if_neg hgg, hcg]

/-- Adding an instruction whose subjects are linked puts its position in the ranges of their
one group, keeps what was covered, and moves no pointer. -/
lemma Inv.addInstruction (h : Inv idx) {E : List (List (Subject S))}
    (hr : Represents idx.groupOf E) {instr : Instruction S R} (hmem : instr.subjects ∈ E)
    (hd : instr.isDestructiveSchemaChange = false) (c pos : Nat) :
    Inv (idx.addInstruction c pos instr) ∧ (idx.addInstruction c pos instr).groupOf = idx.groupOf ∧
      (idx.addInstruction c pos instr).containsDestructiveSchemaChanges =
        idx.containsDestructiveSchemaChanges ∧
      Covers (idx.addInstruction c pos instr) c pos instr.subjects ∧
      ∀ c' pos' l, Covers idx c' pos' l → Covers (idx.addInstruction c pos instr) c' pos' l := by
  obtain ⟨a, rest, hsub⟩ := List.exists_cons_of_ne_nil (subjects_ne_nil hd)
  -- the subjects of one instruction are linked, so they carry the label of the first
  have hsame : ∀ s ∈ instr.subjects, SameLabel idx.groupOf a s :=
    fun s hs => (hr a s).mpr (Relation.TransGen.single ⟨_, hmem, by simp [hsub], hs⟩)
  obtain ⟨g, ha, -⟩ := hsame a (by simp [hsub])
  have hall : ∀ s ∈ instr.subjects, idx.groupOf s = some g := by
    intro s hs
    obtain ⟨g', ha', hs'⟩ := hsame s hs
    rw [ha] at ha'
    cases ha'
    exact hs'
  obtain ⟨cg, hcg⟩ := Option.ne_none_iff_exists'.mp (h.live a g ha)
  have hadd : idx.addInstruction c pos instr = idx.addRange g c pos := by
    simp [ChangesetIndex.addInstruction, hsub, conflictGroupOf_of_some ha]
  rw [hadd]
  refine ⟨h.addRange hcg, groupOf_addRange, rfl, ?_, fun c' pos' l hc => h.covers_addRange hc g c pos⟩
  refine ⟨g, _, (conflictGroups_addRange g).trans (if_pos rfl), by simpa using hall, ?_⟩
  rw [rangesCover_iff, group_of_some hcg]
  simp only [Function.update_apply, if_true]
  exact (inRanges_addInstructionAt (h.separated g cg hcg c) pos pos).mpr (Or.inr rfl)

/-- The loop of `add_changeset` over a changeset whose instructions are edges of the components
the pointers name: it ends, moves no pointer, and leaves each instruction covered. -/
lemma Inv.addLoop (h : Inv idx) {E : List (List (Subject S))} (hr : Represents idx.groupOf E)
    (c : Nat) (log : List (Option (Instruction S R)))
    (hlog : ∀ x ∈ log, x.any Instruction.isDestructiveSchemaChange = false)
    (hmem : ∀ instr, some instr ∈ log → instr.subjects ∈ E) (pos : Nat) :
    ∃ idx', ChangesetIndex.addLoop c idx pos log = some idx' ∧ Inv idx' ∧
      idx'.groupOf = idx.groupOf ∧
      idx'.containsDestructiveSchemaChanges = idx.containsDestructiveSchemaChanges ∧
      (∀ c' pos' l, Covers idx c' pos' l → Covers idx' c' pos' l) ∧
      ∀ k instr, log[k]? = some (some instr) → Covers idx' c (pos + k) instr.subjects := by
  induction log generalizing idx pos with
  | nil => exact ⟨idx, rfl, h, rfl, rfl, fun _ _ _ hc => hc, by simp⟩
  | cons x rest ih =>
    have hrest : ∀ y ∈ rest, y.any Instruction.isDestructiveSchemaChange = false :=
      fun y hy => hlog y (List.mem_cons_of_mem x hy)
    have hmem' : ∀ instr, some instr ∈ rest → instr.subjects ∈ E :=
      fun instr hi => hmem instr (List.mem_cons_of_mem x hi)
    cases x with
    | none =>
      -- a tombstone takes a position and nothing else
      obtain ⟨idx', hrun, h', hgroup, hflag, hkeep, hcov⟩ := ih h hr hrest hmem' (pos + 1)
      refine ⟨idx', hrun, h', hgroup, hflag, hkeep, ?_⟩
      rintro (_ | k) instr hk
      · cases hk
      · simpa [Nat.add_assoc, Nat.add_comm 1 k] using hcov k instr hk
    | some instr =>
      have hd : instr.isDestructiveSchemaChange = false := by
        simpa using hlog _ List.mem_cons_self
      obtain ⟨h₁, hgroup₁, hflag₁, hcov₁, hkeep₁⟩ :=
        h.addInstruction hr (hmem instr List.mem_cons_self) hd c pos
      obtain ⟨idx', hrun, h', hgroup, hflag, hkeep, hcov⟩ :=
        ih h₁ (hgroup₁ ▸ hr) hrest hmem' (pos + 1)
      refine ⟨idx', ?_, h', hgroup.trans hgroup₁, hflag.trans hflag₁,
        fun c' pos' l hc => hkeep c' pos' l (hkeep₁ c' pos' l hc), ?_⟩
      · simpa [ChangesetIndex.addLoop, hd] using hrun
      · rintro (_ | k) instr' hk
        · cases hk
          exact hkeep c pos _ hcov₁
        · simpa [Nat.add_assoc, Nat.add_comm 1 k] using hcov k instr' hk

/-- `add_changeset` on an index without destructive schema changes whose pointers name the
components of edges among which are those of the changeset. -/
lemma Inv.addChangeset (h : Inv idx) {E : List (List (Subject S))}
    (hr : Represents idx.groupOf E) (hd : idx.containsDestructiveSchemaChanges = false)
    (c : Nat) (log : List (Option (Instruction S R)))
    (hlog : ∀ x ∈ log, x.any Instruction.isDestructiveSchemaChange = false)
    (hmem : ∀ instr, some instr ∈ log → instr.subjects ∈ E) :
    ∃ idx', idx.addChangeset c log = some idx' ∧ Inv idx' ∧ idx'.groupOf = idx.groupOf ∧
      idx'.containsDestructiveSchemaChanges = false ∧
      (∀ c' pos' l, Covers idx c' pos' l → Covers idx' c' pos' l) ∧
      ∀ k instr, log[k]? = some (some instr) → Covers idx' c k instr.subjects := by
  -- recording the changeset in `m_everything` touches nothing the loop reads
  set idx₀ := if log.all Option.isNone then idx
    else { idx with everything := Function.update idx.everything c [⟨0, log.length⟩] } with hidx₀
  have hfields : idx₀.groupOf = idx.groupOf ∧ idx₀.conflictGroups = idx.conflictGroups ∧
      idx₀.nextAddress = idx.nextAddress ∧ idx₀.containsDestructiveSchemaChanges = false := by
    rw [hidx₀]
    split
    · exact ⟨rfl, rfl, rfl, hd⟩
    · exact ⟨groupOf_congr rfl rfl, rfl, rfl, hd⟩
  obtain ⟨hgroup₀, hgroups₀, hnext₀, hd₀⟩ := hfields
  have h₀ : Inv idx₀ := h.of_eq hgroup₀ hgroups₀ hnext₀
  obtain ⟨idx', hrun, h', hgroup, hflag, hkeep, hcov⟩ :=
    h₀.addLoop (hgroup₀ ▸ hr) c log hlog hmem 0
  have hadd : idx.addChangeset c log =
      if idx₀.containsDestructiveSchemaChanges then some idx₀
      else ChangesetIndex.addLoop c idx₀ 0 log := rfl
  refine ⟨idx', ?_, h', hgroup.trans hgroup₀, hflag.trans hd₀,
    fun c' pos' l hc => hkeep c' pos' l (hc.of_eq hgroup₀ hgroups₀), fun k instr hk => ?_⟩
  · rw [hadd, hd₀]
    exact hrun
  · simpa using hcov k instr hk

/-- The adds of every incoming changeset, each an edge list among `E`, from a sound index
without destructive schema changes. -/
lemma Inv.addChangesets (h : Inv idx) {E : List (List (Subject S))}
    (hr : Represents idx.groupOf E) (hd : idx.containsDestructiveSchemaChanges = false)
    (theirs : List (Nat × List (Option (Instruction S R))))
    (hlogs : ∀ p ∈ theirs, ∀ x ∈ p.2, x.any Instruction.isDestructiveSchemaChange = false)
    (hmem : ∀ p ∈ theirs, ∀ instr, some instr ∈ p.2 → instr.subjects ∈ E) :
    ∃ idx', theirs.foldlM (fun idx p => idx.addChangeset p.1 p.2) idx = some idx' ∧ Inv idx' ∧
      idx'.groupOf = idx.groupOf ∧
      (∀ c' pos' l, Covers idx c' pos' l → Covers idx' c' pos' l) ∧
      ∀ p ∈ theirs, ∀ k instr, p.2[k]? = some (some instr) → Covers idx' p.1 k instr.subjects := by
  induction theirs generalizing idx with
  | nil => exact ⟨idx, rfl, h, rfl, fun _ _ _ hc => hc, by simp⟩
  | cons p rest ih =>
    -- the first changeset, then the others from where it leaves the index
    obtain ⟨idx₁, hadd, h₁, hgroup₁, hd₁, hkeep₁, hcov₁⟩ :=
      h.addChangeset hr hd p.1 p.2 (hlogs p List.mem_cons_self) (hmem p List.mem_cons_self)
    obtain ⟨idx', hrun, h', hgroup, hkeep, hcov⟩ :=
      ih h₁ (hgroup₁ ▸ hr) hd₁ (fun q hq => hlogs q (List.mem_cons_of_mem p hq))
        (fun q hq => hmem q (List.mem_cons_of_mem p hq))
    refine ⟨idx', by simp [hadd, hrun], h', hgroup.trans hgroup₁,
      fun c' pos' l hc => hkeep c' pos' l (hkeep₁ c' pos' l hc), ?_⟩
    rintro q (_ | ⟨_, hq⟩) k instr hk
    · -- covered by its own add, and kept by the later ones
      exact hkeep _ _ _ (hcov₁ k instr hk)
    · exact hcov q hq k instr hk

omit [DecidableEq S] in
lemma subjects_mem_edges {instr : Instruction S R} {log : List (Option (Instruction S R))}
    (h : some instr ∈ log) : instr.subjects ∈ edges log :=
  List.mem_filterMap.mpr ⟨some instr, h, rfl⟩

/-! ### The index the merge builds -/

/-- After the indexing of `Transformer::merge_changesets` over changesets without destructive
schema changes: the conflict groups are exactly the connected components of "named by one
instruction" over all scanned instructions; every instruction of an incoming changeset lies in
the ranges, for its changeset, of the one group at which everything it names points; the
ranges of every group are sorted, disjoint, not adjacent and nonempty; and `add_instruction_at`
keeps ranges so and adds exactly the new position to what they cover. -/
theorem buildIndex_represents_covers (theirs : List (Nat × List (Option (Instruction S R))))
    (ours : List (List (Option (Instruction S R))))
    (hlogs : ∀ log ∈ theirs.map Prod.snd ++ ours, ∀ x ∈ log,
      x.any Instruction.isDestructiveSchemaChange = false) :
    ∃ idx, buildIndex theirs ours = some idx ∧
      Represents idx.groupOf ((theirs.map Prod.snd ++ ours).flatMap edges) ∧
      (∀ p ∈ theirs, ∀ k instr, p.2[k]? = some (some instr) →
        Covers idx p.1 k instr.subjects) ∧
      (∀ g cg, idx.conflictGroups g = some cg → ∀ c, Separated (cg.ranges c)) ∧
      ∀ (v : List Changeset.Range) (pos : Nat), Separated v →
        Separated (addInstructionAt v pos) ∧
          ∀ p, InRanges (addInstructionAt v pos) p ↔ InRanges v p ∨ p = pos := by
  obtain ⟨h₀, hr₀, hd₀⟩ := inv_scanChangesets _ hlogs
  -- every incoming instruction is an edge of the scan
  have hmem : ∀ p ∈ theirs, ∀ instr, some instr ∈ p.2 →
      instr.subjects ∈ (theirs.map Prod.snd ++ ours).flatMap edges := by
    intro p hp instr hi
    exact List.mem_flatMap.mpr ⟨p.2, List.mem_append_left _ (List.mem_map_of_mem hp),
      subjects_mem_edges hi⟩
  obtain ⟨idx, hrun, h, hgroup, -, hcov⟩ := h₀.addChangesets hr₀ hd₀ theirs
    (fun p hp => hlogs p.2 (List.mem_append_left _ (List.mem_map_of_mem hp))) hmem
  exact ⟨idx, hrun, hgroup ▸ hr₀, hcov, h.separated,
    fun v pos hv => ⟨separated_addInstructionAt hv pos, inRanges_addInstructionAt hv pos⟩⟩

/-- An incoming changeset that creates an object and links it to another, with a tombstone
between, and a local one that adds a table: the update at position 2 lies in the ranges of the
group of both objects. -/
theorem buildIndex_represents_covers_link :
    (∀ log ∈ ([(0, [some (.createObject 1 (.int 7)), none,
        some (.update ⟨1, .int 7, 2, []⟩ (.link 3 (.int 9)) false 0)])] :
          List (Nat × List (Option (Instruction Nat Unit)))).map Prod.snd ++
        [[some (.addTable 1 .embedded)]],
      ∀ x ∈ log, x.any Instruction.isDestructiveSchemaChange = false) ∧
    ∃ idx, buildIndex (R := Unit) [(0, [some (.createObject 1 (.int 7)), none,
        some (.update ⟨1, .int 7, 2, []⟩ (.link 3 (.int 9)) false 0)])]
        [[some (.addTable 1 .embedded)]] = some (idx : ChangesetIndex Nat) ∧
      Covers idx 0 2 [.object ⟨1, .int 7⟩, .object ⟨3, .int 9⟩] := by
  refine (fun hlogs => ⟨hlogs, ?_⟩) (by decide)
  obtain ⟨idx, hbuild, -, hcov, -⟩ := buildIndex_represents_covers _ _ hlogs
  exact ⟨idx, hbuild, hcov _ List.mem_cons_self 2 _ rfl⟩

end ChangesetIndex

end Realm.Sync
