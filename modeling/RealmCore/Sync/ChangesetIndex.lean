import Mathlib
import RealmCore.Lib.Components
import RealmCore.Sync.IndexRanges
import RealmCore.Sync.Instruction

/-!
# The changeset index of the merge

Before the operational transform merges two histories it indexes their instructions by what
they touch, so that it compares only instructions that may conflict
(src/realm/sync/noinst/changeset_index.cpp).  `scan_changeset` runs over every changeset of
both sides and gathers the classes and objects that one instruction names into one conflict
group: an `AddTable` names its class, an `AddColumn` its class and, for a link column, the
class it links to, and any other instruction the objects of `get_object_ids_in_instruction`.
Groups are merged union-find style, the smaller into the larger, by pointing every member of
the one at the other.  `add_changeset` then runs over the incoming changesets and adds the
position of each instruction to the ranges of its group, by `add_instruction_at`.

The index is modelled over instructions whose strings are already read, `get_string` and
`get_key` of the code: the string type `S` is a parameter.  A changeset is the list of its
instructions in iteration order, `none` for a tombstone, and a changeset pointer is a number.
The maps of the index are functions: `m_schema_instructions` from a class,
`m_object_instructions` from a `GlobalID` (the table's map and the object's map in one), and
`m_conflict_groups_owner` from the address of a group, with `nextAddress` the address the next
`emplace_back` gets.  A group keeps its objects as one list of `GlobalID`s.

`Inv` states what the code's `verify` checks of the pointers: every pointer names a live group,
the members a group lists are exactly the subjects that point at it, and no group lives at a
fresh address; and that every group's ranges are `Separated`.  Under it the pointers form a
labelling in the sense of `Components`, and each operation acts on it as that library says:
`conflictGroupOf` labels a new subject with a fresh label, `mergeConflictGroups` relabels one
class with the other's label, and `linkSubjects`, the scan of one instruction, adds what the
instruction names as one edge (`Inv.linkSubjects`).  The runs over whole changesets are in
`RealmCore.Sync.ChangesetIndexRun`.
-/

namespace Realm.Sync

open Components

/-- `GlobalID`: an object, by its table and its primary key. -/
structure GlobalID (S : Type) where
  tableName : S
  objectId : PrimaryKey S
deriving DecidableEq, Repr

/-- What a conflict group gathers: a class, of the schema instructions, or an object. -/
inductive Subject (S : Type) where
  | schema (className : S)
  | object (id : GlobalID S)
deriving DecidableEq, Repr

/-- `ChangesetIndex::ConflictGroup`: the ranges of each changeset that touch the group, its
classes, its objects and their number.  Its `self_it` is its address. -/
structure ConflictGroup (S : Type) where
  ranges : Nat → List Changeset.Range
  schemas : List S
  objects : List (GlobalID S)
  size : Nat

namespace ConflictGroup

variable {S : Type}

/-- A default-constructed group. -/
def empty : ConflictGroup S := ⟨fun _ => [], [], [], 0⟩

/-- The group that `schema_conflict_group` or `object_conflict_group` creates for a subject:
it alone, with `size = 1`. -/
def single : Subject S → ConflictGroup S
  | .schema c => ⟨fun _ => [], [c], [], 1⟩
  | .object o => ⟨fun _ => [], [], [o], 1⟩

/-- The group `into` after `merge_conflict_groups(into, from)`: the classes and objects of
`from` appended to its own, and the sizes added. -/
def absorb (into from_ : ConflictGroup S) : ConflictGroup S :=
  { into with
    schemas := into.schemas ++ from_.schemas
    objects := into.objects ++ from_.objects
    size := into.size + from_.size }

/-- The classes and objects of a group. -/
def members (cg : ConflictGroup S) : List (Subject S) :=
  cg.schemas.map .schema ++ cg.objects.map .object

end ConflictGroup

/-- `ChangesetIndex`. -/
structure ChangesetIndex (S : Type) where
  everything : Nat → List Changeset.Range
  schemaInstructions : S → Option Nat
  objectInstructions : GlobalID S → Option Nat
  conflictGroups : Nat → Option (ConflictGroup S)
  numConflictGroups : Nat
  containsDestructiveSchemaChanges : Bool
  nextAddress : Nat

/-- `EraseTable` and `EraseColumn`, the destructive schema changes. -/
def Instruction.isDestructiveSchemaChange {S R : Type} : Instruction S R → Bool
  | .eraseTable _ | .eraseColumn _ _ => true
  | _ => false

/-- The object a link payload targets. -/
def Payload.linkTarget? {S R : Type} : Payload S R → Option (GlobalID S)
  | .link t k => some ⟨t, k⟩
  | _ => none

/-- `get_object_ids_in_instruction`: the object of an object instruction, and for an `Update`
or an `ArrayInsert` of a link the object it links to. -/
def getObjectIdsInInstruction {S R : Type} : Instruction S R → List (GlobalID S)
  | .createObject t o | .eraseObject t o => [⟨t, o⟩]
  | .update p v _ _ | .arrayInsert p v _ => ⟨p.table, p.object⟩ :: v.linkTarget?.toList
  | .addInteger p _ | .arrayMove p _ _ | .arrayErase p _ | .clear p _ | .setInsert p _
  | .setErase p _ => [⟨p.table, p.object⟩]
  | _ => []

/-- What `scan_changeset` puts in one group for an instruction: the class of an `AddTable`, the
class of an `AddColumn` and, of a link column, the class it links to, and the objects of any
other instruction. -/
def Instruction.subjects {S R : Type} : Instruction S R → List (Subject S)
  | .addTable t _ => [.schema t]
  | .addColumn t _ ty _ _ _ lt => if ty = .link then [.schema t, .schema lt] else [.schema t]
  | instr => (getObjectIdsInInstruction instr).map .object

namespace ChangesetIndex

variable {S R : Type} [DecidableEq S]

/-- A new `ChangesetIndex`. -/
def new : ChangesetIndex S :=
  ⟨fun _ => [], fun _ => none, fun _ => none, fun _ => none, 0, false, 0⟩

/-- `clear()`. -/
def clear (idx : ChangesetIndex S) : ChangesetIndex S :=
  { idx with
    schemaInstructions := fun _ => none
    objectInstructions := fun _ => none
    conflictGroups := fun _ => none
    numConflictGroups := 0 }

/-- The group at an address. -/
def group (idx : ChangesetIndex S) (g : Nat) : ConflictGroup S :=
  (idx.conflictGroups g).getD .empty

/-- The group a subject points at. -/
def groupOf (idx : ChangesetIndex S) : Subject S → Option Nat
  | .schema c => idx.schemaInstructions c
  | .object o => idx.objectInstructions o

/-- Points a subject at a group. -/
def setGroupOf (idx : ChangesetIndex S) : Subject S → Option Nat → ChangesetIndex S
  | .schema c, g => { idx with schemaInstructions := Function.update idx.schemaInstructions c g }
  | .object o, g => { idx with objectInstructions := Function.update idx.objectInstructions o g }

/-- `schema_conflict_group` and `object_conflict_group`: the group the subject points at, or a
new group of it alone, appended to the owner list. -/
def conflictGroupOf (idx : ChangesetIndex S) (s : Subject S) : Nat × ChangesetIndex S :=
  match idx.groupOf s with
  | some g => (g, idx)
  | none =>
    let g := idx.nextAddress
    (g, { idx.setGroupOf s (some g) with
      conflictGroups := Function.update idx.conflictGroups g (some (ConflictGroup.single s))
      numConflictGroups := idx.numConflictGroups + 1
      nextAddress := g + 1 })

/-- `schema_conflict_group(class_name)`. -/
def schemaConflictGroup (idx : ChangesetIndex S) (className : S) : Nat × ChangesetIndex S :=
  idx.conflictGroupOf (.schema className)

/-- `object_conflict_group(object_id)`. -/
def objectConflictGroup (idx : ChangesetIndex S) (objectId : GlobalID S) :
    Nat × ChangesetIndex S :=
  idx.conflictGroupOf (.object objectId)

/-- The body of `merge_conflict_groups(into, from)` past its two tests: every class and object
of `from` pointed at `into` and appended to its lists, the sizes added, and `from` erased from
the owner list.  The debug assertions that both have no ranges yet are not modelled. -/
def mergeInto (idx : ChangesetIndex S) (into from_ : Nat) : ChangesetIndex S :=
  let i := idx.group into
  let f := idx.group from_
  { idx with
    schemaInstructions :=
      f.schemas.foldl (fun m c => Function.update m c (some into)) idx.schemaInstructions
    objectInstructions :=
      f.objects.foldl (fun m o => Function.update m o (some into)) idx.objectInstructions
    conflictGroups :=
      Function.update (Function.update idx.conflictGroups into (some (i.absorb f))) from_ none
    numConflictGroups := idx.numConflictGroups - 1 }

/-- `merge_conflict_groups(into, from)`: nothing for one group; the other way round when `from`
is the larger, where the recursive call passes both tests. -/
def mergeConflictGroups (idx : ChangesetIndex S) (into from_ : Nat) : ChangesetIndex S :=
  if into = from_ then idx
  else if (idx.group into).size < (idx.group from_).size then idx.mergeInto from_ into
  else idx.mergeInto into from_

/-- The group of the first subject, and for a second one its group merged with it:
`merge_conflict_groups(cg, cg2)`. -/
def linkSubjects (idx : ChangesetIndex S) : List (Subject S) → ChangesetIndex S
  | [] => idx
  | a :: more =>
    let (cg, idx) := idx.conflictGroupOf a
    -- `for (size_t i = 1; i < num_ids; ++i)` reads `ids[1]`: there are at most two
    match more with
    | [] => idx
    | b :: _ =>
      let (cg2, idx) := idx.conflictGroupOf b
      idx.mergeConflictGroups cg cg2

/-- The body of the loop of `scan_changeset` on an instruction that is not a destructive schema
change. -/
def scanInstruction (idx : ChangesetIndex S) (instr : Instruction S R) : ChangesetIndex S :=
  idx.linkSubjects instr.subjects

/-- The loop of `scan_changeset`: tombstones skipped, and at an `EraseTable` or an
`EraseColumn` the index cleared, marked, and the scan over. -/
def scanLoop : ChangesetIndex S → List (Option (Instruction S R)) → ChangesetIndex S
  | idx, [] => idx
  | idx, none :: rest => scanLoop idx rest
  | idx, some instr :: rest =>
    if instr.isDestructiveSchemaChange then
      { idx.clear with containsDestructiveSchemaChanges := true }
    else scanLoop (idx.scanInstruction instr) rest

/-- `scan_changeset(changeset)`. -/
def scanChangeset (idx : ChangesetIndex S) (log : List (Option (Instruction S R))) :
    ChangesetIndex S :=
  if idx.containsDestructiveSchemaChanges then idx else scanLoop idx log

/-- `add_instruction_at(cg.ranges, changeset, pos)` on the group at `g`. -/
def addRange (idx : ChangesetIndex S) (g c pos : Nat) : ChangesetIndex S :=
  let cg := idx.group g
  { idx with
    conflictGroups := Function.update idx.conflictGroups g
      (some { cg with ranges := Function.update cg.ranges c (addInstructionAt (cg.ranges c) pos) }) }

/-- The body of the loop of `add_changeset` on an instruction at `pos` of the changeset `c`: its
position added to the group of the first subject.  That the others share it is a debug
assertion, not modelled. -/
def addInstruction (idx : ChangesetIndex S) (c pos : Nat) (instr : Instruction S R) :
    ChangesetIndex S :=
  match instr.subjects with
  | [] => idx
  | a :: _ =>
    let (g, idx) := idx.conflictGroupOf a
    idx.addRange g c pos

/-- The loop of `add_changeset` from position `pos`; `REALM_TERMINATE` at a destructive schema
change, which `scan_changeset` should have seen. -/
def addLoop (c : Nat) : ChangesetIndex S → Nat → List (Option (Instruction S R)) →
    Option (ChangesetIndex S)
  | idx, _, [] => some idx
  | idx, pos, none :: rest => addLoop c idx (pos + 1) rest
  | idx, pos, some instr :: rest =>
    if instr.isDestructiveSchemaChange then none
    else addLoop c (idx.addInstruction c pos instr) (pos + 1) rest

/-- `add_changeset(log)` for the changeset at `c`: a nonempty one is recorded whole in
`m_everything`, and unless the index has seen destructive schema changes each instruction is
added to its group. -/
def addChangeset (idx : ChangesetIndex S) (c : Nat) (log : List (Option (Instruction S R))) :
    Option (ChangesetIndex S) :=
  let idx := if log.all Option.isNone then idx
    else { idx with everything := Function.update idx.everything c [⟨0, log.length⟩] }
  if idx.containsDestructiveSchemaChanges then some idx else addLoop c idx 0 log

/-- The indexing of `Transformer::merge_changesets` (src/realm/sync/transform.cpp): every
incoming changeset scanned, then every local one, then every incoming one added. -/
def buildIndex (theirs : List (Nat × List (Option (Instruction S R))))
    (ours : List (List (Option (Instruction S R)))) : Option (ChangesetIndex S) :=
  let idx := (theirs.map Prod.snd ++ ours).foldl scanChangeset new
  theirs.foldlM (fun idx p => idx.addChangeset p.1 p.2) idx

/-- `ranges_cover(ranges, log, it)`. -/
def rangesCover (ranges : Nat → List Changeset.Range) (c pos : Nat) : Bool :=
  (ranges c).any fun r => decide (r.begin ≤ pos ∧ pos < r.end_)

/-! ### The pointers -/

@[simp] lemma groupOf_setGroupOf (idx : ChangesetIndex S) (s : Subject S) (v : Option Nat) :
    (idx.setGroupOf s v).groupOf = Function.update idx.groupOf s v := by
  funext t
  cases s <;> cases t <;> simp [setGroupOf, groupOf, Function.update_apply]

@[simp] lemma conflictGroups_setGroupOf (idx : ChangesetIndex S) (s : Subject S) (v : Option Nat) :
    (idx.setGroupOf s v).conflictGroups = idx.conflictGroups := by
  cases s <;> rfl

@[simp] lemma nextAddress_setGroupOf (idx : ChangesetIndex S) (s : Subject S) (v : Option Nat) :
    (idx.setGroupOf s v).nextAddress = idx.nextAddress := by
  cases s <;> rfl

omit [DecidableEq S] in
@[simp] lemma mem_members {cg : ConflictGroup S} {s : Subject S} :
    s ∈ cg.members ↔ (∃ c ∈ cg.schemas, s = .schema c) ∨ ∃ o ∈ cg.objects, s = .object o := by
  simp [ConflictGroup.members, eq_comm]

omit [DecidableEq S] in
lemma mem_members_absorb {i f : ConflictGroup S} {s : Subject S} :
    s ∈ (i.absorb f).members ↔ s ∈ i.members ∨ s ∈ f.members := by
  simp only [mem_members, ConflictGroup.absorb, List.mem_append]
  constructor
  · rintro (⟨c, hc | hc, rfl⟩ | ⟨o, ho | ho, rfl⟩)
    · exact Or.inl (Or.inl ⟨c, hc, rfl⟩)
    · exact Or.inr (Or.inl ⟨c, hc, rfl⟩)
    · exact Or.inl (Or.inr ⟨o, ho, rfl⟩)
    · exact Or.inr (Or.inr ⟨o, ho, rfl⟩)
  · rintro ((⟨c, hc, rfl⟩ | ⟨o, ho, rfl⟩) | (⟨c, hc, rfl⟩ | ⟨o, ho, rfl⟩))
    · exact Or.inl ⟨c, Or.inl hc, rfl⟩
    · exact Or.inr ⟨o, Or.inl ho, rfl⟩
    · exact Or.inl ⟨c, Or.inr hc, rfl⟩
    · exact Or.inr ⟨o, Or.inr ho, rfl⟩

omit [DecidableEq S] in
@[simp] lemma members_single (s : Subject S) : (ConflictGroup.single s).members = [s] := by
  cases s <;> rfl

/-- What `verify` checks of the pointers: each names a group of the owner list, and a group
lists exactly the subjects that point at it; no group lives at an address not yet handed out;
and the ranges of every group are separated. -/
structure Inv (idx : ChangesetIndex S) : Prop where
  live : ∀ s g, idx.groupOf s = some g → idx.conflictGroups g ≠ none
  members : ∀ g cg, idx.conflictGroups g = some cg → ∀ s, s ∈ cg.members ↔ idx.groupOf s = some g
  fresh : ∀ g, idx.nextAddress ≤ g → idx.conflictGroups g = none
  separated : ∀ g cg, idx.conflictGroups g = some cg → ∀ c, Separated (cg.ranges c)

omit [DecidableEq S] in
lemma inv_new : Inv (new : ChangesetIndex S) where
  live s _ h := by cases s <;> cases h
  members _ _ h := by cases h
  fresh _ _ := rfl
  separated _ _ h := by cases h

variable {idx : ChangesetIndex S}

omit [DecidableEq S] in
/-- Only the two maps of pointers make up `groupOf`. -/
lemma groupOf_congr {idx' : ChangesetIndex S}
    (h₁ : idx'.schemaInstructions = idx.schemaInstructions)
    (h₂ : idx'.objectInstructions = idx.objectInstructions) : idx'.groupOf = idx.groupOf := by
  funext s
  cases s <;> simp [groupOf, h₁, h₂]

omit [DecidableEq S] in
/-- No subject points at the next address. -/
lemma Inv.groupOf_ne_nextAddress (h : Inv idx) (s : Subject S) :
    idx.groupOf s ≠ some idx.nextAddress :=
  fun hs => h.live s _ hs (h.fresh _ le_rfl)

omit [DecidableEq S] in
/-- A live group is at an address handed out. -/
lemma Inv.lt_nextAddress (h : Inv idx) {g : Nat} (hg : idx.conflictGroups g ≠ none) :
    g < idx.nextAddress :=
  Nat.lt_of_not_le fun hle => hg (h.fresh g hle)

omit [DecidableEq S] in
/-- The invariant reads only the pointers, the groups and the next address. -/
lemma Inv.of_eq {idx' : ChangesetIndex S} (h : Inv idx) (hg : idx'.groupOf = idx.groupOf)
    (hc : idx'.conflictGroups = idx.conflictGroups) (hn : idx'.nextAddress = idx.nextAddress) :
    Inv idx' where
  live s g hs := by rw [hc]; exact h.live s g (by rwa [← hg])
  members g cg hcg s := by rw [hg]; exact h.members g cg (by rwa [← hc]) s
  fresh g hg' := by rw [hc]; exact h.fresh g (by rwa [← hn])
  separated g cg hcg := h.separated g cg (by rwa [← hc])

/-! ### Creating a group -/

lemma conflictGroupOf_of_some {s : Subject S} {g : Nat} (hs : idx.groupOf s = some g) :
    idx.conflictGroupOf s = (g, idx) := by
  simp [conflictGroupOf, hs]

lemma conflictGroupOf_of_none {s : Subject S} (hs : idx.groupOf s = none) :
    (idx.conflictGroupOf s).1 = idx.nextAddress ∧
      (idx.conflictGroupOf s).2.groupOf = Function.update idx.groupOf s (some idx.nextAddress) ∧
      (idx.conflictGroupOf s).2.conflictGroups =
        Function.update idx.conflictGroups idx.nextAddress (some (ConflictGroup.single s)) ∧
      (idx.conflictGroupOf s).2.nextAddress = idx.nextAddress + 1 := by
  simp only [conflictGroupOf, hs]
  refine ⟨trivial, ?_, by simp, by simp⟩
  exact (groupOf_congr rfl rfl).trans (groupOf_setGroupOf idx s _)

/-- After `conflictGroupOf` the subject points at the group it returns. -/
lemma groupOf_conflictGroupOf (s : Subject S) :
    (idx.conflictGroupOf s).2.groupOf s = some (idx.conflictGroupOf s).1 := by
  cases hs : idx.groupOf s with
  | some g => simp [conflictGroupOf_of_some hs, hs]
  | none =>
    obtain ⟨h1, h2, -⟩ := conflictGroupOf_of_none hs
    simp [h1, h2]

/-- `conflictGroupOf` moves no pointer that is set. -/
lemma groupOf_conflictGroupOf_of_some {s t : Subject S} {g : Nat} (ht : idx.groupOf t = some g) :
    (idx.conflictGroupOf s).2.groupOf t = some g := by
  cases hs : idx.groupOf s with
  | some g' => simp [conflictGroupOf_of_some hs, ht]
  | none =>
    obtain ⟨-, h2, -⟩ := conflictGroupOf_of_none hs
    have hts : t ≠ s := by rintro rfl; simp [hs] at ht
    simp [h2, hts, ht]

lemma Inv.conflictGroupOf (h : Inv idx) (s : Subject S) : Inv (idx.conflictGroupOf s).2 := by
  cases hs : idx.groupOf s with
  | some g => rwa [conflictGroupOf_of_some hs]
  | none =>
    obtain ⟨-, hgroup, hgroups, hnext⟩ := conflictGroupOf_of_none hs
    -- the new group at the next address holds `s` alone, which now points at it
    have hne := h.groupOf_ne_nextAddress
    constructor
    · intro t g ht
      rw [hgroups, Function.update_apply]
      split_ifs
      · simp
      · rw [hgroup, Function.update_apply] at ht
        split_ifs at ht with hts
        · simp_all
        · exact h.live t g ht
    · intro g cg hcg t
      rw [hgroups, Function.update_apply] at hcg
      rw [hgroup, Function.update_apply]
      split_ifs at hcg with hg
      · cases hcg
        subst hg
        by_cases hts : t = s
        · simp [hts]
        · simp [hts, hne t]
      · have hmem := h.members g cg hcg t
        by_cases hts : t = s
        · subst hts
          simp only [if_true, Option.some.injEq]
          rw [hmem, hs]
          simp only [reduceCtorEq, false_iff]
          exact fun hgn => hg hgn.symm
        · simp [hts, hmem]
    · intro g hg
      rw [hgroups, Function.update_apply, if_neg (by omega)]
      exact h.fresh g (by omega)
    · intro g cg hcg c
      rw [hgroups, Function.update_apply] at hcg
      split_ifs at hcg
      · cases hcg
        cases s <;> exact ⟨List.isChain_nil, by simp [ConflictGroup.single]⟩
      · exact h.separated g cg hcg c

/-- `conflictGroupOf` names the subject's component, creating it as a component of its own. -/
lemma Inv.represents_conflictGroupOf (h : Inv idx) {E : List (List (Subject S))}
    (hr : Represents idx.groupOf E) (s : Subject S) :
    Represents (idx.conflictGroupOf s).2.groupOf (E ++ [[s]]) := by
  cases hs : idx.groupOf s with
  | some g =>
    rw [conflictGroupOf_of_some hs]
    exact represents_of_labelled hr hs
  | none =>
    obtain ⟨-, hgroup, -⟩ := conflictGroupOf_of_none hs
    rw [hgroup]
    exact represents_label_fresh hr hs h.groupOf_ne_nextAddress

/-! ### Merging two groups -/

variable {into from_ : Nat} {i f : ConflictGroup S}

omit [DecidableEq S] in
lemma group_of_some {g : Nat} {cg : ConflictGroup S} (h : idx.conflictGroups g = some cg) :
    idx.group g = cg := by
  simp [group, h]

/-- Pointing the members of `from` at `into` relabels the class of `from`. -/
lemma Inv.groupOf_mergeInto (h : Inv idx) (hf : idx.conflictGroups from_ = some f) :
    (idx.mergeInto into from_).groupOf = relabel idx.groupOf from_ into := by
  have hmem := h.members from_ f hf
  funext s
  cases s with
  | schema c =>
    have hl : ∀ c, c ∈ f.schemas ↔ idx.schemaInstructions c = some from_ := fun c => by
      simpa [groupOf] using hmem (.schema c)
    simp only [groupOf, mergeInto, group_of_some hf, foldl_update_eq_relabel hl]
    rfl
  | object o =>
    have hl : ∀ o, o ∈ f.objects ↔ idx.objectInstructions o = some from_ := fun o => by
      simpa [groupOf] using hmem (.object o)
    simp only [groupOf, mergeInto, group_of_some hf, foldl_update_eq_relabel hl]
    rfl

/-- The merged group at `into`. -/
lemma conflictGroups_mergeInto (hi : idx.conflictGroups into = some i)
    (hf : idx.conflictGroups from_ = some f) (g : Nat) :
    (idx.mergeInto into from_).conflictGroups g =
      if g = from_ then none
      else if g = into then some (i.absorb f) else idx.conflictGroups g := by
  simp only [mergeInto, group_of_some hi, group_of_some hf, Function.update_apply]

lemma Inv.mergeInto (h : Inv idx) (hne : into ≠ from_) (hi : idx.conflictGroups into = some i)
    (hf : idx.conflictGroups from_ = some f) : Inv (idx.mergeInto into from_) := by
  have hgroup : (idx.mergeInto into from_).groupOf = relabel idx.groupOf from_ into :=
    h.groupOf_mergeInto hf
  have hgroups := conflictGroups_mergeInto hi hf
  constructor
  · -- a pointer to `from` now names `into`, any other still names its group
    intro s g hs
    rw [hgroups]
    rw [hgroup, relabel_eq_some_iff] at hs
    rcases hs with ⟨-, rfl⟩ | ⟨hs, hgf⟩
    · simp [hne]
    · split_ifs with h₁ h₂
      · exact absurd h₁ hgf
      · simp
      · exact h.live s g hs
  · intro g cg hcg s
    rw [hgroups] at hcg
    rw [hgroup, relabel_eq_some_iff]
    -- `from` is gone, so the group is the merged one or an untouched one
    split_ifs at hcg with h₁ h₂
    · -- the merged group lists the members of both
      cases hcg
      subst h₂
      rw [mem_members_absorb, h.members g i hi, h.members from_ f hf]
      constructor
      · rintro (hs | hs)
        · exact Or.inr ⟨hs, hne⟩
        · exact Or.inl ⟨hs, rfl⟩
      · rintro (⟨hs, -⟩ | ⟨hs, -⟩)
        · exact Or.inr hs
        · exact Or.inl hs
    · rw [h.members g cg hcg s]
      constructor
      · intro hs
        exact Or.inr ⟨hs, h₁⟩
      · rintro (⟨-, rfl⟩ | ⟨hs, -⟩)
        · exact absurd rfl h₂
        · exact hs
  · intro g hg
    have hi' := h.lt_nextAddress (g := into) (by simp [hi])
    have hf' := h.lt_nextAddress (g := from_) (by simp [hf])
    have hnext : (idx.mergeInto into from_).nextAddress = idx.nextAddress := rfl
    rw [hnext] at hg
    rw [hgroups, if_neg (by omega), if_neg (by omega)]
    exact h.fresh g hg
  · intro g cg hcg c
    rw [hgroups] at hcg
    split_ifs at hcg with h₁ h₂
    · cases hcg
      exact h.separated into i hi c
    · exact h.separated g cg hcg c

/-- `merge_conflict_groups` keeps the pointers sound. -/
lemma Inv.mergeConflictGroups (h : Inv idx) {g₁ g₂ : Nat} (h₁ : idx.conflictGroups g₁ ≠ none)
    (h₂ : idx.conflictGroups g₂ ≠ none) : Inv (idx.mergeConflictGroups g₁ g₂) := by
  obtain ⟨i, hi⟩ := Option.ne_none_iff_exists'.mp h₁
  obtain ⟨f, hf⟩ := Option.ne_none_iff_exists'.mp h₂
  unfold ChangesetIndex.mergeConflictGroups
  split_ifs with hne hsize
  · exact h
  · exact h.mergeInto (Ne.symm hne) hf hi
  · exact h.mergeInto hne hi hf

/-- `merge_conflict_groups` joins the two classes, whichever way it points them. -/
lemma Inv.sameLabel_mergeConflictGroups (h : Inv idx) {g₁ g₂ : Nat}
    (h₁ : idx.conflictGroups g₁ ≠ none) (h₂ : idx.conflictGroups g₂ ≠ none) (x y : Subject S) :
    SameLabel (idx.mergeConflictGroups g₁ g₂).groupOf x y ↔
      SameLabel (relabel idx.groupOf g₂ g₁) x y := by
  obtain ⟨i, hi⟩ := Option.ne_none_iff_exists'.mp h₁
  obtain ⟨f, hf⟩ := Option.ne_none_iff_exists'.mp h₂
  unfold ChangesetIndex.mergeConflictGroups
  split_ifs with hne hsize
  · rw [hne, relabel_self]
  · rw [h.groupOf_mergeInto hi, sameLabel_relabel_comm]
  · rw [h.groupOf_mergeInto hf]

/-! ### One instruction of the scan -/

omit [DecidableEq S] in
/-- Adding singletons of vertices that another edge holds links nothing new. -/
lemma comention_append_pair_iff (E : List (List (Subject S))) (a b x y : Subject S) :
    Comention (E ++ [[a]] ++ [[b]] ++ [[a, b]]) x y ↔ Comention (E ++ [[a, b]]) x y := by
  simp only [comention_append_iff, List.mem_cons, List.not_mem_nil, or_false]
  constructor
  · rintro (((h | ⟨rfl, rfl⟩) | ⟨rfl, rfl⟩) | h)
    · exact Or.inl h
    · exact Or.inr ⟨Or.inl rfl, Or.inl rfl⟩
    · exact Or.inr ⟨Or.inr rfl, Or.inr rfl⟩
    · exact Or.inr h
  · rintro (h | h)
    · exact Or.inl (Or.inl (Or.inl h))
    · exact Or.inr h

/-- Linking the subjects of an instruction keeps the pointers sound and makes them name the
components with that instruction's subjects as one more edge. -/
lemma Inv.linkSubjects (h : Inv idx) {E : List (List (Subject S))}
    (hr : Represents idx.groupOf E) (l : List (Subject S)) (hl : l.length ≤ 2) :
    Inv (idx.linkSubjects l) ∧ Represents (idx.linkSubjects l).groupOf (E ++ [l]) := by
  match l, hl with
  | [], _ =>
    refine ⟨h, hr.of_comention_iff fun x y => ?_⟩
    simp [comention_append_iff]
  | [a], _ => exact ⟨h.conflictGroupOf a, h.represents_conflictGroupOf hr a⟩
  | [a, b], _ =>
    -- the group of `a`, then that of `b`, and then their merge
    rcases hg₁ : idx.conflictGroupOf a with ⟨g₁, idx₁⟩
    rcases hg₂ : idx₁.conflictGroupOf b with ⟨g₂, idx₂⟩
    have h₁ : Inv idx₁ := by simpa [hg₁] using h.conflictGroupOf a
    have hr₁ : Represents idx₁.groupOf (E ++ [[a]]) := by
      simpa [hg₁] using h.represents_conflictGroupOf hr a
    have ha₁ : idx₁.groupOf a = some g₁ := by simpa [hg₁] using @groupOf_conflictGroupOf S _ idx a
    have h₂ : Inv idx₂ := by simpa [hg₂] using h₁.conflictGroupOf b
    have hr₂ : Represents idx₂.groupOf (E ++ [[a]] ++ [[b]]) := by
      simpa [hg₂] using h₁.represents_conflictGroupOf hr₁ b
    have ha₂ : idx₂.groupOf a = some g₁ := by
      simpa [hg₂] using groupOf_conflictGroupOf_of_some (s := b) ha₁
    have hb₂ : idx₂.groupOf b = some g₂ := by
      simpa [hg₂] using @groupOf_conflictGroupOf S _ idx₁ b
    have hlive₁ := h₂.live a g₁ ha₂
    have hlive₂ := h₂.live b g₂ hb₂
    simp only [ChangesetIndex.linkSubjects, hg₁, hg₂]
    refine ⟨h₂.mergeConflictGroups hlive₁ hlive₂, ?_⟩
    have hmerged := represents_relabel hr₂ ha₂ hb₂
    refine (hmerged.congr (h₂.sameLabel_mergeConflictGroups hlive₁ hlive₂)).of_comention_iff ?_
    exact comention_append_pair_iff E a b

omit [DecidableEq S] in
/-- An instruction names at most two classes or objects. -/
lemma length_subjects_le (instr : Instruction S R) : instr.subjects.length ≤ 2 := by
  have hlink : ∀ v : Payload S R, v.linkTarget?.toList.length ≤ 1 := by
    intro v
    cases v <;> simp [Payload.linkTarget?]
  cases instr <;> simp only [Instruction.subjects, getObjectIdsInInstruction, List.map_cons,
    List.map_nil, List.length_cons, List.length_nil, List.length_map, Nat.reduceLeDiff]
  case addColumn => split <;> simp
  all_goals first | omega | (have hv := hlink ‹_›; omega)

omit [DecidableEq S] in
/-- Every instruction but a destructive schema change names something. -/
lemma subjects_ne_nil {instr : Instruction S R} (h : instr.isDestructiveSchemaChange = false) :
    instr.subjects ≠ [] := by
  cases instr <;> simp_all [Instruction.isDestructiveSchemaChange, Instruction.subjects,
    getObjectIdsInInstruction]
  case addColumn => split <;> simp

/-- The flag of destructive schema changes, which only `scanLoop` sets. -/
@[simp] lemma containsDestructiveSchemaChanges_conflictGroupOf (s : Subject S) :
    (idx.conflictGroupOf s).2.containsDestructiveSchemaChanges =
      idx.containsDestructiveSchemaChanges := by
  unfold conflictGroupOf
  split
  · rfl
  · cases s <;> rfl

@[simp] lemma containsDestructiveSchemaChanges_mergeConflictGroups (g₁ g₂ : Nat) :
    (idx.mergeConflictGroups g₁ g₂).containsDestructiveSchemaChanges =
      idx.containsDestructiveSchemaChanges := by
  unfold mergeConflictGroups
  split_ifs <;> rfl

@[simp] lemma containsDestructiveSchemaChanges_linkSubjects (l : List (Subject S)) :
    (idx.linkSubjects l).containsDestructiveSchemaChanges =
      idx.containsDestructiveSchemaChanges := by
  match l with
  | [] => rfl
  | [a] => simp [linkSubjects]
  | a :: b :: _ => simp [linkSubjects]

end ChangesetIndex

end Realm.Sync
