import Mathlib
import RealmCore.Lib.Transform
import RealmCore.Sync.ArrayMerge

/-!
# Operational transformation of the instructions on one list

`Transformer::merge_changesets` (src/realm/sync/transform.cpp) transforms each of our
changesets in turn through the incoming ones: `TransformerImpl::transform` takes each of our
instructions (the major side) through the incoming instructions of its conflict group (the
minor side) with `transform_major`, which calls `merge_instructions` on each pair until the
major instruction is discarded, and rewrites or discards the minor instructions in place.  All
instructions on the elements of one list are in one conflict group, so on such instructions the
transformation is the loop `Transform.transform` with the merge `mergeInstructions`, every
instruction tagged with the discriminant of its changeset.

The applier `applyValid` is `InstructionApplier` on an instruction that was made for a list of
the size it meets (`ArrayInstr.Valid`).  The results:

* `mergeInstructions_converges`: two valid instructions that apply to a list are merged without
  `bad_merge`, and what is left of each applies after the other, to one common list;
* `transform_arrays_converges`: the same for two sequences of instructions, through the whole
  transformation loop;
* `peers_converge`: the peer at the other end of the connection, which transforms our sequence
  through its own with the same merge (so each pair of instructions with the sides exchanged),
  computes the same instructions, for changesets with distinct discriminants; so the two peers
  end in one list.
-/

namespace Realm.Sync

open ListSource Transform

variable {S R : Type}

namespace ArrayInstr

variable {accepts : Payload S R → Bool} {x o : ArrayInstr S R}

/-- An instruction of the kind of another, with its value, passes the column checks as the other
does. -/
lemma SameKind.accepted_eq (h : x.SameKind o) : x.accepted accepts = o.accepted accepts := by
  obtain ⟨htype, hvalue⟩ := h
  cases x <;> cases o <;> simp_all [type, value?, accepted]

end ArrayInstr

/-! ## The applier on valid instructions -/

section Apply

variable {accepts : Payload S R → Bool} {L L' : List (Payload S R)} {o : ArrayInstr S R}

/-- `InstructionApplier` on an instruction made for a list of the size it meets: `none` where
the instruction is not valid on the list, or where the applier throws. -/
def applyValid (accepts : Payload S R → Bool) (L : List (Payload S R)) (o : ArrayInstr S R) :
    Option (List (Payload S R)) :=
  if o.Valid L.length then (applyArrayInstr accepts L o).toOption else none

lemma applyValid_eq_some_iff :
    applyValid accepts L o = some L' ↔ o.Valid L.length ∧ applyArrayInstr accepts L o = .ok L' := by
  unfold applyValid
  split_ifs with hv
  · cases h : applyArrayInstr accepts L o <;> simp [hv, Except.toOption]
  · simp [hv]

/-- A valid instruction that applies has the effect `run`, and its value passes the checks. -/
lemma eq_run_of_applyValid (h : applyValid accepts L o = some L') :
    o.Valid L.length ∧ o.accepted accepts = true ∧ L' = o.run L := by
  obtain ⟨hv, happ⟩ := applyValid_eq_some_iff.1 h
  have hacc := ArrayInstr.accepted_of_applyArrayInstr happ
  rw [ArrayInstr.applyArrayInstr_eq_ok hv hacc, Except.ok.injEq] at happ
  exact ⟨hv, hacc, happ.symm⟩

/-- What is left of an instruction after a merge, valid and of a value that passes the checks,
applies with the effect `runOpt`. -/
lemma applyAll_runOpt {o' : Option (ArrayInstr S R)} (hv : ∀ x ∈ o', x.Valid L.length)
    (hacc : ∀ x ∈ o', x.accepted accepts = true) :
    applyAll (applyValid accepts) L o'.toList = some (ArrayInstr.runOpt L o') := by
  cases o' with
  | none => rfl
  | some x =>
    have hx := ArrayInstr.applyArrayInstr_eq_ok (hv x rfl) (hacc x rfl)
    rw [Option.toList_some, applyAll_singleton]
    exact applyValid_eq_some_iff.2 ⟨hv x rfl, hx⟩

end Apply

/-! ## Two instructions -/

section Pair

variable {accepts : Payload S R → Bool} {L : List (Payload S R)} {a b : ArrayInstr S R}
  {a' b' : Option (ArrayInstr S R)}

/-- Two valid instructions whose values pass the checks, joined by a merge: what is left of each
is valid after the other and applies, and the two orders end in one list. -/
lemma ArrayInstr.Joins.applies (hj : ArrayInstr.Joins L.length a b a' b')
    (ha : a.Valid L.length) (hb : b.Valid L.length) (hacca : a.accepted accepts = true)
    (haccb : b.accepted accepts = true) :
    (∀ x ∈ b', x.Valid (a.run L).length) ∧ (∀ x ∈ a', x.Valid (b.run L).length) ∧
      ∃ L', applyAll (applyValid accepts) (a.run L) b'.toList = some L' ∧
        applyAll (applyValid accepts) (b.run L) a'.toList = some L' := by
  have hvb : ∀ x ∈ b', x.Valid (a.run L).length := by
    rw [ArrayInstr.length_run ha]
    exact hj.valid_right
  have hva : ∀ x ∈ a', x.Valid (b.run L).length := by
    rw [ArrayInstr.length_run hb]
    exact hj.valid_left
  -- what is left of each keeps its value, so the column takes it
  refine ⟨hvb, hva, ArrayInstr.runOpt (a.run L) b', ?_, ?_⟩
  · exact applyAll_runOpt hvb fun x hx => (hj.kind_right x hx).accepted_eq.trans haccb
  · rw [hj.runOpt_eq ha hb]
    exact applyAll_runOpt hva fun x hx => (hj.kind_left x hx).accepted_eq.trans hacca

/-- The merge of two valid instructions that apply to one list succeeds, leaves of each an
instruction valid after the other, and the two orders end in one list. -/
theorem mergeInstructions_converges (major minor : Discriminant × ArrayInstr S R)
    {La Lb : List (Payload S R)} (ha : major.2.Valid L.length) (hb : minor.2.Valid L.length)
    (hLa : applyArrayInstr accepts L major.2 = .ok La)
    (hLb : applyArrayInstr accepts L minor.2 = .ok Lb) :
    ∃ a' b', mergeInstructions major minor = .ok (a', b') ∧
      (∀ x ∈ b', x.Valid La.length) ∧ (∀ x ∈ a', x.Valid Lb.length) ∧
      ∃ L', applyAll (applyValid accepts) La b'.toList = some L' ∧
        applyAll (applyValid accepts) Lb a'.toList = some L' := by
  obtain ⟨a', b', hm, hj⟩ := ArrayInstr.joins_merge major.1 minor.1 ha hb
  have hacca := ArrayInstr.accepted_of_applyArrayInstr hLa
  have haccb := ArrayInstr.accepted_of_applyArrayInstr hLb
  rw [ArrayInstr.applyArrayInstr_eq_ok ha hacca, Except.ok.injEq] at hLa
  rw [ArrayInstr.applyArrayInstr_eq_ok hb haccb, Except.ok.injEq] at hLb
  subst hLa hLb
  exact ⟨a', b', hm, hj.applies ha hb hacca haccb⟩

/-- An insertion at the front against the move of the first element to the end of a list of two
elements. -/
theorem mergeInstructions_converges_insert_move :
    ∃ a' b', mergeInstructions (S := Unit) (R := Unit) (⟨1, 1⟩, .arrayInsert 0 (.bool true) 2)
        (⟨2, 2⟩, .arrayMove 0 1 2) = .ok (a', b') ∧
      (∀ x ∈ b', x.Valid 3) ∧ (∀ x ∈ a', x.Valid 2) ∧
      ∃ L', applyAll (applyValid fun _ => true) [.bool true, .bool false, .null] b'.toList = some L' ∧
        applyAll (applyValid fun _ => true) [.null, .bool false] a'.toList = some L' :=
  @mergeInstructions_converges Unit Unit (fun _ => true) [.bool false, .null]
    (⟨1, 1⟩, .arrayInsert 0 (.bool true) 2) (⟨2, 2⟩, .arrayMove 0 1 2)
    [.bool true, .bool false, .null] [.null, .bool false] (by decide) (by decide) rfl rfl

/-- The merge converges for the applier on valid instructions, whatever the discriminants of
the two changesets. -/
lemma converges_mergeInstructions :
    Converges (applyValid accepts) (mergeInstructions (S := S) (R := R)) fun _ _ => True := by
  intro L La Lb major minor _ h₁ h₂
  obtain ⟨ha, hacca, rfl⟩ := eq_run_of_applyValid h₁
  obtain ⟨hb, haccb, rfl⟩ := eq_run_of_applyValid h₂
  obtain ⟨a', b', hm, hj⟩ := ArrayInstr.joins_merge major.1 minor.1 ha hb
  obtain ⟨-, -, hL⟩ := hj.applies ha hb hacca haccb
  exact ⟨a', b', hm, hL⟩

end Pair

/-! ## Two sequences -/

/-- Two sequences of valid instructions on one list, each instruction tagged with the
discriminant of its changeset, that both apply to a list: the transformation of our sequence
through the incoming one succeeds, and the incoming sequence as transformed, applied after ours,
and ours as transformed, applied after the incoming one, end in one list. -/
theorem transform_arrays_converges (accepts : Payload S R → Bool)
    (majors minors : List (Discriminant × ArrayInstr S R)) {L L₁ L₂ : List (Payload S R)}
    (h₁ : applyAll (applyValid accepts) L (majors.map Prod.snd) = some L₁)
    (h₂ : applyAll (applyValid accepts) L (minors.map Prod.snd) = some L₂) :
    ∃ majors' minors', transform mergeInstructions majors minors = .ok (majors', minors') ∧
      ∃ L', applyAll (applyValid accepts) L₁ (minors'.map Prod.snd) = some L' ∧
        applyAll (applyValid accepts) L₂ (majors'.map Prod.snd) = some L' :=
  transform_converges converges_mergeInstructions majors minors L L₁ L₂
    (fun _ _ _ _ => trivial) h₁ h₂

/-- An insertion of ours against a move and an erase of theirs on a list of two elements. -/
theorem transform_arrays_converges_three :
    ∃ majors' minors', transform mergeInstructions
        [(⟨1, 1⟩, .arrayInsert 0 (.bool true) 2)]
        [(⟨2, 2⟩, .arrayMove 0 1 2), (⟨2, 2⟩, .arrayErase 0 2)] = .ok (majors', minors') ∧
      ∃ L', applyAll (applyValid fun _ => true) [.bool true, .bool false, .null]
          (minors'.map Prod.snd) = some L' ∧
        applyAll (applyValid fun _ => true) ([.bool false] : List (Payload Unit Unit))
          (majors'.map Prod.snd) = some L' :=
  transform_arrays_converges _ _ _ (L := [.bool false, .null]) rfl rfl

/-! ## Exchanging the sides

The peer at the other end of a connection merges the same two instructions with the sides
exchanged.  For changesets with distinct discriminants, the order of `Discriminant::operator<`
is strict, and each rule between two instructions of one type gives the exchanged result, up to
the text of a `bad_merge` (which names the side it checks first). -/

section Swap

lemma Discriminant.lt_swap {a b : Discriminant} (h : a ≠ b) : b.lt a = !a.lt b := by
  obtain ⟨ta, fa⟩ := a
  obtain ⟨tb, fb⟩ := b
  simp only [Discriminant.lt, ne_eq, Discriminant.mk.injEq] at h ⊢
  by_cases ht : ta = tb
  · subst ht
    have hf : fa ≠ fb := fun hf => h ⟨rfl, hf⟩
    simp only [if_true]
    rcases Nat.lt_or_gt_of_ne hf with hlt | hlt <;> simp [hlt, Nat.not_lt.mpr hlt.le]
  · simp only [Ne.symm ht, ht, if_false]
    rcases Nat.lt_or_gt_of_ne ht with hlt | hlt <;> simp [hlt, Nat.not_lt.mpr hlt.le]

lemma toOption_map_swap_swap (r : MergeResult S R) :
    ((r.map Prod.swap).toOption).map Prod.swap = r.toOption := by
  cases r <;> rfl

lemma mergeUpdateUpdate_swap (leftFirst : Bool) (li lps ri rps : Nat) (lv rv : Payload S R) :
    mergeUpdateUpdate (!leftFirst) ri rv rps li lv lps =
      (mergeUpdateUpdate leftFirst li lv lps ri rv rps).map Prod.swap := by
  simp only [mergeUpdateUpdate]
  split_ifs <;> simp_all [Except.map]

lemma mergeArrayInsertArrayInsert_swap (leftFirst : Bool) (li lps ri rps : Nat)
    (lv rv : Payload S R) :
    mergeArrayInsertArrayInsert (!leftFirst) ri rv rps li lv lps =
      (mergeArrayInsertArrayInsert leftFirst li lv lps ri rv rps).map Prod.swap := by
  simp only [mergeArrayInsertArrayInsert]
  split_ifs <;> simp_all [Except.map]; omega

lemma toOption_mergeArrayEraseArrayErase_swap (li lps ri rps : Nat) :
    (mergeArrayEraseArrayErase ri rps li lps : MergeResult S R).toOption =
      (mergeArrayEraseArrayErase li lps ri rps).toOption.map Prod.swap := by
  simp only [mergeArrayEraseArrayErase]
  split_ifs <;> simp_all; omega

/-- `mergeMovesOfTwo` with the indices of each of its three steps named. -/
lemma mergeMovesOfTwo_eq (leftFirst : Bool) (li lto lps ri rto rps : Nat) :
    (mergeMovesOfTwo leftFirst li lto lps ri rto rps : MergeResult S R) =
      let lto₁ := if lto > ri then lto - 1 else lto
      let ri₁ := if lto > ri then ri else ri + 1
      let li₂ := if li < rto then li else li + 1
      let rto₂ := if li < rto then rto - 1 else rto
      let lto₃ := if lto₁ < rto₂ then lto₁ else if lto₁ > rto₂ then lto₁ + 1
        else if leftFirst then lto₁ else lto₁ + 1
      let rto₃ := if lto₁ < rto₂ then rto₂ + 1 else if lto₁ > rto₂ then rto₂
        else if leftFirst then rto₂ + 1 else rto₂
      .ok (if li₂ = lto₃ then none else some (.arrayMove li₂ lto₃ lps),
        if ri₁ = rto₃ then none else some (.arrayMove ri₁ rto₃ rps)) := by
  unfold mergeMovesOfTwo
  split
  rename_i lto₁ ri₁ h₁
  split
  rename_i li₂ rto₂ h₂
  split
  rename_i lto₃ rto₃ h₃
  split_ifs at h₁ h₂ h₃ <;> simp only [Prod.mk.injEq] at h₁ h₂ h₃ <;>
    obtain ⟨rfl, rfl⟩ := h₁ <;> obtain ⟨rfl, rfl⟩ := h₂ <;> obtain ⟨rfl, rfl⟩ := h₃ <;>
    simp (disch := first | assumption | omega) only [if_pos, if_neg]

lemma mergeMovesOfTwo_swap (leftFirst : Bool) (li lto lps ri rto rps : Nat) :
    (mergeMovesOfTwo (!leftFirst) ri rto rps li lto lps : MergeResult S R) =
      (mergeMovesOfTwo leftFirst li lto lps ri rto rps).map Prod.swap := by
  rw [mergeMovesOfTwo_eq, mergeMovesOfTwo_eq]
  dsimp only
  simp only [Except.map, Prod.swap, gt_iff_lt]
  -- the first two steps of each side are the other's two steps in the other order
  generalize (if ri < lto then lto - 1 else lto) = lto₁
  generalize (if li < rto then rto - 1 else rto) = rto₂
  generalize (if ri < lto then ri else ri + 1) = ri₁
  generalize (if li < rto then li else li + 1) = li₂
  cases leftFirst <;> split_ifs <;> simp_all <;> omega

/-- `Merge<ArrayMove, ArrayMove>` throws when a prior size or an index is not what it checks. -/
lemma toOption_mergeArrayMoveArrayMove_of_not {leftFirst : Bool} {li lto lps ri rto rps : Nat}
    (hc : ¬(lps = rps ∧ li < lps ∧ ri < rps ∧ lto < lps ∧ rto < rps)) :
    (mergeArrayMoveArrayMove leftFirst li lto lps ri rto rps : MergeResult S R).toOption = none := by
  unfold mergeArrayMoveArrayMove
  split_ifs <;> first | rfl | (exfalso; omega)

lemma toOption_mergeArrayMoveArrayMove_swap (leftFirst : Bool) (li lto lps ri rto rps : Nat) :
    (mergeArrayMoveArrayMove (!leftFirst) ri rto rps li lto lps : MergeResult S R).toOption =
      (mergeArrayMoveArrayMove leftFirst li lto lps ri rto rps).toOption.map Prod.swap := by
  by_cases hc : lps = rps ∧ li < lps ∧ ri < rps ∧ lto < lps ∧ rto < rps
  swap
  · -- a check fails on both sides
    rw [toOption_mergeArrayMoveArrayMove_of_not hc, toOption_mergeArrayMoveArrayMove_of_not (by omega),
      Option.map_none]
  obtain ⟨rfl, hli, hri, hlto, hrto⟩ := hc
  simp only [mergeArrayMoveArrayMove, ne_eq, not_true_eq_false, if_false, hli, hlto, hri, hrto]
  rcases lt_trichotomy li ri with h | rfl | h
  · rw [if_neg (not_lt.mpr h.le), if_pos h, if_pos h, mergeMovesOfTwo_swap, toOption_map]
  · cases leftFirst <;> simp
  · rw [if_pos h, if_neg (not_lt.mpr h.le), if_pos h, mergeMovesOfTwo_swap, toOption_map]

variable {a b : ArrayInstr S R}

/-- A rule between two instructions of one type, with the sides exchanged. -/
lemma toOption_mergeOrdered_swap (leftFirst : Bool) (hty : a.type = b.type) :
    (mergeOrdered (!leftFirst) b a).toOption = (mergeOrdered leftFirst a b).toOption.map Prod.swap := by
  cases a <;> cases b <;> simp only [ArrayInstr.type] at hty <;> (try omega) <;>
    simp only [mergeOrdered]
  · rw [mergeUpdateUpdate_swap, toOption_map]
  · rw [mergeArrayInsertArrayInsert_swap, toOption_map]
  · exact toOption_mergeArrayMoveArrayMove_swap leftFirst _ _ _ _ _ _
  · exact toOption_mergeArrayEraseArrayErase_swap _ _ _ _

/-- The merge of the transformer is itself with the sides exchanged, for changesets with
distinct discriminants. -/
lemma swapsWith_mergeInstructions :
    SwapsWith (mergeInstructions (S := S) (R := R)) mergeInstructions fun d d' => d ≠ d' := by
  intro x y hne
  simp only [mergeInstructions, merge]
  rcases lt_trichotomy x.2.type y.2.type with h | h | h
  · rw [if_pos h.le, if_neg (not_le.mpr h), toOption_map_swap_swap]
  · rw [if_pos h.le, if_pos h.ge, Discriminant.lt_swap hne]
    exact toOption_mergeOrdered_swap _ h
  · rw [if_neg (not_le.mpr h), if_pos h.le, toOption_map]

end Swap

/-! ## Two peers -/

/-- Two peers, each with its own sequence of valid instructions on one list applied, each
transforming the other's sequence through its own (the changesets of the two having distinct
discriminants): both transformations succeed, they compute the same instructions, and the two
peers end in one list. -/
theorem peers_converge (accepts : Payload S R → Bool)
    (ours theirs : List (Discriminant × ArrayInstr S R)) {L L₁ L₂ : List (Payload S R)}
    (hne : ∀ o ∈ ours, ∀ t ∈ theirs, o.1 ≠ t.1)
    (h₁ : applyAll (applyValid accepts) L (ours.map Prod.snd) = some L₁)
    (h₂ : applyAll (applyValid accepts) L (theirs.map Prod.snd) = some L₂) :
    ∃ ours' theirs', transform mergeInstructions ours theirs = .ok (ours', theirs') ∧
      (transform mergeInstructions theirs ours).toOption = some (theirs', ours') ∧
      ∃ L', applyAll (applyValid accepts) L₁ (theirs'.map Prod.snd) = some L' ∧
        applyAll (applyValid accepts) L₂ (ours'.map Prod.snd) = some L' := by
  obtain ⟨ours', theirs', hT, hL⟩ := transform_converges converges_mergeInstructions ours theirs
    L L₁ L₂ (fun _ _ _ _ => trivial) h₁ h₂
  -- the other peer computes the same grid with the roles exchanged
  have hswap := toOption_transform_swap swapsWith_mergeInstructions ours theirs hne
  rw [hT, toOption_ok, Option.map_some, Prod.swap_prod_mk] at hswap
  exact ⟨ours', theirs', hT, hswap.symm, hL⟩

/-- Our insertion at the front, and their move of the first element to the end and erase of the
new first element, on a list of two elements. -/
theorem peers_converge_three :
    ∃ ours' theirs', transform mergeInstructions [(⟨1, 1⟩, .arrayInsert 0 (.bool true) 2)]
        [(⟨2, 2⟩, .arrayMove 0 1 2), (⟨2, 2⟩, .arrayErase 0 2)] = .ok (ours', theirs') ∧
      (transform mergeInstructions [(⟨2, 2⟩, .arrayMove 0 1 2), (⟨2, 2⟩, .arrayErase 0 2)]
        [(⟨1, 1⟩, .arrayInsert 0 (.bool true) 2)]).toOption = some (theirs', ours') ∧
      ∃ L', applyAll (applyValid fun _ => true) [.bool true, .bool false, .null]
          (theirs'.map Prod.snd) = some L' ∧
        applyAll (applyValid fun _ => true) ([.bool false] : List (Payload Unit Unit))
          (ours'.map Prod.snd) = some L' :=
  peers_converge _ _ _ (L := [.bool false, .null]) (by decide) rfl rfl

end Realm.Sync
