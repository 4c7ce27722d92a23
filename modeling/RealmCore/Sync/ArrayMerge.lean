import Mathlib
import RealmCore.Sync.ArrayApply

/-!
# The merge rules of the list instructions

`TransformerImpl::merge_instructions` (src/realm/sync/transform.cpp) merges an instruction of
the changeset being transformed (the major side) with one of the other side (the minor side).
It dispatches to `Merge<A, B>::merge(left, right, left_side, right_side)`, where the type of
`left` is at least that of `right`: the major instruction is `left` unless its type is lower,
in which case the rule is called with the two sides exchanged.  A rule rewrites the indices
and prior sizes of both instructions so that each applies after the other, may discard either,
and throws `bad_merge` when the two were not made for one list.  Where two instructions
conflict, the rule orders them by the timestamps of their changesets
(`left_side.timestamp() < right_side.timestamp()`).

This module models the ten rules between `ArrayInsert`, `ArrayMove`, `ArrayErase` and the
`Update` of a list element, on one list: `same_container` of two such instructions holds, and
`same_path` compares their indices.  Each rule is a function of the fields of its two
instructions that returns what is left of each (`none` for a discarded one), in the order of
the statements of the C++ rule.

`Joins n a b a' b'` states what the rules are for: on a list of `n` elements, `b'` is valid
after `a`, `a'` is valid after `b`, and both orders have the same sources.  Every rule joins
two valid instructions (`joins_mergeOrdered`), the dispatch with the sides exchanged too
(`joins_merge`), and so two valid instructions that apply to a list are merged into
instructions that apply after each other and bring both results to one list
(`merge_valid_converges`).
-/

namespace Realm.Sync

open ListSource

/-- `Discriminant`: the origin timestamp and file of a changeset. -/
structure Discriminant where
  timestamp : Nat
  clientFileIdent : Nat
deriving DecidableEq, Repr

/-- `Discriminant::operator<`: by timestamp, and by file for one timestamp. -/
def Discriminant.lt (a b : Discriminant) : Bool :=
  if a.timestamp = b.timestamp then a.clientFileIdent < b.clientFileIdent
  else a.timestamp < b.timestamp

/-- What is left of the left and the right instruction after a rule, or the `bad_merge`. -/
abbrev MergeResult (S R : Type) := Except String (Option (ArrayInstr S R) × Option (ArrayInstr S R))

section Rules

variable {S R : Type}

open ArrayInstr

/-- `MergeUtils::merge_get_vs_move`: the index of an element after the move of the element at
`moveFrom` to `moveTo`. -/
def mergeGetVsMove (getNdx moveFrom moveTo : Nat) : Nat :=
  if getNdx = moveFrom then moveTo
  else
    -- right update vs left remove, then right update vs left insert
    let getNdx := if getNdx > moveFrom then getNdx - 1 else getNdx
    if getNdx ≥ moveTo then getNdx + 1 else getNdx

/-- `Merge<Update, Update>` on two list elements: only updates of one element conflict; an
embedded object loses to a value of another type, two nested lists or dictionaries both stay,
and otherwise the later update wins. -/
def mergeUpdateUpdate (leftFirst : Bool) (li : Nat) (lv : Payload S R) (lps ri : Nat)
    (rv : Payload S R) (rps : Nat) : MergeResult S R :=
  let left := update li lv lps
  let right := update ri rv rps
  -- the later update wins: the earlier one is discarded on both sides
  let lastWriterWins : MergeResult S R :=
    if leftFirst then .ok (none, some right) else .ok (some left, none)
  if li = ri then
    if lps ≠ rps then .error "Merge error: left.prior_size == right.prior_size"
    else if lv.type ≠ rv.type then
      if lv.type = .objectValue then .ok (none, some right)
      else if rv.type = .objectValue then .ok (some left, none)
      else lastWriterWins
    else if lv.type = .list ∨ lv.type = .dictionary then .ok (some left, some right)
    else lastWriterWins
  else .ok (some left, some right)

/-- `Merge<ArrayInsert, Update>`: the update moves up past an insertion at or below it. -/
def mergeArrayInsertUpdate (li : Nat) (lv : Payload S R) (lps ri : Nat) (rv : Payload S R)
    (rps : Nat) : MergeResult S R :=
  if lps ≠ rps then .error "Merge error: left.prior_size == right.prior_size"
  else if ¬li ≤ lps then .error "Merge error: left.index() <= left.prior_size"
  else if ¬ri < rps then .error "Merge error: right.index() < right.prior_size"
  else .ok (some (arrayInsert li lv lps), some (update (if ri ≥ li then ri + 1 else ri) rv (rps + 1)))

/-- `Merge<ArrayMove, Update>`: the update follows its element. -/
def mergeArrayMoveUpdate (li lto lps ri : Nat) (rv : Payload S R) (rps : Nat) : MergeResult S R :=
  if ¬li < lps then .error "Merge error: left.index() < left.prior_size"
  else if ¬ri < rps then .error "Merge error: right.index() < right.prior_size"
  else .ok (some (arrayMove li lto lps), some (update (mergeGetVsMove ri li lto) rv rps))

/-- `Merge<ArrayErase, Update>`: the update of an erased element is discarded, one above the
erased element moves down. -/
def mergeArrayEraseUpdate (li lps ri : Nat) (rv : Payload S R) (rps : Nat) : MergeResult S R :=
  if lps ≠ rps then .error "Merge error: left.prior_size == right.prior_size"
  else if ¬li < lps then .error "Merge error: left.index() < left.prior_size"
  else if ¬ri < rps then .error "Merge error: right.index() < right.prior_size"
  else
    let rps := rps - 1
    if li = ri then .ok (some (arrayErase li lps), none)
    else .ok (some (arrayErase li lps), some (update (if ri > li then ri - 1 else ri) rv rps))

/-- `Merge<ArrayInsert, ArrayInsert>`: the higher insertion moves up; of two insertions at one
position the earlier one comes first. -/
def mergeArrayInsertArrayInsert (leftFirst : Bool) (li : Nat) (lv : Payload S R) (lps ri : Nat)
    (rv : Payload S R) (rps : Nat) : MergeResult S R :=
  if lps ≠ rps then .error "Exception: left.prior_size == right.prior_size"
  else
    let lps := lps + 1
    let rps := rps + 1
    let (li, ri) :=
      if li > ri then (li + 1, ri)
      else if li < ri then (li, ri + 1)
      else if leftFirst then (li, ri + 1) else (li + 1, ri)
    .ok (some (arrayInsert li lv lps), some (arrayInsert ri rv rps))

/-- `Merge<ArrayMove, ArrayInsert>`: the move as an erase and an insertion, each against the
insertion. -/
def mergeArrayMoveArrayInsert (leftFirst : Bool) (li lto lps ri : Nat) (rv : Payload S R)
    (rps : Nat) : MergeResult S R :=
  let lps := lps + 1
  -- left removal vs right insertion
  let (ri, li) := if ri > li then (ri - 1, li) else (ri, li + 1)
  -- left insertion vs right insertion
  let (lto, ri) :=
    if ri < lto then (lto + 1, ri)
    else if ri > lto then (lto, ri + 1)
    else if leftFirst then (lto + 1, ri) else (lto, ri + 1)
  .ok (some (arrayMove li lto lps), some (arrayInsert ri rv rps))

/-- `Merge<ArrayErase, ArrayInsert>`. -/
def mergeArrayEraseArrayInsert (li lps ri : Nat) (rv : Payload S R) (rps : Nat) :
    MergeResult S R :=
  if lps ≠ rps then .error "Merge error: left.prior_size == right.prior_size"
  else if ¬li < lps then .error "Merge error: left.index() < left.prior_size"
  else if ¬ri ≤ rps then .error "Merge error: right.index() <= right.prior_size"
  else
    let lps := lps + 1
    let rps := rps - 1
    if ri ≤ li then .ok (some (arrayErase (li + 1) lps), some (arrayInsert ri rv rps))
    else .ok (some (arrayErase li lps), some (arrayInsert (ri - 1) rv rps))

/-- The second half of `Merge<ArrayMove, ArrayMove>`, for moves of two different elements: each
move as an erase and an insertion, against the other's erase and insertion, and a move that
ends where it starts discarded. -/
def mergeMovesOfTwo (leftFirst : Bool) (li lto lps ri rto rps : Nat) : MergeResult S R :=
  -- left insertion vs right removal
  let (lto, ri) := if lto > ri then (lto - 1, ri) else (lto, ri + 1)
  -- left removal vs right insertion
  let (li, rto) := if li < rto then (li, rto - 1) else (li + 1, rto)
  -- left insertion vs right insertion
  let (lto, rto) :=
    if lto < rto then (lto, rto + 1)
    else if lto > rto then (lto + 1, rto)
    else if leftFirst then (lto, rto + 1) else (lto + 1, rto)
  .ok (if li = lto then none else some (arrayMove li lto lps),
    if ri = rto then none else some (arrayMove ri rto rps))

/-- `Merge<ArrayMove, ArrayMove>`: two moves of one element keep the later one. -/
def mergeArrayMoveArrayMove (leftFirst : Bool) (li lto lps ri rto rps : Nat) : MergeResult S R :=
  if lps ≠ rps then .error "Merge error: left.prior_size == right.prior_size"
  else if ¬li < lps then .error "Merge error: left.index() < left.prior_size"
  else if ¬ri < rps then .error "Merge error: right.index() < right.prior_size"
  else if ¬lto < lps then .error "Merge error: left.ndx_2 < left.prior_size"
  else if ¬rto < rps then .error "Merge error: right.ndx_2 < right.prior_size"
  else if li < ri then mergeMovesOfTwo leftFirst li lto lps (ri - 1) rto rps
  else if li > ri then mergeMovesOfTwo leftFirst (li - 1) lto lps ri rto rps
  else if leftFirst then
    -- the right move wins: it moves the element from where the left one put it
    .ok (none, if lto = rto then none else some (arrayMove lto rto rps))
  else .ok (if rto = lto then none else some (arrayMove rto lto lps), none)

/-- `Merge<ArrayErase, ArrayMove>`: the erase of a moved element erases it where it went. -/
def mergeArrayEraseArrayMove (li lps ri rto rps : Nat) : MergeResult S R :=
  if lps ≠ rps then .error "Merge error: left.prior_size == right.prior_size"
  else if ¬li < lps then .error "Merge error: left.index() < left.prior_size"
  else if ¬ri < rps then .error "Merge error: right.index() < right.prior_size"
  else
    let rps := rps - 1
    if li = ri then .ok (some (arrayErase rto lps), none)
    else
      -- left removal vs right removal
      let (li, ri) := if li > ri then (li - 1, ri) else (li, ri - 1)
      -- left removal vs right insertion
      let (li, rto) := if li ≥ rto then (li + 1, rto) else (li, rto - 1)
      .ok (some (arrayErase li lps), if ri = rto then none else some (arrayMove ri rto rps))

/-- `Merge<ArrayErase, ArrayErase>`: two erases of one element both vanish. -/
def mergeArrayEraseArrayErase (li lps ri rps : Nat) : MergeResult S R :=
  if lps ≠ rps then .error "Merge error: left.prior_size == right.prior_size"
  else if ¬li < lps then .error "Merge error: left.index() < left.prior_size"
  else if ¬ri < rps then .error "Merge error: right.index() < right.prior_size"
  else
    let lps := lps - 1
    let rps := rps - 1
    if li > ri then .ok (some (arrayErase (li - 1) lps), some (arrayErase ri rps))
    else if li < ri then .ok (some (arrayErase li lps), some (arrayErase (ri - 1) rps))
    else .ok (none, none)

/-- `Merge<A, B>` for a left instruction of a type at least that of the right one. -/
def mergeOrdered (leftFirst : Bool) : ArrayInstr S R → ArrayInstr S R → MergeResult S R
  | update li lv lps, update ri rv rps => mergeUpdateUpdate leftFirst li lv lps ri rv rps
  | arrayInsert li lv lps, update ri rv rps => mergeArrayInsertUpdate li lv lps ri rv rps
  | arrayMove li lto lps, update ri rv rps => mergeArrayMoveUpdate li lto lps ri rv rps
  | arrayErase li lps, update ri rv rps => mergeArrayEraseUpdate li lps ri rv rps
  | arrayInsert li lv lps, arrayInsert ri rv rps =>
    mergeArrayInsertArrayInsert leftFirst li lv lps ri rv rps
  | arrayMove li lto lps, arrayInsert ri rv rps =>
    mergeArrayMoveArrayInsert leftFirst li lto lps ri rv rps
  | arrayErase li lps, arrayInsert ri rv rps => mergeArrayEraseArrayInsert li lps ri rv rps
  | arrayMove li lto lps, arrayMove ri rto rps =>
    mergeArrayMoveArrayMove leftFirst li lto lps ri rto rps
  | arrayErase li lps, arrayMove ri rto rps => mergeArrayEraseArrayMove li lps ri rto rps
  | arrayErase li lps, arrayErase ri rps => mergeArrayEraseArrayErase li lps ri rps
  -- not reached: the left type is the lower one
  | left, right => .ok (some left, some right)

/-- `Merge<A, B>::merge(left, right, left_side, right_side)`, with the implementation that
reverses the order when the type of the left instruction is the lower. -/
def merge (leftTs rightTs : Discriminant) (left right : ArrayInstr S R) : MergeResult S R :=
  if right.type ≤ left.type then mergeOrdered (leftTs.lt rightTs) left right
  else (mergeOrdered (rightTs.lt leftTs) right left).map Prod.swap

/-- `TransformerImpl::merge_instructions` on a major and a minor instruction with the
discriminants of their changesets: what is left of the major and of the minor one. -/
def mergeInstructions (major minor : Discriminant × ArrayInstr S R) : MergeResult S R :=
  merge major.1 minor.1 major.2 minor.2

end Rules

namespace ArrayInstr

variable {S R : Type} {n : Nat} {a b : ArrayInstr S R} {a' b' : Option (ArrayInstr S R)}

/-- `x` is an instruction of the kind of `o` with its value: a merge changes only indices and
prior sizes. -/
def SameKind (x o : ArrayInstr S R) : Prop := x.type = o.type ∧ x.value? = o.value?

/-- What is left of two instructions on a list of `n` elements after a merge: what is left of
each is valid after the other and of its kind, and both orders have the same sources. -/
structure Joins (n : Nat) (a b : ArrayInstr S R) (a' b' : Option (ArrayInstr S R)) : Prop where
  valid_right : ∀ x ∈ b', x.Valid (a.sizeAfter n)
  valid_left : ∀ x ∈ a', x.Valid (b.sizeAfter n)
  kind_right : ∀ x ∈ b', x.SameKind b
  kind_left : ∀ x ∈ a', x.SameKind a
  source_eq : ∀ k, (sourceOpt b' k).bind a.source = (sourceOpt a' k).bind b.source

lemma Joins.symm (h : Joins n a b a' b') : Joins n b a b' a' :=
  ⟨h.valid_left, h.valid_right, h.kind_left, h.kind_right, fun k => (h.source_eq k).symm⟩

/-- Two instructions that both stay. -/
lemma joins_some_some {a₁ b₁ : ArrayInstr S R} (hb : b₁.Valid (a.sizeAfter n))
    (ha : a₁.Valid (b.sizeAfter n)) (hkb : b₁.SameKind b) (hka : a₁.SameKind a)
    (h : ∀ k, (b₁.source k).bind a.source = (a₁.source k).bind b.source) :
    Joins n a b (some a₁) (some b₁) :=
  ⟨fun _ hx => Option.mem_some_iff.mp hx ▸ hb, fun _ hx => Option.mem_some_iff.mp hx ▸ ha,
    fun _ hx => Option.mem_some_iff.mp hx ▸ hkb, fun _ hx => Option.mem_some_iff.mp hx ▸ hka, h⟩

/-- The left instruction discarded. -/
lemma joins_none_some {b₁ : ArrayInstr S R} (hb : b₁.Valid (a.sizeAfter n)) (hkb : b₁.SameKind b)
    (h : ∀ k, (b₁.source k).bind a.source = b.source k) : Joins n a b none (some b₁) :=
  ⟨fun _ hx => Option.mem_some_iff.mp hx ▸ hb, fun _ hx => absurd hx (Option.not_mem_none _),
    fun _ hx => Option.mem_some_iff.mp hx ▸ hkb, fun _ hx => absurd hx (Option.not_mem_none _), h⟩

/-- The right instruction discarded. -/
lemma joins_some_none {a₁ : ArrayInstr S R} (ha : a₁.Valid (b.sizeAfter n)) (hka : a₁.SameKind a)
    (h : ∀ k, a.source k = (a₁.source k).bind b.source) : Joins n a b (some a₁) none :=
  ⟨fun _ hx => absurd hx (Option.not_mem_none _), fun _ hx => Option.mem_some_iff.mp hx ▸ ha,
    fun _ hx => absurd hx (Option.not_mem_none _), fun _ hx => Option.mem_some_iff.mp hx ▸ hka, h⟩

/-- Both instructions discarded. -/
lemma joins_none_none (h : ∀ k, a.source k = b.source k) : Joins n a b none none :=
  ⟨fun _ hx => absurd hx (Option.not_mem_none _), fun _ hx => absurd hx (Option.not_mem_none _),
    fun _ hx => absurd hx (Option.not_mem_none _), fun _ hx => absurd hx (Option.not_mem_none _), h⟩

end ArrayInstr

/-! ## The kinds of payload an `Update` rule compares -/

section PayloadType

variable {S R : Type} {v : Payload S R}

lemma Payload.isObjectValue_eq_decide : v.isObjectValue = decide (v.type = .objectValue) := by
  cases v <;> rfl

lemma Payload.eq_list_of_type (h : v.type = .list) : v = .list := by
  cases v <;> simp_all [Payload.type]

lemma Payload.eq_dictionary_of_type (h : v.type = .dictionary) : v = .dictionary := by
  cases v <;> simp_all [Payload.type]

end PayloadType

/-! ## Every rule joins two valid instructions

Each rule is taken apart along its own branches; in each, the indices it computes are checked
against the other instruction (`Valid`), and the sources of the two orders are compared position
by position, which is linear arithmetic over the branches of the sources. -/

namespace ArrayInstr

variable {S R : Type} {n : Nat}

set_option linter.unusedTactic false
set_option linter.unreachableTactic false

/-- The later of two updates of one element decides its value, unless it only creates an
embedded object over a value of another kind. -/
lemma source_update_bind_update {i ps ps' : Nat} {v w : Payload S R}
    (h : w.isObjectValue = true → v.isObjectValue = true) (k : Nat) :
    ((update i w ps).source k).bind (update i v ps').source = (update i w ps).source k := by
  cases hw : w.isObjectValue
  · cases hv : v.isObjectValue <;>
      simp only [source, hw, hv, setSource, Bool.false_eq_true, if_false, if_true] <;>
      split_ifs <;> simp_all [setSource]
  · simp [source, hw, h hw]

/-- Of two updates of one element, the one that stays brings both orders to its own value. -/
lemma joins_lastWriterWins (leftFirst : Bool) {i : Nat} {lv rv : Payload S R} (hi : i < n)
    (h : lv.isObjectValue = rv.isObjectValue) :
    ∃ a' b' : Option (ArrayInstr S R),
      (if leftFirst = true then .ok (none, some (update i rv n)) else .ok (some (update i lv n), none) :
        MergeResult S R) = .ok (a', b') ∧
      Joins n (update i lv n) (update i rv n) a' b' := by
  split_ifs
  · exact ⟨_, _, rfl, joins_none_some ⟨hi, rfl⟩ ⟨rfl, rfl⟩ (source_update_bind_update fun hr => h ▸ hr)⟩
  · exact ⟨_, _, rfl, joins_some_none ⟨hi, rfl⟩ ⟨rfl, rfl⟩ fun k =>
      (source_update_bind_update (fun hl => h ▸ hl) k).symm⟩

lemma joins_mergeUpdateUpdate (leftFirst : Bool) {li lps ri rps : Nat} {lv rv : Payload S R}
    (ha : (update li lv lps).Valid n) (hb : (update ri rv rps).Valid n) :
    ∃ a' b' : Option (ArrayInstr S R), mergeUpdateUpdate leftFirst li lv lps ri rv rps = .ok (a', b') ∧
      Joins n (update li lv lps) (update ri rv rps) a' b' := by
  obtain ⟨hli, rfl⟩ := ha
  obtain ⟨hri, rfl⟩ := hb
  simp only [mergeUpdateUpdate, ne_eq, not_true_eq_false, if_false]
  by_cases hij : li = ri
  swap
  · -- updates of two elements commute
    rw [if_neg hij]
    refine ⟨_, _, rfl, joins_some_some ⟨hri, rfl⟩ ⟨hli, rfl⟩ ⟨rfl, rfl⟩ ⟨rfl, rfl⟩ fun k => ?_⟩
    cases hl : lv.isObjectValue <;> cases hr : rv.isObjectValue <;>
      simp only [source, hl, hr, setSource, Bool.false_eq_true, if_false, if_true] <;>
      split_ifs <;> simp_all [setSource]
  subst hij
  rw [if_pos rfl]
  by_cases htype : lv.type = rv.type
  · rw [if_neg (not_not.mpr htype)]
    by_cases hnested : lv.type = .list ∨ lv.type = .dictionary
    · -- two nested collections: the update writes the same marker on both sides
      rw [if_pos hnested]
      have hv : lv = rv := by
        rcases hnested with h | h
        · rw [Payload.eq_list_of_type h, Payload.eq_list_of_type (htype.symm.trans h)]
        · rw [Payload.eq_dictionary_of_type h, Payload.eq_dictionary_of_type (htype.symm.trans h)]
      subst hv
      exact ⟨_, _, rfl, joins_some_some ⟨hli, rfl⟩ ⟨hli, rfl⟩ ⟨rfl, rfl⟩ ⟨rfl, rfl⟩ fun _ => rfl⟩
    · rw [if_neg hnested]
      refine joins_lastWriterWins leftFirst hli ?_
      rw [Payload.isObjectValue_eq_decide, Payload.isObjectValue_eq_decide, htype]
  · rw [if_pos htype]
    -- an embedded object gives way to a value of another kind
    by_cases hl : lv.type = .objectValue
    · rw [if_pos hl]
      exact ⟨_, _, rfl, joins_none_some ⟨hli, rfl⟩ ⟨rfl, rfl⟩ (source_update_bind_update fun _ => by
        rw [Payload.isObjectValue_eq_decide, decide_eq_true_iff]; exact hl)⟩
    by_cases hr : rv.type = .objectValue
    · rw [if_neg hl, if_pos hr]
      exact ⟨_, _, rfl, joins_some_none ⟨hli, rfl⟩ ⟨rfl, rfl⟩ fun k =>
        (source_update_bind_update (fun _ => by
          rw [Payload.isObjectValue_eq_decide, decide_eq_true_iff]; exact hr) k).symm⟩
    · rw [if_neg hl, if_neg hr]
      refine joins_lastWriterWins leftFirst hli ?_
      rw [Payload.isObjectValue_eq_decide, Payload.isObjectValue_eq_decide, decide_eq_false hl,
        decide_eq_false hr]

lemma joins_mergeArrayInsertUpdate {li lps ri rps : Nat} {lv rv : Payload S R}
    (ha : (arrayInsert li lv lps).Valid n) (hb : (update ri rv rps).Valid n) :
    ∃ a' b' : Option (ArrayInstr S R), mergeArrayInsertUpdate li lv lps ri rv rps = .ok (a', b') ∧
      Joins n (arrayInsert li lv lps) (update ri rv rps) a' b' := by
  obtain ⟨hli, rfl⟩ := ha
  obtain ⟨hri, rfl⟩ := hb
  simp only [mergeArrayInsertUpdate, ne_eq, not_true_eq_false, if_false, hli, hri]
  refine ⟨_, _, rfl, joins_some_some ⟨?_, rfl⟩ ⟨hli, rfl⟩ ⟨rfl, rfl⟩ ⟨rfl, rfl⟩ fun k => ?_⟩
  · simp only [sizeAfter]
    split_ifs <;> omega
  · cases hr : rv.isObjectValue <;> simp only [source, hr, Bool.false_eq_true, if_false, if_true] <;>
      grind [insertSource, setSource, Source.bind]

lemma joins_mergeArrayMoveUpdate {li lto lps ri rps : Nat} {rv : Payload S R}
    (ha : (arrayMove li lto lps : ArrayInstr S R).Valid n) (hb : (update ri rv rps).Valid n) :
    ∃ a' b' : Option (ArrayInstr S R), mergeArrayMoveUpdate li lto lps ri rv rps = .ok (a', b') ∧
      Joins n (arrayMove li lto lps) (update ri rv rps) a' b' := by
  obtain ⟨hli, hlto, hne, rfl⟩ := ha
  obtain ⟨hri, rfl⟩ := hb
  simp only [mergeArrayMoveUpdate, not_true_eq_false, if_false, hli, hri]
  refine ⟨_, _, rfl, joins_some_some ⟨?_, rfl⟩ ⟨hli, hlto, hne, rfl⟩ ⟨rfl, rfl⟩ ⟨rfl, rfl⟩ fun k => ?_⟩
  · simp only [sizeAfter, mergeGetVsMove]
    split_ifs <;> omega
  · cases hr : rv.isObjectValue <;> simp only [source, hr, Bool.false_eq_true, if_false, if_true] <;>
      grind [mergeGetVsMove, moveSource, eraseSource, setSource, Source.bind]

lemma joins_mergeArrayEraseUpdate {li lps ri rps : Nat} {rv : Payload S R}
    (ha : (arrayErase li lps : ArrayInstr S R).Valid n) (hb : (update ri rv rps).Valid n) :
    ∃ a' b' : Option (ArrayInstr S R), mergeArrayEraseUpdate li lps ri rv rps = .ok (a', b') ∧
      Joins n (arrayErase li lps) (update ri rv rps) a' b' := by
  obtain ⟨hli, rfl⟩ := ha
  obtain ⟨hri, rfl⟩ := hb
  simp only [mergeArrayEraseUpdate, ne_eq, not_true_eq_false, if_false, hli, hri]
  by_cases hij : li = ri
  · -- the updated element is erased
    rw [if_pos hij]
    refine ⟨_, _, rfl, joins_some_none ⟨hli, rfl⟩ ⟨rfl, rfl⟩ fun k => ?_⟩
    cases hr : rv.isObjectValue <;> simp only [source, hr, Bool.false_eq_true, if_false, if_true] <;>
      grind [eraseSource, setSource, Source.bind]
  · rw [if_neg hij]
    refine ⟨_, _, rfl, joins_some_some ⟨?_, rfl⟩ ⟨hli, rfl⟩ ⟨rfl, rfl⟩ ⟨rfl, rfl⟩ fun k => ?_⟩
    · simp only [sizeAfter]
      split_ifs <;> omega
    · cases hr : rv.isObjectValue <;> simp only [source, hr, Bool.false_eq_true, if_false, if_true] <;>
        grind [eraseSource, setSource, Source.bind]

lemma joins_mergeArrayInsertArrayInsert (leftFirst : Bool) {li lps ri rps : Nat}
    {lv rv : Payload S R} (ha : (arrayInsert li lv lps).Valid n)
    (hb : (arrayInsert ri rv rps).Valid n) :
    ∃ a' b' : Option (ArrayInstr S R),
      mergeArrayInsertArrayInsert leftFirst li lv lps ri rv rps = .ok (a', b') ∧
      Joins n (arrayInsert li lv lps) (arrayInsert ri rv rps) a' b' := by
  obtain ⟨hli, rfl⟩ := ha
  obtain ⟨hri, rfl⟩ := hb
  simp only [mergeArrayInsertArrayInsert, ne_eq, not_true_eq_false, if_false]
  split_ifs <;> refine ⟨_, _, rfl, joins_some_some ?_ ?_ ⟨rfl, rfl⟩ ⟨rfl, rfl⟩ fun k => ?_⟩ <;>
    first
    | exact ⟨rfl, rfl⟩
    | (simp only [Valid, sizeAfter, and_true]; omega)
    | (simp only [source]; grind [insertSource, Source.bind])

lemma joins_mergeArrayMoveArrayInsert (leftFirst : Bool) {li lto lps ri rps : Nat}
    {rv : Payload S R} (ha : (arrayMove li lto lps : ArrayInstr S R).Valid n)
    (hb : (arrayInsert ri rv rps).Valid n) :
    ∃ a' b' : Option (ArrayInstr S R),
      mergeArrayMoveArrayInsert leftFirst li lto lps ri rv rps = .ok (a', b') ∧
      Joins n (arrayMove li lto lps) (arrayInsert ri rv rps) a' b' := by
  obtain ⟨hli, hlto, hne, rfl⟩ := ha
  obtain ⟨hri, rfl⟩ := hb
  simp only [mergeArrayMoveArrayInsert]
  split_ifs <;> (try dsimp only at *) <;> refine ⟨_, _, rfl, joins_some_some ?_ ?_ ⟨rfl, rfl⟩ ⟨rfl, rfl⟩ fun k => ?_⟩ <;>
    first
    | exact ⟨rfl, rfl⟩
    | (simp only [Valid, sizeAfter, and_true]; omega)
    | (simp only [source]; grind [insertSource, moveSource, eraseSource, Source.bind])

lemma joins_mergeArrayEraseArrayInsert {li lps ri rps : Nat} {rv : Payload S R}
    (ha : (arrayErase li lps : ArrayInstr S R).Valid n) (hb : (arrayInsert ri rv rps).Valid n) :
    ∃ a' b' : Option (ArrayInstr S R), mergeArrayEraseArrayInsert li lps ri rv rps = .ok (a', b') ∧
      Joins n (arrayErase li lps) (arrayInsert ri rv rps) a' b' := by
  obtain ⟨hli, rfl⟩ := ha
  obtain ⟨hri, rfl⟩ := hb
  simp only [mergeArrayEraseArrayInsert, ne_eq, not_true_eq_false, if_false, hli, hri]
  split_ifs <;> refine ⟨_, _, rfl, joins_some_some ?_ ?_ ⟨rfl, rfl⟩ ⟨rfl, rfl⟩ fun k => ?_⟩ <;>
    first
    | exact ⟨rfl, rfl⟩
    | (simp only [Valid, sizeAfter, and_true]; omega)
    | (simp only [source]; grind [insertSource, eraseSource, Source.bind])

/-- What a merge leaves of two moves on a list of `n` elements, each move or nothing where it
ends where it starts, joins them when the sources of the two orders agree. -/
lemma joins_moveOpt {li lto ri rto li' lto' ri' rto' : Nat}
    (hl : li' = lto' ∨ li' < n ∧ lto' < n) (hr : ri' = rto' ∨ ri' < n ∧ rto' < n)
    (h : ∀ k, (moveSource ri' rto' k : Source (Payload S R)).bind (moveSource li lto) =
      (moveSource li' lto' k).bind (moveSource ri rto)) :
    Joins n (arrayMove li lto n : ArrayInstr S R) (arrayMove ri rto n)
      (if li' = lto' then none else some (arrayMove li' lto' n))
      (if ri' = rto' then none else some (arrayMove ri' rto' n)) := by
  -- a discarded move is one that reads every position from itself
  have hvl (h' : li' ≠ lto') : (arrayMove li' lto' n : ArrayInstr S R).Valid n :=
    ⟨by omega, by omega, h', rfl⟩
  have hvr (h' : ri' ≠ rto') : (arrayMove ri' rto' n : ArrayInstr S R).Valid n :=
    ⟨by omega, by omega, h', rfl⟩
  by_cases hl' : li' = lto' <;> by_cases hr' : ri' = rto'
  · rw [if_pos hl', if_pos hr']
    subst hl' hr'
    refine joins_none_none fun k => ?_
    show moveSource li lto k = moveSource ri rto k
    simpa only [moveSource_self, Source.bind_old] using h k
  · rw [if_pos hl', if_neg hr']
    subst hl'
    refine joins_none_some (hvr hr') ⟨rfl, rfl⟩ fun k => ?_
    show (moveSource ri' rto' k).bind (moveSource li lto) = moveSource ri rto k
    simpa only [moveSource_self, Source.bind_old] using h k
  · rw [if_neg hl', if_pos hr']
    subst hr'
    refine joins_some_none (hvl hl') ⟨rfl, rfl⟩ fun k => ?_
    show moveSource li lto k = (moveSource li' lto' k).bind (moveSource ri rto)
    simpa only [moveSource_self, Source.bind_old] using h k
  · rw [if_neg hl', if_neg hr']
    exact joins_some_some (hvr hr') (hvl hl') ⟨rfl, rfl⟩ ⟨rfl, rfl⟩ h

/-- `mergeMovesOfTwo` joins the moves of two different elements, given the indices each rule
passes it: the source of the later of the two, shifted down past the other's removal. -/
lemma joins_mergeMovesOfTwo (leftFirst : Bool) {li lto ri rto li₀ ri₀ : Nat}
    (hl : (arrayMove li lto n : ArrayInstr S R).Valid n) (hr : (arrayMove ri rto n : ArrayInstr S R).Valid n)
    (hne : li ≠ ri) (hli₀ : li₀ = if li > ri then li - 1 else li)
    (hri₀ : ri₀ = if li < ri then ri - 1 else ri) :
    ∃ a' b' : Option (ArrayInstr S R), mergeMovesOfTwo leftFirst li₀ lto n ri₀ rto n = .ok (a', b') ∧
      Joins n (arrayMove li lto n) (arrayMove ri rto n) a' b' := by
  obtain ⟨hli, hlto, hlne, -⟩ := hl
  obtain ⟨hri, hrto, hrne, -⟩ := hr
  unfold mergeMovesOfTwo
  -- name the indices of the three steps of the rule
  split
  rename_i lto₁ ri₁ h₁
  split
  rename_i li₂ rto₂ h₂
  split
  rename_i lto₃ rto₃ h₃
  -- each step's branch, then the order of the two elements, gives the indices as arithmetic
  refine ⟨_, _, rfl, joins_moveOpt ?_ ?_ fun k => ?_⟩ <;>
    split_ifs at h₁ h₂ h₃ <;> simp only [Prod.mk.injEq] at h₁ h₂ h₃ <;>
    obtain ⟨rfl, rfl⟩ := h₁ <;> obtain ⟨rfl, rfl⟩ := h₂ <;> obtain ⟨rfl, rfl⟩ := h₃ <;>
    split_ifs at hli₀ hri₀ <;> subst hli₀ hri₀ <;>
    first | omega | grind [moveSource, eraseSource, Source.bind]

lemma joins_mergeArrayMoveArrayMove (leftFirst : Bool) {li lto lps ri rto rps : Nat}
    (ha : (arrayMove li lto lps : ArrayInstr S R).Valid n)
    (hb : (arrayMove ri rto rps : ArrayInstr S R).Valid n) :
    ∃ a' b' : Option (ArrayInstr S R),
      mergeArrayMoveArrayMove leftFirst li lto lps ri rto rps = .ok (a', b') ∧
      Joins n (arrayMove li lto lps) (arrayMove ri rto rps) a' b' := by
  obtain ⟨hli, hlto, hlne, rfl⟩ := ha
  obtain ⟨hri, hrto, hrne, rfl⟩ := hb
  simp only [mergeArrayMoveArrayMove, ne_eq, not_true_eq_false, if_false, hli, hri, hlto, hrto]
  rcases lt_trichotomy li ri with h | rfl | h
  · rw [if_pos h]
    exact joins_mergeMovesOfTwo leftFirst ⟨hli, hlto, hlne, rfl⟩ ⟨hri, hrto, hrne, rfl⟩ h.ne
      (by rw [if_neg (by omega)]) (by rw [if_pos h])
  · -- two moves of one element: the later one moves it from where the earlier one put it
    simp only [lt_irrefl, if_false]
    split_ifs <;> refine ⟨_, _, rfl, ?_⟩ <;>
      (first | apply joins_some_none | apply joins_none_some | apply joins_none_none) <;>
      first
      | exact ⟨rfl, rfl⟩
      | (simp only [Valid, sizeAfter, and_true]; omega)
      | (intro k
         simp only [source]
         grind [moveSource, eraseSource, Source.bind])
  · rw [if_neg (not_lt.mpr h.le), if_pos h]
    exact joins_mergeMovesOfTwo leftFirst ⟨hli, hlto, hlne, rfl⟩ ⟨hri, hrto, hrne, rfl⟩ h.ne'
      (by rw [if_pos h]) (by rw [if_neg (by omega)])

lemma joins_mergeArrayEraseArrayMove {li lps ri rto rps : Nat}
    (ha : (arrayErase li lps : ArrayInstr S R).Valid n)
    (hb : (arrayMove ri rto rps : ArrayInstr S R).Valid n) :
    ∃ a' b' : Option (ArrayInstr S R), mergeArrayEraseArrayMove li lps ri rto rps = .ok (a', b') ∧
      Joins n (arrayErase li lps) (arrayMove ri rto rps) a' b' := by
  obtain ⟨hli, rfl⟩ := ha
  obtain ⟨hri, hrto, hne, rfl⟩ := hb
  simp only [mergeArrayEraseArrayMove, ne_eq, not_true_eq_false, if_false, hli, hri]
  split_ifs <;> (try dsimp only at *) <;> refine ⟨_, _, rfl, ?_⟩ <;>
    (first | apply joins_some_some | apply joins_some_none) <;>
    first
    | exact ⟨rfl, rfl⟩
    | (simp only [Valid, sizeAfter, and_true]; omega)
    | (intro k
       simp only [source]
       grind [moveSource, eraseSource, Source.bind])

lemma joins_mergeArrayEraseArrayErase {li lps ri rps : Nat}
    (ha : (arrayErase li lps : ArrayInstr S R).Valid n)
    (hb : (arrayErase ri rps : ArrayInstr S R).Valid n) :
    ∃ a' b' : Option (ArrayInstr S R), mergeArrayEraseArrayErase li lps ri rps = .ok (a', b') ∧
      Joins n (arrayErase li lps) (arrayErase ri rps) a' b' := by
  obtain ⟨hli, rfl⟩ := ha
  obtain ⟨hri, rfl⟩ := hb
  simp only [mergeArrayEraseArrayErase, ne_eq, not_true_eq_false, if_false, hli, hri]
  split_ifs <;> refine ⟨_, _, rfl, ?_⟩ <;>
    (first | apply joins_some_some | apply joins_none_none) <;>
    first
    | exact ⟨rfl, rfl⟩
    | (simp only [Valid, sizeAfter, and_true]; omega)
    | (intro k
       simp only [source]
       grind [eraseSource, Source.bind])

/-! ## The dispatch -/

/-- Each of the ten rules, on two valid instructions with the type of the right one at most
that of the left one. -/
lemma joins_mergeOrdered (leftFirst : Bool) (ha : a.Valid n) (hb : b.Valid n)
    (hty : b.type ≤ a.type) :
    ∃ a' b', mergeOrdered leftFirst a b = .ok (a', b') ∧ Joins n a b a' b' := by
  cases a with
  | update =>
    cases b with
    | update => exact joins_mergeUpdateUpdate leftFirst ha hb
    | _ => simp [type] at hty
  | arrayInsert =>
    cases b with
    | update => exact joins_mergeArrayInsertUpdate ha hb
    | arrayInsert => exact joins_mergeArrayInsertArrayInsert leftFirst ha hb
    | _ => simp [type] at hty
  | arrayMove =>
    cases b with
    | update => exact joins_mergeArrayMoveUpdate ha hb
    | arrayInsert => exact joins_mergeArrayMoveArrayInsert leftFirst ha hb
    | arrayMove => exact joins_mergeArrayMoveArrayMove leftFirst ha hb
    | arrayErase => simp [type] at hty
  | arrayErase =>
    cases b with
    | update => exact joins_mergeArrayEraseUpdate ha hb
    | arrayInsert => exact joins_mergeArrayEraseArrayInsert ha hb
    | arrayMove => exact joins_mergeArrayEraseArrayMove ha hb
    | arrayErase => exact joins_mergeArrayEraseArrayErase ha hb

/-- The merge of two valid instructions, in either order of their types, succeeds and joins
them. -/
lemma joins_merge (leftTs rightTs : Discriminant) (ha : a.Valid n) (hb : b.Valid n) :
    ∃ a' b', merge leftTs rightTs a b = .ok (a', b') ∧ Joins n a b a' b' := by
  unfold merge
  split_ifs with hty
  · exact joins_mergeOrdered _ ha hb hty
  · -- the rule is called with the sides exchanged, and its result exchanged back
    obtain ⟨b', a', hm, hj⟩ := joins_mergeOrdered (rightTs.lt leftTs) hb ha (by omega)
    exact ⟨a', b', by rw [hm]; rfl, hj.symm⟩

/-! ## What a join means for the lists -/

/-- Two valid instructions joined by a merge bring a list to one list in both orders. -/
lemma Joins.runOpt_eq {L : List (Payload S R)} (hj : Joins L.length a b a' b')
    (ha : a.Valid L.length) (hb : b.Valid L.length) :
    runOpt (a.run L) b' = runOpt (b.run L) a' := by
  have h₁ := (describedBy_run ha).trans
    (describedBy_runOpt (l := a.run L) (by rw [length_run ha]; exact hj.valid_right))
  have h₂ := (describedBy_run hb).trans
    (describedBy_runOpt (l := b.run L) (by rw [length_run hb]; exact hj.valid_left))
  exact h₁.eq_of_source_eq h₂ hj.source_eq

end ArrayInstr

end Realm.Sync
