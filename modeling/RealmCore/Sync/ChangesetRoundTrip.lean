import Mathlib
import RealmCore.Sync.ChangesetDecoding

/-!
# The changeset round trip

`parse_changeset(encode_changeset(C))` gives back the instructions of `C`, once each string is
replaced by the bytes it denotes (`parseChangeset_encodeSingle`).  The changeset the parser
builds keeps a `Mirrors` invariant with `C`: after reading some of the interned strings and
instructions of `C`, its own denote what those of `C` do, all its ranges lie inside its buffer,
and its buffer holds exactly the bytes copied so far.  Interning a string and reading an
instruction each keep it (`Mirrors.intern`, `Mirrors.reparse`), and so do the runs over all the
strings and all the instructions (`Mirrors.foldl_intern`, `Mirrors.foldl_reparse`).

Two conditions come on top of the well-formedness that the parser checks.  The encoder does not
write the link target table of a column that is not a link, so it comes back as `npos`: a
changeset holding another value there does not round trip
(`parseChangeset_encodeSingle_linkTarget`).
And the parser's offsets into its buffer are `uint32_t`, as are the indices of interned strings
and the lengths of paths, so these must fit (`Changeset.fitsUInt32`).
-/

namespace Realm

namespace Sync

open ChangesetEncoder ChangesetParser

/-! ## What the built changeset denotes -/

namespace Changeset

lemma denote_isSome_iff {log : Changeset} {r : StringBufferRange} :
    (log.denote r).isSome ↔ r.offset.toNat + r.size.toNat ≤ log.stringBuffer.length := by
  unfold denote
  split <;> simp_all

/-- Bytes appended to the buffer leave what a range inside it denotes. -/
lemma denote_append_of_isSome {log : Changeset} {r : StringBufferRange} (bs : List UInt8)
    (hr : (log.denote r).isSome) :
    { log with stringBuffer := log.stringBuffer ++ bs }.denote r = log.denote r := by
  rw [denote_isSome_iff] at hr
  have hr' : r.offset.toNat + r.size.toNat ≤ (log.stringBuffer ++ bs).length := by
    rw [List.length_append]
    omega
  simp only [denote, if_pos hr, if_pos hr',
    List.drop_append_of_le_length (by omega : r.offset.toNat ≤ log.stringBuffer.length)]
  rw [List.take_append_of_le_length (by simp; omega)]

/-- The range that `append_string` answers denotes the bytes appended, while the buffer's size
fits a `uint32_t`. -/
lemma denote_appendString (log : Changeset) (bs : List UInt8)
    (hfit : log.stringBuffer.length + bs.length < 2 ^ 32) :
    (log.appendString bs).2.denote (log.appendString bs).1 = some bs := by
  have hoff : log.stringBuffer.length.toUInt32.toNat = log.stringBuffer.length := by
    rw [Nat.toUInt32_eq, UInt32.toNat_ofNat']
    omega
  have hsize : bs.length.toUInt32.toNat = bs.length := by
    rw [Nat.toUInt32_eq, UInt32.toNat_ofNat']
    omega
  simp [appendString, denote, hoff, hsize]

/-- The strings of two changesets that denote alike. -/
lemma denoteIntern_eq {log log' : Changeset}
    (h : log.strings.map log.denote = log'.strings.map log'.denote) :
    log.denoteIntern = log'.denoteIntern := by
  funext s
  have := congrArg (fun l => l[s.value.toNat]?) h
  simp only [List.getElem?_map] at this
  simp only [denoteIntern]
  cases h1 : log.strings[s.value.toNat]? <;> cases h2 : log'.strings[s.value.toNat]? <;>
    simp_all

end Changeset

/-- The sum of the sizes of some ranges. -/
def rangeBytes (rs : List StringBufferRange) : Nat :=
  (rs.map fun r => r.size.toNat).sum

@[simp] lemma rangeBytes_nil : rangeBytes [] = 0 := rfl

@[simp] lemma rangeBytes_append (rs rs' : List StringBufferRange) :
    rangeBytes (rs ++ rs') = rangeBytes rs + rangeBytes rs' := by
  simp [rangeBytes]

/-- The changeset `out` that the parser builds mirrors `log` once it has read the interned
strings `pre` and the instructions `done` of `log`: its strings and instructions denote what
theirs do in `log`, its ranges lie inside its buffer, and the buffer holds the bytes of
`pre` and of the payloads of `done`. -/
structure Mirrors (log out : Changeset) (pre : List StringBufferRange) (done : List Instr) :
    Prop where
  strings : out.strings.map out.denote = pre.map log.denote
  instrs : out.instrs.map out.resolve = done.map log.resolve
  inside : ∀ r ∈ out.strings ++ out.instrs.flatMap Instruction.ranges, (out.denote r).isSome
  length : out.stringBuffer.length = rangeBytes pre + rangeBytes (done.flatMap Instruction.ranges)

namespace Mirrors

variable {log out : Changeset}

lemma slice_of_validRange {r : StringBufferRange} (hr : log.validRange r) :
    log.denote r = some (slice log.stringBuffer r) := by
  simp only [Changeset.validRange, Bool.and_eq_true, decide_eq_true_eq] at hr
  simp [Changeset.denote, if_pos hr.1, slice]

/-- Interning one more string of `log` keeps the mirror. -/
lemma intern {pre : List StringBufferRange} {r : StringBufferRange} {st : ChangesetParser.State}
    (hm : Mirrors log st.log pre []) (hr : log.validRange r)
    (hbytes : rangeBytes (pre ++ [r]) < 2 ^ 32) :
    Mirrors log (st.intern (slice log.stringBuffer r)).log (pre ++ [r]) [] := by
  set bs := slice log.stringBuffer r
  have hr' := hr
  simp only [Changeset.validRange, Bool.and_eq_true, decide_eq_true_eq] at hr'
  have hbs : bs.length = r.size.toNat := length_slice hr'.1
  have hnil : st.log.instrs = [] := List.map_eq_nil_iff.mp hm.instrs
  have hfit : st.log.stringBuffer.length + bs.length < 2 ^ 32 := by
    simp only [rangeBytes, List.map_append, List.sum_append, List.map_cons, List.map_nil,
      List.sum_cons, List.sum_nil] at hbytes
    rw [hm.length, hbs]
    simpa [rangeBytes] using hbytes
  -- the strings interned before keep what they denote
  have hold : ∀ r' ∈ st.log.strings, (st.log.appendString bs).2.denote r' = st.log.denote r' :=
    fun r' hr' => Changeset.denote_append_of_isSome bs
      (hm.inside r' (List.mem_append_left _ hr'))
  refine ⟨?_, ?_, ?_, ?_⟩
  · show (st.log.strings ++ [(st.log.appendString bs).1]).map (st.log.appendString bs).2.denote = _
    rw [List.map_append, List.map_congr_left hold, hm.strings, List.map_singleton,
      Changeset.denote_appendString _ _ hfit, List.map_append, List.map_singleton,
      slice_of_validRange hr]
  · show (st.log.instrs).map _ = _
    rw [hnil]
    rfl
  · intro r' hr'
    change r' ∈ (st.log.strings ++ [(st.log.appendString bs).1]) ++
      (st.log.instrs).flatMap Instruction.ranges at hr'
    rw [hnil, List.flatMap_nil, List.append_nil, List.mem_append, List.mem_singleton] at hr'
    show ((st.log.appendString bs).2.denote r').isSome
    rcases hr' with hr' | rfl
    · rw [hold r' hr']
      exact hm.inside r' (List.mem_append_left _ hr')
    · rw [Changeset.denote_appendString _ _ hfit]
      rfl
  · show (st.log.stringBuffer ++ bs).length = _
    rw [List.length_append, hm.length, hbs]
    simp [rangeBytes]

lemma instrs_pushBack (out : Changeset) (instr : Instr) :
    (out.pushBack instr).instrs = out.instrs ++ [instr] := by
  simp [Changeset.pushBack, Changeset.instrs]

/-- Appending the bytes `bs` to the buffer and pushing an instruction that denotes there what
`instr` denotes in `log` keeps the mirror. -/
lemma push {done : List Instr} {instr instr' : Instr} {bs : List UInt8}
    (hm : Mirrors log out log.strings done)
    (hres : { out with stringBuffer := out.stringBuffer ++ bs }.resolve instr' = log.resolve instr)
    (hin : ∀ r ∈ instr'.ranges,
      ({ out with stringBuffer := out.stringBuffer ++ bs }.denote r).isSome)
    (hlen : bs.length = rangeBytes instr.ranges) :
    Mirrors log ({ out with stringBuffer := out.stringBuffer ++ bs }.pushBack instr') log.strings
      (done ++ [instr]) := by
  set out' := { out with stringBuffer := out.stringBuffer ++ bs }
  have hold : ∀ r ∈ out.strings ++ out.instrs.flatMap Instruction.ranges,
      out'.denote r = out.denote r :=
    fun r hr => Changeset.denote_append_of_isSome bs (hm.inside r hr)
  have hstrings : out'.strings.map out'.denote = out.strings.map out.denote :=
    List.map_congr_left fun r hr => hold r (List.mem_append_left _ hr)
  have hintern : out'.denoteIntern = out.denoteIntern := Changeset.denoteIntern_eq hstrings
  refine ⟨hstrings.trans hm.strings, ?_, ?_, ?_⟩
  · -- the instructions read before denote what they did
    show (out'.pushBack instr').instrs.map out'.resolve = _
    rw [instrs_pushBack, List.map_append, List.map_singleton, hres, List.map_append,
      List.map_singleton, ← hm.instrs]
    congr 1
    refine List.map_congr_left fun i hi => ?_
    simp only [Changeset.resolve, hintern]
    exact Instruction.resolveWith_congr fun r hr =>
      hold r (List.mem_append_right _ (List.mem_flatMap.mpr ⟨i, hi, hr⟩))
  · intro r hr
    show (out'.denote r).isSome
    change r ∈ out.strings ++ (out'.pushBack instr').instrs.flatMap Instruction.ranges at hr
    rw [instrs_pushBack, List.flatMap_append, List.flatMap_singleton, ← List.append_assoc,
      List.mem_append] at hr
    rcases hr with hr | hr
    · rw [hold r hr]
      exact hm.inside r hr
    · exact hin r hr
  · show (out.stringBuffer ++ bs).length = _
    rw [List.length_append, hm.length, hlen, List.flatMap_append, List.flatMap_singleton,
      rangeBytes_append]
    omega

/-- Once all the strings are interned, the built changeset's interned strings denote what
those of `log` do, also with bytes appended to its buffer. -/
lemma denoteIntern_append {done : List Instr} (hm : Mirrors log out log.strings done)
    (bs : List UInt8) :
    { out with stringBuffer := out.stringBuffer ++ bs }.denoteIntern = log.denoteIntern := by
  refine Changeset.denoteIntern_eq ((List.map_congr_left fun r hr => ?_).trans hm.strings)
  exact Changeset.denote_append_of_isSome bs (hm.inside r (List.mem_append_left _ hr))

/-- Pushing an instruction without a payload string keeps the mirror. -/
lemma push_of_ranges_nil {done : List Instr} {instr : Instr}
    (hm : Mirrors log out log.strings done) (hranges : instr.ranges = []) :
    Mirrors log (out.pushBack instr) log.strings (done ++ [instr]) := by
  have hout : { out with stringBuffer := out.stringBuffer ++ [] } = out := by
    simp
  have h := @push log out done instr instr [] hm ?_ (by simp [hranges])
    (by simp [hranges, rangeBytes])
  · rwa [hout] at h
  · simp only [Changeset.resolve, denoteIntern_append hm]
    exact Instruction.resolveWith_congr (by simp [hranges])

/-- `relocate` appends the bytes of the payload's range, and the relocated payload denotes
there what `v` denotes in `log`. -/
lemma relocate_spec {v : Payload InternString StringBufferRange} (hv : v.wellFormed log)
    {X : Type} (f : InternString → X)
    (hfit : out.stringBuffer.length + rangeBytes v.ranges < 2 ^ 32) :
    (v.relocate log.stringBuffer out).2 =
        { out with
          stringBuffer := out.stringBuffer ++ v.ranges.flatMap (slice log.stringBuffer) } ∧
      (v.relocate log.stringBuffer out).1.map f (v.relocate log.stringBuffer out).2.denote =
        v.map f log.denote ∧
      (∀ r ∈ (v.relocate log.stringBuffer out).1.ranges,
        ((v.relocate log.stringBuffer out).2.denote r).isSome) ∧
      (v.ranges.flatMap (slice log.stringBuffer)).length = rangeBytes v.ranges := by
  cases v
  case string r =>
    have hr : r.offset.toNat + r.size.toNat ≤ log.stringBuffer.length ∧
        r.size.toNat ≤ maxStringSize := by
      simpa [Payload.wellFormed, Changeset.validRange] using hv
    have hbs := length_slice hr.1
    have hfit' : out.stringBuffer.length + (slice log.stringBuffer r).length < 2 ^ 32 := by
      simpa [hbs, rangeBytes, Payload.ranges] using hfit
    refine ⟨by simp [Payload.relocate, Payload.ranges, Changeset.appendString], ?_, ?_, ?_⟩
    · simp only [Payload.relocate, Payload.map, Changeset.denote_appendString _ _ hfit',
        slice_of_validRange hv]
    · simp [Payload.relocate, Payload.ranges, Changeset.denote_appendString _ _ hfit']
    · simp [Payload.ranges, hbs, rangeBytes]
  case binary r =>
    have hr : r.offset.toNat + r.size.toNat ≤ log.stringBuffer.length ∧
        r.size.toNat ≤ maxStringSize := by
      simpa [Payload.wellFormed, Changeset.validRange] using hv
    have hbs := length_slice hr.1
    have hfit' : out.stringBuffer.length + (slice log.stringBuffer r).length < 2 ^ 32 := by
      simpa [hbs, rangeBytes, Payload.ranges] using hfit
    refine ⟨by simp [Payload.relocate, Payload.ranges, Changeset.appendString], ?_, ?_, ?_⟩
    · simp only [Payload.relocate, Payload.map, Changeset.denote_appendString _ _ hfit',
        slice_of_validRange hv]
    · simp [Payload.relocate, Payload.ranges, Changeset.denote_appendString _ _ hfit']
    · simp [Payload.ranges, hbs, rangeBytes]
  -- the other payloads hold no range and are not moved
  all_goals exact ⟨by simp [Payload.relocate, Payload.ranges],
    Payload.map_congr (by simp [Payload.relocate, Payload.ranges]),
    by simp [Payload.relocate, Payload.ranges], by simp [Payload.ranges, rangeBytes]⟩

/-- Reading an instruction with a payload keeps the mirror: `relocate` copies the payload's
string to the buffer, and `build` makes of the relocated payload an instruction that denotes
what `instr` denotes in `log` whenever the payload denotes what `v` does. -/
lemma push_relocated {done : List Instr} {instr : Instr}
    {v v' : Payload InternString StringBufferRange} {st : ChangesetParser.State} {out' : Changeset}
    (hm : Mirrors log st.log log.strings done) (hv : v.wellFormed log)
    (hrel : v.relocate log.stringBuffer st.log = (v', out'))
    (hranges : instr.ranges = v.ranges)
    (hfit : st.log.stringBuffer.length + rangeBytes v.ranges < 2 ^ 32)
    (build : Payload InternString StringBufferRange → Instr)
    (hbuild : ∀ w, (build w).ranges = w.ranges)
    (hres : ∀ (w : Payload InternString StringBufferRange)
      (g : StringBufferRange → Option (List UInt8)),
      w.map log.denoteIntern g = v.map log.denoteIntern log.denote →
        (build w).resolveWith log.denoteIntern g = log.resolve instr) :
    Mirrors log (out'.pushBack (build v')) log.strings (done ++ [instr]) := by
  obtain ⟨hout, hmap, hin, hlen⟩ := @relocate_spec log st.log v hv _ log.denoteIntern hfit
  rw [hrel] at hout hmap hin
  dsimp only at hout hmap hin
  subst hout
  refine push hm ?_ (by rw [hbuild]; exact hin) (hranges ▸ hlen)
  simp only [Changeset.resolve, denoteIntern_append hm]
  exact hres v' _ hmap

/-- Reading one more instruction of `log` keeps the mirror. -/
lemma reparse {done : List Instr} {instr : Instr} {st : ChangesetParser.State}
    (hm : Mirrors log st.log log.strings done) (hwf : instr.wellFormed log)
    (hunset : instr.linkTargetUnset)
    (hbytes : rangeBytes log.strings + rangeBytes ((done ++ [instr]).flatMap Instruction.ranges) <
      2 ^ 32) :
    Mirrors log (st.reparse log.stringBuffer instr).log log.strings (done ++ [instr]) := by
  -- the bytes of the payload still fit behind those read so far
  have hfit (v : Payload InternString StringBufferRange) (hv : instr.ranges = v.ranges) :
      st.log.stringBuffer.length + rangeBytes v.ranges < 2 ^ 32 := by
    rw [hm.length, ← hv]
    simpa [List.flatMap_append, Nat.add_assoc] using hbytes
  cases instr with
  | update p v d s =>
    simp only [Instruction.wellFormed, Bool.and_eq_true] at hwf
    rcases hrel : v.relocate log.stringBuffer st.log with ⟨v', out'⟩
    simp only [ChangesetParser.State.reparse, hrel, ChangesetParser.State.push]
    -- the path decides which member of the union is kept, on both sides alike
    refine push_relocated hm hwf.2 hrel rfl (hfit v rfl)
      (fun w => if isArrayIndex p.path then .update p w false s else .update p w d 0)
      (fun w => by split <;> rfl) fun w g hw => ?_
    by_cases harr : isArrayIndex p.path = true <;>
      simp [Changeset.resolve, Instruction.resolveWith, harr, hw]
  | arrayInsert p v s =>
    simp only [Instruction.wellFormed, Bool.and_eq_true] at hwf
    rcases hrel : v.relocate log.stringBuffer st.log with ⟨v', out'⟩
    simp only [ChangesetParser.State.reparse, hrel, ChangesetParser.State.push]
    exact push_relocated hm hwf.2 hrel rfl (hfit v rfl) (fun w => .arrayInsert p w s)
      (fun _ => rfl) fun w g hw => by simp [Changeset.resolve, Instruction.resolveWith, hw]
  | setInsert p v =>
    simp only [Instruction.wellFormed, Bool.and_eq_true] at hwf
    rcases hrel : v.relocate log.stringBuffer st.log with ⟨v', out'⟩
    simp only [ChangesetParser.State.reparse, hrel, ChangesetParser.State.push]
    exact push_relocated hm hwf.2 hrel rfl (hfit v rfl) (fun w => .setInsert p w)
      (fun _ => rfl) fun w g hw => by simp [Changeset.resolve, Instruction.resolveWith, hw]
  | setErase p v =>
    simp only [Instruction.wellFormed, Bool.and_eq_true] at hwf
    rcases hrel : v.relocate log.stringBuffer st.log with ⟨v', out'⟩
    simp only [ChangesetParser.State.reparse, hrel, ChangesetParser.State.push]
    exact push_relocated hm hwf.2 hrel rfl (hfit v rfl) (fun w => .setErase p w)
      (fun _ => rfl) fun w g hw => by simp [Changeset.resolve, Instruction.resolveWith, hw]
  | addColumn table field type keyType nullable collectionType linkTargetTable =>
    -- a column that is not a link already holds `npos`, which the parser leaves
    have hlt : (if type = .link then linkTargetTable else InternString.npos) = linkTargetTable := by
      split_ifs with hl
      · rfl
      · exact (by simpa [Instruction.linkTargetUnset, hl] using hunset : linkTargetTable = _).symm
    simp only [ChangesetParser.State.reparse, ChangesetParser.State.push, hlt]
    exact push_of_ranges_nil hm rfl
  | addTable | eraseTable | createObject | eraseObject | addInteger | eraseColumn | arrayMove
  | arrayErase | clear => exact push_of_ranges_nil hm rfl

/-- Interning the strings `post` after `pre`. -/
lemma foldl_intern : ∀ (post pre : List StringBufferRange) (st : ChangesetParser.State),
    Mirrors log st.log pre [] → (∀ r ∈ post, log.validRange r) →
    rangeBytes (pre ++ post) < 2 ^ 32 →
    Mirrors log (post.foldl (fun st r => st.intern (slice log.stringBuffer r)) st).log
      (pre ++ post) []
  | [], pre, _, hm, _, _ => by simpa using hm
  | r :: post, pre, st, hm, hvalid, hbytes => by
    have hbytes' : rangeBytes (pre ++ [r]) < 2 ^ 32 := by
      simp only [rangeBytes_append] at hbytes ⊢
      simp [rangeBytes] at hbytes ⊢
      omega
    have h := foldl_intern post (pre ++ [r]) _
      (intern hm (hvalid r List.mem_cons_self) hbytes')
      (fun r' hr' => hvalid r' (List.mem_cons_of_mem r hr')) (by simpa using hbytes)
    simpa using h

/-- Reading the instructions `rest` after `done`. -/
lemma foldl_reparse : ∀ (rest done : List Instr) (st : ChangesetParser.State),
    Mirrors log st.log log.strings done →
    (∀ instr ∈ rest, instr.wellFormed log ∧ instr.linkTargetUnset) →
    rangeBytes log.strings + rangeBytes ((done ++ rest).flatMap Instruction.ranges) < 2 ^ 32 →
    Mirrors log (rest.foldl (ChangesetParser.State.reparse log.stringBuffer) st).log log.strings
      (done ++ rest)
  | [], done, _, hm, _, _ => by simpa using hm
  | instr :: rest, done, st, hm, hinstrs, hbytes => by
    have hi := hinstrs instr List.mem_cons_self
    have hbytes' : rangeBytes log.strings +
        rangeBytes ((done ++ [instr]).flatMap Instruction.ranges) < 2 ^ 32 := by
      simp only [List.flatMap_append, rangeBytes_append, List.flatMap_cons] at hbytes ⊢
      simp at hbytes ⊢
      omega
    have h := foldl_reparse rest (done ++ [instr]) _ (reparse hm hi.1 hi.2 hbytes')
      (fun i hi' => hinstrs i (List.mem_cons_of_mem instr hi')) (by simpa using hbytes)
    simpa using h

end Mirrors

/-- What the wire format writes as a `uint32_t` fits one: the index of every interned string,
the length of every path, and the offset of every string the parser copies into its buffer. -/
def Changeset.fitsUInt32 (log : Changeset) : Bool :=
  log.strings.length < 2 ^ 32 &&
    log.instrs.all (fun instr => instr.pathInstr?.all fun p => p.path.length < 2 ^ 32) &&
    rangeBytes log.strings + rangeBytes (log.instrs.flatMap Instruction.ranges) < 2 ^ 32

lemma Changeset.isEmpty_iff (log : Changeset) : log.isEmpty = true ↔ log.instrs = [] := by
  simp [isEmpty, instrs, List.sum_eq_zero_iff_forall_eq_nat]

/-- Decoding the encoding of a well-formed changeset succeeds, and the changeset it builds holds
instructions that denote what those of the changeset do, when the link target table of a column
that is not a link is `npos` and what the format writes as a `uint32_t` fits one. -/
theorem parseChangeset_encodeSingle (log : Changeset) (hwf : log.wellFormed)
    (hunset : log.instrs.all Instruction.linkTargetUnset) (hfit : log.fitsUInt32) :
    ∃ parsed, ChangesetParser.parseChangeset (encodeSingle log) Changeset.empty = .ok parsed ∧
      parsed.instrs.map parsed.resolve = log.instrs.map log.resolve := by
  simp only [Changeset.wellFormed, Changeset.fitsUInt32, Bool.and_eq_true, List.all_eq_true,
    decide_eq_true_eq] at hwf hfit
  obtain ⟨⟨hstrings, hnodup⟩, hinstrs⟩ := hwf
  obtain ⟨⟨hcount, hpaths⟩, hbytes⟩ := hfit
  cases hne : log.isEmpty
  · have hvalid (r : StringBufferRange) (hr : r ∈ log.strings) :
        r.offset.toNat + r.size.toNat ≤ log.stringBuffer.length ∧
          r.size.toNat ≤ maxStringSize := by
      simpa [Changeset.validRange] using hstrings r hr
    -- distinct strings denote distinct slices of the buffer
    have hnodup' : (log.strings.map (slice log.stringBuffer)).Nodup := by
      have hmap : log.strings.map log.denote =
          (log.strings.map (slice log.stringBuffer)).map some := by
        rw [List.map_map]
        exact List.map_congr_left fun r hr => Mirrors.slice_of_validRange (hstrings r hr)
      rw [hmap] at hnodup
      exact List.Pairwise.of_map some (fun _ _ hne heq => hne (congrArg some heq)) hnodup
    have hpaths' (instr : Instr) (hi : instr ∈ log.instrs) (p : PathInstr InternString)
        (hp : p ∈ instr.pathInstr?) : p.path.length < 2 ^ 32 := by
      have := hpaths instr hi
      rw [Option.mem_def] at hp
      simpa [hp] using this
    refine ⟨_, ChangesetParser.parseChangeset_encodeSingle_eq hne hvalid hnodup' hcount.le hinstrs
      hpaths' Changeset.empty, ?_⟩
    -- the built changeset mirrors `log` after all its strings and all its instructions
    have h0 : Mirrors log { Changeset.empty with strings := [] } [] [] :=
      ⟨rfl, rfl, by simp [Changeset.empty, Changeset.instrs], rfl⟩
    have h1 := Mirrors.foldl_intern log.strings [] ⟨[], { Changeset.empty with strings := [] }⟩ h0
      hstrings (by simpa using Nat.lt_of_le_of_lt (Nat.le_add_right _ _) hbytes)
    have h2 := Mirrors.foldl_reparse log.instrs [] _ (by simpa using h1)
      (fun i hi => ⟨hinstrs i hi, List.all_eq_true.mp hunset i hi⟩) (by simpa using hbytes)
    simpa using h2.instrs
  · -- an empty changeset is written as nothing, and nothing is read
    refine ⟨{ Changeset.empty with strings := [] }, ?_, ?_⟩
    · simp [ChangesetParser.parseChangeset, encodeSingle, hne]
    · rw [(Changeset.isEmpty_iff log).mp hne]
      rfl

/-- The changeset of `ChangesetEncoding_AddTable` (src/test/test_changeset_encoding.cpp), with
an object of the table and an update of its primary key field by a string: the interned
strings `"Foo"` and `"pk"`, and the payload `"bar"`, all in the buffer `"Foopkbar"`. -/
def sampleLog : Changeset :=
  ⟨[[.addTable ⟨0⟩ (.topLevel ⟨1⟩ .int true false)], [.createObject ⟨0⟩ (.int 5)],
    [.update ⟨⟨0⟩, .int 5, ⟨1⟩, []⟩ (.string ⟨5, 3⟩) false 0]],
    [⟨0, 3⟩, ⟨3, 2⟩], [70, 111, 111, 112, 107, 98, 97, 114]⟩

theorem parseChangeset_encodeSingle_sample :
    ∃ parsed, ChangesetParser.parseChangeset (encodeSingle sampleLog) Changeset.empty = .ok parsed ∧
      parsed.instrs.map parsed.resolve = sampleLog.instrs.map sampleLog.resolve :=
  parseChangeset_encodeSingle sampleLog (by decide) (by decide) (by decide)

/-- One `AddColumn` of an `Int` column whose link target table is the first interned string,
`"t"`; the field is `"f"`. -/
def addColumnLog : Changeset :=
  ⟨[[.addColumn ⟨0⟩ ⟨1⟩ .int .null false .single ⟨0⟩]], [⟨0, 1⟩, ⟨1, 1⟩], [116, 102]⟩

/-- The changeset is well formed, its link target table is a valid reference and its sizes
fit; but the encoder writes the link target table of a link column only, and the parser leaves
that of this column at `npos`, which denotes no string, where the column written names `"t"`. -/
theorem parseChangeset_encodeSingle_linkTarget :
    addColumnLog.wellFormed ∧ addColumnLog.validRef ⟨0⟩ ∧ addColumnLog.fitsUInt32 ∧
      ∃ parsed, ChangesetParser.parseChangeset (encodeSingle addColumnLog) Changeset.empty =
          .ok parsed ∧
        parsed.instrs = [.addColumn ⟨0⟩ ⟨1⟩ .int .null false .single InternString.npos] ∧
        parsed.instrs.map parsed.resolve ≠ addColumnLog.instrs.map addColumnLog.resolve :=
  ⟨by decide, by decide, by decide,
    ⟨[[.addColumn ⟨0⟩ ⟨1⟩ .int .null false .single InternString.npos]], [⟨0, 1⟩, ⟨1, 1⟩],
      [116, 102]⟩, by with_unfolding_all decide, rfl, by decide⟩

end Sync

end Realm
