import Mathlib
import RealmCore.Alloc.FreeSpace
import RealmCore.Lib.Run

/-!
# Free space in the read-only part of the file

An array of the last commit that a write transaction frees cannot be reused before the commit
ends, so `SlabAlloc::do_free` (src/realm/alloc_slab.cpp) only records its chunk in
`m_free_read_only`, a `std::map` from the first address of a chunk to its size.  It merges the
chunk with the recorded chunk that starts where it ends and with the one that ends where it
starts, and a release assertion stops the process when the chunk reaches into either.

`Coalesced` is the shape this keeps the map in: every chunk ends before the next begins.  A
free of a chunk that shares no address with the map keeps that shape and adds exactly the
chunk's addresses (`doFreeReadOnly_spec`); a free of a chunk that shares one fails an
assertion (`doFreeReadOnly_overlap`).  So frees of separate chunks leave the map holding exactly
their addresses, and a second free of an address stops the process (`freeReadOnly_coalesces`).

The map is its chunks in key order, `lower_bound` the first position at or above a key, and
`emplace` an insertion at the key's place.  The `catch` of a throwing `emplace`, which makes the
free space invalid when memory runs out, is left out.
-/

namespace Realm.SlabAlloc

open Chunk GroupWriter

/-- `m_free_read_only.lower_bound(ref)`: the position of the first chunk that starts at `ref`
or above. -/
def lowerBound (chunks : List Chunk) (ref : Nat) : Nat :=
  chunks.findIdx fun c => ref ≤ c.ref

/-- `m_free_read_only.emplace(ref, size)`, and `emplace_hint`, whose hint does not change where
a `std::map` puts a key: the chunk goes to its key's place, unless a chunk starts there. -/
def emplace (chunks : List Chunk) (c : Chunk) : List Chunk :=
  if chunks.any (·.ref == c.ref) then chunks else chunks.insertIdx (lowerBound chunks c.ref) c

/-- The merge of `do_free` with the chunk at `next`, the first at `ref` or above: the freed
chunk must end by its start, and when it ends right there that chunk is erased and its size
added. -/
def mergeWithNext (chunks : List Chunk) (next ref size : Nat) :
    Except AllocError (List Chunk × Nat) :=
  match chunks[next]? with
  | some n => do
    assertRelease (ref + size ≤ n.ref) "ref + size <= next->first"
    if ref + size = n.ref then return (chunks.eraseIdx next, size + n.size)
    else return (chunks, size)
  | none => return (chunks, size)

/-- The merge of `do_free` with the chunk before `next`: the freed chunk must start at its end
or later, and when it starts right there that chunk grows by it; otherwise the freed chunk is
inserted. -/
def mergeWithPrev (chunks : List Chunk) (next ref size : Nat) : Except AllocError (List Chunk) :=
  if !chunks.isEmpty && next != 0 then do
    let prev := chunks.getD (next - 1) ⟨0, 0⟩
    assertRelease (prev.ref + prev.size ≤ ref) "prev->first + prev->second <= ref"
    if prev.ref + prev.size = ref then return chunks.set (next - 1) ⟨prev.ref, prev.size + size⟩
    else return emplace chunks ⟨ref, size⟩
  else return emplace chunks ⟨ref, size⟩

/-- The read-only branch of `SlabAlloc::do_free(ref, addr)`, where `size` is the byte size the
array's header gives. -/
def doFreeReadOnly (chunks : List Chunk) (ref size : Nat) : Except AllocError (List Chunk) := do
  assertRelease (ref ≠ 0) "ref != 0"
  assertRelease (ref % 8 = 0) "!(ref & 7)"
  let next := lowerBound chunks ref
  let (chunks, size) ← mergeWithNext chunks next ref size
  mergeWithPrev chunks next ref size

/-- `do_free` of each chunk of `frees` in turn, from the map `chunks`. -/
def freeAll (chunks frees : List Chunk) : Except AllocError (List Chunk) :=
  Run.runExcept (fun chunks c => doFreeReadOnly chunks c.ref c.size) chunks frees

/-! ## The shape of the map -/

/-- The shape `do_free` keeps `m_free_read_only` in: every chunk has addresses, and each ends
before the next begins, so that the chunks are in address order, share no address and no two
touch. -/
structure Coalesced (chunks : List Chunk) : Prop where
  gaps : chunks.Pairwise fun c d => c.ref + c.size < d.ref
  pos : ∀ c ∈ chunks, 0 < c.size

namespace Coalesced

lemma nil : Coalesced [] :=
  ⟨List.Pairwise.nil, by simp⟩

lemma sublist {l₁ l₂ : List Chunk} (h : Coalesced l₂) (hsub : l₁.Sublist l₂) : Coalesced l₁ :=
  ⟨h.gaps.sublist hsub, fun c hc => h.pos c (hsub.subset hc)⟩

/-- A chunk fits between two coalesced lists when it starts after every chunk of the first
ends and ends before every chunk of the second starts. -/
lemma append_cons {l₁ l₂ : List Chunk} {d : Chunk} (h₁ : Coalesced l₁) (h₂ : Coalesced l₂)
    (hd : 0 < d.size) (hbefore : ∀ a ∈ l₁, a.ref + a.size < d.ref)
    (hafter : ∀ b ∈ l₂, d.ref + d.size < b.ref) : Coalesced (l₁ ++ d :: l₂) := by
  refine ⟨List.pairwise_append.mpr ⟨h₁.gaps, List.pairwise_cons.mpr ⟨hafter, h₂.gaps⟩, ?_⟩, ?_⟩
  · intro a ha b hb
    rcases List.mem_cons.mp hb with rfl | hb
    · exact hbefore a ha
    · have := hbefore a ha
      have := hafter b hb
      omega
  · intro c hc
    rcases List.mem_append.mp hc with hc | hc
    · exact h₁.pos c hc
    · rcases List.mem_cons.mp hc with rfl | hc
      · exact hd
      · exact h₂.pos c hc

lemma cons {l : List Chunk} {d : Chunk} (h : Coalesced l) (hd : 0 < d.size)
    (hafter : ∀ b ∈ l, d.ref + d.size < b.ref) : Coalesced (d :: l) :=
  append_cons nil h hd (by simp) hafter

/-- The chunks after the first start after it ends. -/
lemma lt_of_mem_cons {d b : Chunk} {l : List Chunk} (h : Coalesced (d :: l)) (hb : b ∈ l) :
    d.ref + d.size < b.ref :=
  List.rel_of_pairwise_cons h.gaps hb

/-- The first chunk has the least key. -/
lemma ref_le_of_mem {d b : Chunk} {l : List Chunk} (h : Coalesced (d :: l)) (hb : b ∈ d :: l) :
    d.ref ≤ b.ref := by
  rcases List.mem_cons.mp hb with rfl | hb
  · exact le_rfl
  · have := h.lt_of_mem_cons hb
    omega

end Coalesced

/-! ## Positions in the map -/

lemma lowerBound_append {pre post : List Chunk} {ref : Nat} (hpre : ∀ p ∈ pre, p.ref < ref)
    (hpost : ∀ q ∈ post.head?, ref ≤ q.ref) : lowerBound (pre ++ post) ref = pre.length := by
  unfold lowerBound
  induction pre with
  | nil =>
    cases post with
    | nil => rfl
    | cons q post => simp [List.findIdx_cons, hpost q rfl]
  | cons p pre ih =>
    have hp : ¬ref ≤ p.ref := Nat.not_le.mpr (hpre p (List.mem_cons_self ..))
    rw [List.cons_append, List.findIdx_cons, ih fun p' hp' => hpre p' (List.mem_cons_of_mem _ hp')]
    simp [hp]

lemma insertIdx_length_append {α : Type*} (pre post : List α) (a : α) :
    (pre ++ post).insertIdx pre.length a = pre ++ a :: post := by
  induction pre <;> simp_all

/-- A chunk whose key lies strictly between the keys of two lists goes between them. -/
lemma emplace_append {pre post : List Chunk} {c : Chunk} (hpre : ∀ p ∈ pre, p.ref < c.ref)
    (hpost : ∀ q ∈ post, c.ref < q.ref) : emplace (pre ++ post) c = pre ++ c :: post := by
  have hany : (pre ++ post).any (·.ref == c.ref) = false := by
    rw [List.any_eq_false]
    intro x hx
    rcases List.mem_append.mp hx with hx | hx
    · have := hpre x hx
      simp only [beq_iff_eq]
      omega
    · have := hpost x hx
      simp only [beq_iff_eq]
      omega
  have hlb : lowerBound (pre ++ post) c.ref = pre.length :=
    lowerBound_append hpre fun q hq => Nat.le_of_lt (hpost q (List.mem_of_mem_head? hq))
  rw [emplace, hany, if_neg Bool.false_ne_true, hlb, insertIdx_length_append]

/-- A coalesced map splits at `lower_bound` into the chunks below `ref` and those from it. -/
lemma exists_split (chunks : List Chunk) (ref : Nat) :
    ∃ pre post, chunks = pre ++ post ∧ (∀ p ∈ pre, p.ref < ref) ∧ ∀ q ∈ post.head?, ref ≤ q.ref := by
  refine ⟨chunks.takeWhile (·.ref < ref), chunks.dropWhile (·.ref < ref),
    List.takeWhile_append_dropWhile.symm, fun p hp => ?_, fun q hq => ?_⟩
  · have hall := List.all_eq_true.mp
      (List.all_takeWhile (p := fun c : Chunk => decide (c.ref < ref)) (l := chunks))
    simpa using hall p hp
  · have hne : chunks.dropWhile (·.ref < ref) ≠ [] := by
      intro h
      simp [h] at hq
    have hhead := List.head_dropWhile_not (fun c : Chunk => decide (c.ref < ref)) hne
    rw [List.head?_eq_some_head hne, Option.mem_some_iff] at hq
    subst hq
    simpa using hhead

/-! ## One free -/

lemma mergeWithNext_nil (pre : List Chunk) (ref size : Nat) :
    mergeWithNext pre pre.length ref size = .ok (pre, size) := by
  simp [mergeWithNext, pure, Except.pure]

/-- The merge with the chunk `n` at `next`: the assertion, then the erase when the freed chunk
ends where `n` starts. -/
lemma mergeWithNext_cons (pre rest : List Chunk) (n : Chunk) (ref size : Nat) :
    mergeWithNext (pre ++ n :: rest) pre.length ref size =
      if ref + size ≤ n.ref then
        .ok (if ref + size = n.ref then (pre ++ rest, size + n.size) else (pre ++ n :: rest, size))
      else .error (.assertion "ref + size <= next->first") := by
  by_cases hle : ref + size ≤ n.ref
  · by_cases hadj : ref + size = n.ref <;>
      simp [mergeWithNext, assertRelease, hle, hadj, List.eraseIdx_append_of_length_le, bind,
        Except.bind, pure, Except.pure]
  · simp [mergeWithNext, assertRelease, hle, bind, Except.bind]

lemma mergeWithPrev_nil (post : List Chunk) (ref size : Nat) :
    mergeWithPrev post 0 ref size = .ok (emplace post ⟨ref, size⟩) := by
  simp [mergeWithPrev, pure, Except.pure]

/-- The merge with the chunk `b` before `next`: the assertion, then the growth of `b` when the
freed chunk starts where `b` ends, or the insertion. -/
lemma mergeWithPrev_concat (L post : List Chunk) (b : Chunk) (ref size : Nat) :
    mergeWithPrev (L ++ [b] ++ post) (L ++ [b]).length ref size =
      if b.ref + b.size ≤ ref then
        .ok (if b.ref + b.size = ref then L ++ ⟨b.ref, b.size + size⟩ :: post
          else emplace (L ++ [b] ++ post) ⟨ref, size⟩)
      else .error (.assertion "prev->first + prev->second <= ref") := by
  by_cases hle : b.ref + b.size ≤ ref
  · by_cases hadj : b.ref + b.size = ref <;>
      simp [mergeWithPrev, assertRelease, hle, hadj, bind, Except.bind, pure, Except.pure]
  · simp [mergeWithPrev, assertRelease, hle, bind, Except.bind]

/-- The merge with the next chunk, when the freed chunk ends by the start of every chunk from
`next` on: it answers the chunks before `next` unchanged, and a chunk from `ref` that fits before
the rest and holds the freed addresses and those of the chunk it absorbed. -/
lemma mergeWithNext_spec (pre : List Chunk) {post : List Chunk} {ref size : Nat}
    (hpost : Coalesced post) (hsize : 0 < size) (hstart : ∀ q ∈ post, ref + size ≤ q.ref) :
    ∃ post' size', mergeWithNext (pre ++ post) pre.length ref size = .ok (pre ++ post', size') ∧
      Coalesced (⟨ref, size'⟩ :: post') ∧
      (⟨ref, size'⟩ : Chunk).toSet ∪ cover post' = (⟨ref, size⟩ : Chunk).toSet ∪ cover post := by
  cases post with
  | nil =>
    refine ⟨[], size, by rw [List.append_nil, mergeWithNext_nil],
      Coalesced.cons Coalesced.nil hsize (by simp), rfl⟩
  | cons n rest =>
    have hle := hstart n (List.mem_cons_self ..)
    have hnpos := hpost.pos n (List.mem_cons_self ..)
    by_cases hadj : ref + size = n.ref
    · -- the next chunk is absorbed
      refine ⟨rest, size + n.size, ?_, ?_, ?_⟩
      · rw [mergeWithNext_cons, if_pos hle, if_pos hadj]
      · refine Coalesced.cons (hpost.sublist (List.sublist_cons_self _ _))
          (show 0 < size + n.size by omega) fun b hb => ?_
        have := hpost.lt_of_mem_cons hb
        dsimp only
        omega
      · have hpair := cover_pair_of_adjacent (c := ⟨ref, size⟩) (d := n) hadj
        simp only [cover_cons, cover_nil, Set.union_empty] at hpair
        rw [cover_cons, ← Set.union_assoc, hpair]
    · refine ⟨n :: rest, size, ?_, ?_, rfl⟩
      · rw [mergeWithNext_cons, if_pos hle, if_neg hadj]
      · refine Coalesced.cons hpost hsize fun b hb => ?_
        dsimp only
        rcases List.mem_cons.mp hb with rfl | hb
        · omega
        · have := hpost.lt_of_mem_cons hb
          omega

/-- The merge with the previous chunk, when the chunk from `ref` fits before the chunks from
`next` on and every chunk before `next` ends by `ref`: the map stays coalesced and holds the
same addresses. -/
lemma mergeWithPrev_spec {pre post : List Chunk} {ref size : Nat} (hpre : Coalesced pre)
    (hd : Coalesced (⟨ref, size⟩ :: post)) (hend : ∀ p ∈ pre, p.ref + p.size ≤ ref) :
    ∃ chunks', mergeWithPrev (pre ++ post) pre.length ref size = .ok chunks' ∧
      Coalesced chunks' ∧ cover chunks' = cover pre ∪ cover (⟨ref, size⟩ :: post) := by
  have hsize : 0 < size := hd.pos _ (List.mem_cons_self ..)
  have hafter : ∀ q ∈ post, ref < q.ref := fun q hq => by
    have := hd.lt_of_mem_cons hq
    dsimp only at this
    omega
  rcases List.eq_nil_or_concat pre with rfl | ⟨L, b, rfl⟩
  · -- nothing before `next`: the chunk goes to the front
    have hemp : emplace post ⟨ref, size⟩ = ⟨ref, size⟩ :: post :=
      @emplace_append [] post ⟨ref, size⟩ (by simp) hafter
    exact ⟨_, by rw [List.nil_append, List.length_nil, mergeWithPrev_nil, hemp], hd,
      by rw [cover_nil, Set.empty_union]⟩
  rw [List.concat_eq_append] at hpre hend ⊢
  have hb := hend b (by simp)
  have hL : Coalesced L := hpre.sublist (List.sublist_append_left _ _)
  have hLb : ∀ a ∈ L, a.ref + a.size < b.ref := fun a ha =>
    (List.pairwise_append.mp hpre.gaps).2.2 a ha b (List.mem_singleton_self b)
  by_cases hadj : b.ref + b.size = ref
  · -- the chunk before `next` grows by the freed one
    refine ⟨L ++ ⟨b.ref, b.size + size⟩ :: post, ?_, ?_, ?_⟩
    · rw [mergeWithPrev_concat, if_pos hb, if_pos hadj]
    · refine Coalesced.append_cons hL (hd.sublist (List.sublist_cons_self _ _))
        (show 0 < b.size + size by omega) hLb fun q hq => ?_
      have := hd.lt_of_mem_cons hq
      dsimp only at this ⊢
      omega
    · have hpair := cover_pair_of_adjacent (c := b) (d := ⟨ref, size⟩) hadj
      simp only [cover_cons, cover_nil, Set.union_empty] at hpair
      simp only [cover_append, cover_cons, cover_nil, Set.union_empty, ← hpair, Set.union_assoc]
  · -- the freed chunk goes after it
    have hlt : b.ref + b.size < ref := by omega
    have hbelow : ∀ p ∈ L ++ [b], p.ref < ref := fun p hp => by
      have := hend p hp
      have := hpre.pos p hp
      omega
    refine ⟨L ++ [b] ++ ⟨ref, size⟩ :: post, ?_, ?_, by rw [cover_append]⟩
    · rw [mergeWithPrev_concat, if_pos hb, if_neg hadj, emplace_append hbelow hafter]
    · refine Coalesced.append_cons hpre (hd.sublist (List.sublist_cons_self _ _)) hsize
        (fun a ha => ?_) (fun q hq => hd.lt_of_mem_cons hq)
      dsimp only
      rcases List.mem_append.mp ha with ha | ha
      · have := hLb a ha
        omega
      · rw [List.mem_singleton.mp ha]
        exact hlt

/-- A free of a chunk that shares no address with a coalesced map succeeds, keeps the map
coalesced, and adds exactly the chunk's addresses. -/
theorem doFreeReadOnly_spec {chunks : List Chunk} (h : Coalesced chunks) {c : Chunk}
    (href : c.ref ≠ 0) (halign : c.ref % 8 = 0) (hsize : 0 < c.size)
    (hdisj : Disjoint c.toSet (cover chunks)) :
    ∃ chunks', doFreeReadOnly chunks c.ref c.size = .ok chunks' ∧ Coalesced chunks' ∧
      cover chunks' = c.toSet ∪ cover chunks := by
  obtain ⟨pre, post, rfl, hpre, hpost⟩ := exists_split chunks c.ref
  have hsep : ∀ d ∈ pre ++ post, min (c.ref + c.size) (d.ref + d.size) ≤ max c.ref d.ref :=
    fun d hd => disjoint_toSet_iff.mp (hdisj.mono_right (toSet_subset_cover hd))
  -- the chunks below `c.ref` end by it, those from it on start after `c` ends
  have hend : ∀ p ∈ pre, p.ref + p.size ≤ c.ref := fun p hp => by
    have := hsep p (List.mem_append_left _ hp)
    have := hpre p hp
    omega
  have hpost' : Coalesced post := h.sublist (List.sublist_append_right _ _)
  have hstart : ∀ q ∈ post, c.ref + c.size ≤ q.ref := fun q hq => by
    obtain ⟨n, rest, rfl⟩ := List.exists_cons_of_ne_nil (List.ne_nil_of_mem hq)
    have := hpost n rfl
    have := hpost'.ref_le_of_mem hq
    have := hsep q (List.mem_append_right _ hq)
    have := hpost'.pos q hq
    omega
  obtain ⟨post', size', hnext, hcoal, hcover⟩ := mergeWithNext_spec pre hpost' hsize hstart
  obtain ⟨chunks', hprev, hcoal', hcover'⟩ :=
    mergeWithPrev_spec (h.sublist (List.sublist_append_left _ _)) hcoal hend
  refine ⟨chunks', ?_, hcoal', ?_⟩
  · simp [doFreeReadOnly, assertRelease, href, halign, lowerBound_append hpre hpost, hnext,
      hprev, bind, Except.bind]
  · rw [hcover', cover_cons, hcover, cover_append]
    exact Set.union_left_comm _ _ _

/-- A free of a chunk that shares an address with a coalesced map fails an assertion: the
chunk reaches past the start of the first chunk at or above its own start, or it starts before
the end of the chunk below. -/
theorem doFreeReadOnly_overlap {chunks : List Chunk} (h : Coalesced chunks) {c : Chunk}
    (hover : ¬Disjoint c.toSet (cover chunks)) :
    ∃ text, doFreeReadOnly chunks c.ref c.size = .error (.assertion text) := by
  by_cases href : c.ref = 0
  · exact ⟨"ref != 0", by simp [doFreeReadOnly, assertRelease, href, bind, Except.bind]⟩
  by_cases halign : c.ref % 8 = 0
  swap
  · exact ⟨"!(ref & 7)", by simp [doFreeReadOnly, assertRelease, href, halign, bind, Except.bind]⟩
  obtain ⟨pre, post, rfl, hpre, hpost⟩ := exists_split chunks c.ref
  have hfree : doFreeReadOnly (pre ++ post) c.ref c.size =
      mergeWithNext (pre ++ post) pre.length c.ref c.size >>=
        fun r => mergeWithPrev r.1 pre.length c.ref r.2 := by
    simp [doFreeReadOnly, assertRelease, href, halign, lowerBound_append hpre hpost, bind,
      Except.bind]
  obtain ⟨x, hxc, q, hq, hxq⟩ := Set.not_disjoint_iff.mp hover
  rw [mem_toSet] at hxc hxq
  rcases List.mem_append.mp hq with hq | hq
  · -- `q` starts below `c.ref`, so it is the last such chunk, and it ends past `c.ref`
    obtain ⟨L, b, rfl⟩ := (List.eq_nil_or_concat pre).resolve_left (List.ne_nil_of_mem hq)
    rw [List.concat_eq_append] at h hpre hq hfree ⊢
    have hqb : b.ref + b.size > c.ref := by
      rcases List.mem_append.mp hq with hq | hq
      · have := (List.pairwise_append.mp h.gaps).1
        have := (List.pairwise_append.mp this).2.2 q hq b (List.mem_singleton_self b)
        have := hpre b (by simp)
        omega
      · rw [List.mem_singleton.mp hq] at hxq
        omega
    have hprev : ∀ post', ∀ size', mergeWithPrev (L ++ [b] ++ post') (L ++ [b]).length c.ref size' =
        .error (.assertion "prev->first + prev->second <= ref") := fun post' size' => by
      rw [mergeWithPrev_concat, if_neg (by omega)]
    cases post with
    | nil =>
      refine ⟨"prev->first + prev->second <= ref", ?_⟩
      have hnil := hprev [] c.size
      rw [List.append_nil] at hnil
      rw [hfree, List.append_nil, mergeWithNext_nil]
      exact hnil
    | cons n rest =>
      rw [hfree, mergeWithNext_cons]
      by_cases hle : c.ref + c.size ≤ n.ref
      · refine ⟨"prev->first + prev->second <= ref", ?_⟩
        rw [if_pos hle]
        split_ifs
        · exact hprev rest _
        · exact hprev (n :: rest) _
      · exact ⟨"ref + size <= next->first", by rw [if_neg hle]; rfl⟩
  · -- `q` starts at `c.ref` or above, so the first such chunk starts before `c` ends
    obtain ⟨n, rest, rfl⟩ := List.exists_cons_of_ne_nil (List.ne_nil_of_mem hq)
    have := (h.sublist (List.sublist_append_right _ _)).ref_le_of_mem hq
    exact ⟨"ref + size <= next->first", by rw [hfree, mergeWithNext_cons, if_neg (by omega)]; rfl⟩

/-! ## Runs of frees -/

lemma freeAll_append (chunks l l' : List Chunk) :
    freeAll chunks (l ++ l') = freeAll chunks l >>= fun chunks => freeAll chunks l' :=
  List.foldlM_append

/-- Frees of separate chunks that share no address with a coalesced map succeed one after the
other, and leave it coalesced with their addresses added. -/
lemma freeAll_spec {chunks frees : List Chunk} (h : Coalesced chunks)
    (hfrees : ∀ c ∈ frees, c.ref ≠ 0 ∧ c.ref % 8 = 0 ∧ 0 < c.size) (hsep : Separate frees)
    (hdisj : Disjoint (cover frees) (cover chunks)) :
    ∃ chunks', freeAll chunks frees = .ok chunks' ∧ Coalesced chunks' ∧
      cover chunks' = cover frees ∪ cover chunks := by
  refine Run.runExcept_spec (I := fun done s => Coalesced s ∧ cover s = cover done ∪ cover chunks)
    frees ⟨h, by rw [cover_nil, Set.empty_union]⟩ fun done o s hprefix ⟨hs, hcover⟩ => ?_
  have ho : o ∈ frees := hprefix.subset (by simp)
  obtain ⟨href, halign, hsize⟩ := hfrees o ho
  -- `o` is separate from the earlier frees, and it was not in the map to begin with
  have hdone : Disjoint (cover done) o.toSet := by
    have := (separate_append.mp (hsep.sublist hprefix.sublist)).2.2
    rwa [cover_cons, cover_nil, Set.union_empty] at this
  have hmap : Disjoint o.toSet (cover chunks) := hdisj.mono_left (toSet_subset_cover ho)
  obtain ⟨s', hstep, hs', hcover'⟩ := doFreeReadOnly_spec hs href halign hsize
    (by rw [hcover]; exact Disjoint.union_right hdone.symm hmap)
  refine ⟨s', hstep, hs', ?_⟩
  rw [hcover', hcover, cover_append, cover_cons, cover_nil, Set.union_empty]
  ext x
  simp only [Set.mem_union]
  tauto

/-- Frees of separate chunks of the read-only part, each at a ref other than the null ref,
aligned to 8, with the positive size of an array, leave `m_free_read_only` coalesced and holding
exactly the freed addresses; a further free of a chunk that shares an address with them stops
at a release assertion. -/
theorem freeReadOnly_coalesces :
    (∀ frees : List Chunk, (∀ c ∈ frees, c.ref ≠ 0 ∧ c.ref % 8 = 0 ∧ 0 < c.size) →
      Separate frees →
      ∃ chunks, freeAll [] frees = .ok chunks ∧ Coalesced chunks ∧ cover chunks = cover frees) ∧
    ∀ (frees : List Chunk) (c : Chunk), (∀ c ∈ frees, c.ref ≠ 0 ∧ c.ref % 8 = 0 ∧ 0 < c.size) →
      Separate frees → ¬Disjoint c.toSet (cover frees) →
      ∃ text, freeAll [] (frees ++ [c]) = .error (.assertion text) := by
  have hrun : ∀ frees : List Chunk, (∀ c ∈ frees, c.ref ≠ 0 ∧ c.ref % 8 = 0 ∧ 0 < c.size) →
      Separate frees →
      ∃ chunks, freeAll [] frees = .ok chunks ∧ Coalesced chunks ∧ cover chunks = cover frees := by
    intro frees hfrees hsep
    obtain ⟨chunks, hok, hcoal, hcover⟩ :=
      freeAll_spec Coalesced.nil hfrees hsep (by rw [cover_nil]; exact disjoint_bot_right)
    exact ⟨chunks, hok, hcoal, by rw [hcover, cover_nil, Set.union_empty]⟩
  refine ⟨hrun, fun frees c hfrees hsep hover => ?_⟩
  obtain ⟨chunks, hok, hcoal, hcover⟩ := hrun frees hfrees hsep
  obtain ⟨text, herr⟩ := doFreeReadOnly_overlap hcoal (by rwa [hcover])
  refine ⟨text, ?_⟩
  rw [freeAll_append, hok]
  simp [freeAll, Run.runExcept, herr, bind, Except.bind]

/-- Three chunks freed out of order merge into one, and a free reaching into it from below
stops at an assertion. -/
theorem freeReadOnly_coalesces_sample :
    (∃ chunks, freeAll [] [⟨16, 8⟩, ⟨32, 8⟩, ⟨24, 8⟩] = .ok chunks ∧ Coalesced chunks ∧
      cover chunks = cover [⟨16, 8⟩, ⟨32, 8⟩, ⟨24, 8⟩]) ∧
    ∃ text, freeAll [] ([⟨16, 8⟩, ⟨32, 8⟩, ⟨24, 8⟩] ++ [⟨8, 16⟩]) = .error (.assertion text) := by
  have hsep : Separate [⟨16, 8⟩, ⟨32, 8⟩, ⟨24, 8⟩] := by
    simp only [Separate, disjoint_toSet_iff]
    decide
  have hover : ¬Disjoint (⟨8, 16⟩ : Chunk).toSet (cover [⟨16, 8⟩, ⟨32, 8⟩, ⟨24, 8⟩]) :=
    Set.not_disjoint_iff.mpr ⟨16, by simp, toSet_subset_cover (c := ⟨16, 8⟩) (by simp) (by simp)⟩
  exact ⟨freeReadOnly_coalesces.1 _ (by decide) hsep,
    freeReadOnly_coalesces.2 _ _ (by decide) hsep hover⟩

end Realm.SlabAlloc
