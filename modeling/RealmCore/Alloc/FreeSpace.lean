import Mathlib
import RealmCore.Alloc.GroupWriter

/-!
# File space is never handed out twice

The chunks a commit keeps fall in three lists: those it may still hand out (the size map, and
the chunks held back by an evacuation), those pinned by a version still alive, and those it has
handed out.  `Sound` is what keeps the commit safe: all of them are separate and lie in the
file, and every chunk that is or was available lies in the space that was free at the start or
in the space the commit added to the file.

Every function of the model only rearranges these chunks by the rules of `RealmCore.Lib.Chunk`:
`split_freelist_chunk` replaces a chunk by two pieces of it, `get_free_space` carves the room
off the front of a chunk and hands it out, giving up the evacuation moves chunks into the size
map, and `extend_free_space` adds a chunk past the end of the file.  `read_in_freelist` starts
it: it files pieces of the free lists into the three lists and merges neighbours.
-/

namespace Realm.GroupWriter

open Chunk

/-! ## The invariant -/

/-- The free space of a commit is sound, with the chunks `out` handed out so far and the file
of size `L`: the chunks `available`, `pinned` and `out` share no address and lie in the file,
and those available or handed out lie in `free`, or in the space added to the file from `L₀`
on. -/
structure Sound (free : Set Nat) (L₀ : Nat) (available pinned out : List Chunk) (L : Nat) :
    Prop where
  separate : Separate (available ++ pinned ++ out)
  inFile : cover (available ++ pinned ++ out) ⊆ Set.Iio L
  fromFree : cover (available ++ out) ⊆ free ∪ Set.Ico L₀ L
  start_le : L₀ ≤ L

section Rules

variable {free : Set Nat} {L₀ L : Nat} {c : Chunk} {A A' P O O' pieces : List Chunk}

/-- Moving chunks between the available and the handed out ones, or reordering them, keeps the
invariant. -/
lemma Sound.perm (h : Sound free L₀ A P O L) (hall : (A ++ P ++ O).Perm (A' ++ P ++ O'))
    (havail : (A ++ O).Perm (A' ++ O')) : Sound free L₀ A' P O' L :=
  ⟨(separate_perm hall).mp h.separate, cover_perm hall ▸ h.inFile,
    cover_perm havail ▸ h.fromFree, h.start_le⟩

/-- Reordering the available chunks changes nothing. -/
lemma Sound.perm_available (h : Sound free L₀ A P O L) (hA : A.Perm A') : Sound free L₀ A' P O L :=
  h.perm ((hA.append_right P).append_right O) (hA.append_right O)

/-- Reordering the chunks handed out changes nothing. -/
lemma Sound.perm_out (h : Sound free L₀ A P O L) (hO : O.Perm O') : Sound free L₀ A P O' L :=
  h.perm (List.Perm.append_left _ hO) (List.Perm.append_left _ hO)

/-- An available chunk is handed out. -/
lemma Sound.handOut (h : Sound free L₀ (c :: A) P O L) : Sound free L₀ A P (c :: O) L :=
  h.perm (@List.perm_middle _ c (A ++ P) O).symm (@List.perm_middle _ c A O).symm

/-- Available chunks at the front may be replaced by separate chunks within them. -/
lemma Sound.replaceFront {B B' : List Chunk} (h : Sound free L₀ (B ++ A) P O L)
    (hsep : Separate B') (hsub : cover B' ⊆ cover B) : Sound free L₀ (B' ++ A) P O L := by
  have hsep' : Separate (B ++ (A ++ P ++ O)) := by
    simpa only [List.append_assoc] using h.separate
  refine ⟨by simpa only [List.append_assoc] using hsep'.replace hsep hsub, ?_, ?_, h.start_le⟩
  · have hin : cover (B ++ (A ++ P ++ O)) ⊆ Set.Iio L := by
      simpa only [List.append_assoc] using h.inFile
    simpa only [List.append_assoc] using (cover_append_mono (A ++ P ++ O) hsub).trans hin
  · have hfree : cover (B ++ (A ++ O)) ⊆ free ∪ Set.Ico L₀ L := by
      simpa only [List.append_assoc] using h.fromFree
    simpa only [List.append_assoc] using (cover_append_mono (A ++ O) hsub).trans hfree

/-- An available chunk may be replaced by separate pieces of it. -/
lemma Sound.replace (h : Sound free L₀ (c :: A) P O L) (hsep : Separate pieces)
    (hsub : cover pieces ⊆ c.toSet) : Sound free L₀ (pieces ++ A) P O L :=
  Sound.replaceFront (B := [c]) h hsep (by simpa using hsub)

/-- Reordering the pinned chunks changes nothing. -/
lemma Sound.perm_pinned (h : Sound free L₀ A P O L) {P' : List Chunk} (hP : P.Perm P') :
    Sound free L₀ A P' O L where
  separate := (separate_perm ((hP.append_left A).append_right O)).mp h.separate
  inFile := cover_perm ((hP.append_left A).append_right O) ▸ h.inFile
  fromFree := h.fromFree
  start_le := h.start_le

/-- A pinned chunk that lies in the free space may become available. -/
lemma Sound.release (h : Sound free L₀ A (c :: P) O L) (hc : c.toSet ⊆ free) :
    Sound free L₀ (c :: A) P O L := by
  have hall : (A ++ c :: P ++ O).Perm ((c :: A) ++ P ++ O) :=
    List.perm_middle.append_right O
  refine ⟨(separate_perm hall).mp h.separate, cover_perm hall ▸ h.inFile, ?_, h.start_le⟩
  simp only [List.cons_append, cover_cons]
  exact Set.union_subset (hc.trans Set.subset_union_left) h.fromFree

/-- Dropping available chunks keeps the invariant. -/
lemma Sound.sublist (h : Sound free L₀ A P O L) (hA : A'.Sublist A) : Sound free L₀ A' P O L where
  separate := h.separate.sublist ((hA.append_right P).append_right O)
  inFile := (cover_mono ((hA.append_right P).append_right O).subset).trans h.inFile
  fromFree := (cover_mono (hA.append_right O).subset).trans h.fromFree
  start_le := h.start_le

/-- The space from the end of the file to its new end may join the available chunks. -/
lemma Sound.extend (h : Sound free L₀ A P O L) {N : Nat} (hN : L ≤ N) :
    Sound free L₀ (⟨L, N - L⟩ :: A) P O N where
  separate := by
    simpa only [List.cons_append] using h.separate.cons_of_le h.inFile
  inFile := by
    simp only [List.cons_append, cover_cons]
    refine Set.union_subset (fun x hx => ?_) (h.inFile.trans (Set.Iio_subset_Iio hN))
    simp only [mem_toSet, Set.mem_Iio] at hx ⊢
    omega
  fromFree := by
    simp only [List.cons_append, cover_cons]
    refine Set.union_subset (fun x hx => .inr ?_)
      (h.fromFree.trans (Set.union_subset_union_right _ (Set.Ico_subset_Ico_right hN)))
    have := h.start_le
    simp only [mem_toSet, Set.mem_Ico] at hx ⊢
    omega
  start_le := le_trans h.start_le hN

end Rules

/-! ## The chunks of a `GroupWriter` -/

/-- The chunk of an entry (size, position) of the size map. -/
def sizeMapChunk (e : Nat × Nat) : Chunk := ⟨e.2, e.1⟩

/-- The chunks a commit may still hand out: those of the size map and those held back. -/
def available (w : GroupWriter) : List Chunk :=
  w.sizeMap.map sizeMapChunk ++ w.underEvacuation.map FreeSpaceEntry.chunk

/-- The chunks pinned by versions still alive. -/
def pinned (w : GroupWriter) : List Chunk := w.notFreeInFile.map FreeSpaceEntry.chunk

/-- The invariant of the state `w`, with the chunks `out` handed out. -/
def Safe (free : Set Nat) (L₀ : Nat) (w : GroupWriter) (out : List Chunk) : Prop :=
  Sound free L₀ w.available w.pinned out w.logicalSize

section Except

variable {ε α β : Type}

lemma bind_eq_ok {x : Except ε α} {f : α → Except ε β} {b : β} :
    x >>= f = .ok b ↔ ∃ a, x = .ok a ∧ f a = .ok b := by
  cases x <;> simp [bind, Except.bind]

lemma assertRelease_eq_ok {condition : Prop} [Decidable condition] {text : String} {u : Unit} :
    assertRelease condition text = .ok u ↔ condition := by
  unfold assertRelease
  split <;> simp_all

end Except

section SizeMap

variable {free : Set Nat} {L₀ : Nat} {w : GroupWriter} {out : List Chunk}

lemma perm_emplace (m : List (Nat × Nat)) (k v : Nat) :
    ((MultiMap.emplace m k v).1.map sizeMapChunk).Perm (⟨v, k⟩ :: m.map sizeMapChunk) :=
  MultiMap.emplace_perm.map sizeMapChunk

lemma perm_eraseIdx {m : List (Nat × Nat)} {i n r : Nat} (hi : m[i]? = some (n, r)) :
    (m.map sizeMapChunk).Perm (⟨r, n⟩ :: (m.eraseIdx i).map sizeMapChunk) :=
  (MultiMap.perm_cons_eraseIdx hi).map sizeMapChunk

/-- A size map that holds separate pieces of one chunk of the old one, and its other chunks,
keeps the invariant. -/
lemma Safe.setSizeMap (h : Safe free L₀ w out) {i n r : Nat} (hi : w.sizeMap[i]? = some (n, r))
    {m : List (Nat × Nat)} {pieces : List Chunk}
    (hm : (m.map sizeMapChunk).Perm (pieces ++ (w.sizeMap.eraseIdx i).map sizeMapChunk))
    (hsep : Separate pieces) (hsub : cover pieces ⊆ (⟨r, n⟩ : Chunk).toSet) :
    Safe free L₀ { w with sizeMap := m } out := by
  have hfront : Sound free L₀ (⟨r, n⟩ :: ((w.sizeMap.eraseIdx i).map sizeMapChunk ++
      w.underEvacuation.map FreeSpaceEntry.chunk)) w.pinned out w.logicalSize :=
    Sound.perm_available h ((perm_eraseIdx hi).append_right _)
  have hpieces := hfront.replace hsep hsub
  rw [← List.append_assoc] at hpieces
  exact hpieces.perm_available (hm.symm.append_right _)

/-- Carving `size` bytes off the front of a chunk of the size map hands them out; the rest, if
any, stays in the size map. -/
lemma Safe.carve (h : Safe free L₀ w out) {i n a size : Nat} (hi : w.sizeMap[i]? = some (n, a))
    (hsize : size ≤ n) {m : List (Nat × Nat)}
    (hm : (m.map sizeMapChunk).Perm ((if size < n then [(⟨a + size, n - size⟩ : Chunk)] else []) ++
      (w.sizeMap.eraseIdx i).map sizeMapChunk)) :
    Safe free L₀ { w with sizeMap := m } (⟨a, size⟩ :: out) := by
  have hfront : Sound free L₀ (⟨a, n⟩ :: ((w.sizeMap.eraseIdx i).map sizeMapChunk ++
      w.underEvacuation.map FreeSpaceEntry.chunk)) w.pinned out w.logicalSize :=
    Sound.perm_available h ((perm_eraseIdx hi).append_right _)
  -- cut the chunk at `size`, and hand out its first piece
  have hcut := (hfront.replace (separate_pair_of_adjacent (c := ⟨a, size⟩)
    (d := ⟨a + size, n - size⟩) rfl) (by rw [cover_pair_of_adjacent rfl, Nat.add_sub_cancel' hsize])).handOut
  have hrest : Sound free L₀ ((if size < n then [(⟨a + size, n - size⟩ : Chunk)] else []) ++
      ((w.sizeMap.eraseIdx i).map sizeMapChunk ++ w.underEvacuation.map FreeSpaceEntry.chunk))
      w.pinned (⟨a, size⟩ :: out) w.logicalSize := by
    split
    · exact hcut
    · exact hcut.sublist (List.sublist_cons_self _ _)
  rw [← List.append_assoc] at hrest
  exact hrest.perm_available (hm.symm.append_right _)

/-! ## Searching the size map -/

/-- What a search for `size` bytes returns, `(j, w')`: a state that keeps the invariant, whose
chunk at `j` starts with room for `size` bytes that does not cross a section boundary. -/
structure Found (free : Set Nat) (L₀ : Nat) (out : List Chunk) (size : Nat)
    (r : Nat × GroupWriter) : Prop where
  safe : Safe free L₀ r.2 out
  fits : ∃ n a, r.2.sizeMap[r.1]? = some (n, a) ∧ size ≤ n ∧ a + size ≤ getUpperSectionBoundary a

lemma splitFreelistChunk_spec {it allocPos j n r : Nat} {w' : GroupWriter}
    (hi : w.sizeMap[it]? = some (n, r)) (hok : w.splitFreelistChunk it allocPos = .ok (j, w')) :
    r < allocPos ∧ ∃ m, w' = { w with sizeMap := m } ∧
      m[j]? = some (n - (allocPos - r), allocPos) ∧
      (m.map sizeMapChunk).Perm ([⟨r, allocPos - r⟩, ⟨allocPos, n - (allocPos - r)⟩] ++
        (w.sizeMap.eraseIdx it).map sizeMapChunk) := by
  unfold splitFreelistChunk at hok
  rw [List.getD_eq_getElem?_getD, hi, Option.getD_some] at hok
  obtain ⟨_, hgt, hok⟩ := bind_eq_ok.1 hok
  obtain ⟨_, _, hok⟩ := bind_eq_ok.1 hok
  dsimp only at hok
  rcases he : MultiMap.emplace (MultiMap.emplace (w.sizeMap.eraseIdx it) (allocPos - r) r).1
    (n - (allocPos - r)) allocPos with ⟨m, second⟩
  rw [he] at hok
  simp only [pure, Except.pure, Except.ok.injEq, Prod.mk.injEq] at hok
  obtain ⟨rfl, rfl⟩ := hok
  refine ⟨assertRelease_eq_ok.1 hgt, m, rfl, ?_, ?_⟩
  · have := MultiMap.getElem?_emplace (m := (MultiMap.emplace (w.sizeMap.eraseIdx it)
      (allocPos - r) r).1) (k := n - (allocPos - r)) (v := allocPos)
    rwa [he] at this
  · have hfirst := perm_emplace (w.sizeMap.eraseIdx it) (allocPos - r) r
    have hsecond := perm_emplace (MultiMap.emplace (w.sizeMap.eraseIdx it) (allocPos - r) r).1
      (n - (allocPos - r)) allocPos
    rw [he] at hsecond
    exact hsecond.trans ((hfirst.cons _).trans (List.Perm.swap _ _ _))

/-- A search in one chunk of the size map finds room as it says, and only splits the chunk. -/
lemma searchFreeSpaceInFreeListElement_found (h : Safe free L₀ w out) {it size : Nat}
    {r : Nat × GroupWriter} (hok : w.searchFreeSpaceInFreeListElement it size = .ok (some r)) :
    Found free L₀ out size r := by
  unfold searchFreeSpaceInFreeListElement at hok
  rw [List.getD_eq_getElem?_getD] at hok
  rcases hi : w.sizeMap[it]? with _ | ⟨n, start⟩
  · -- past the end there is no chunk, and no room
    simp [hi, findSectionInRange_zero] at hok
  rw [hi, Option.getD_some] at hok
  dsimp only at hok
  by_cases h0 : findSectionInRange start n size = 0
  · simp [h0] at hok
  obtain ⟨hle, hend, hsec, -⟩ := findSectionInRange_spec h0
  rw [if_neg h0] at hok
  by_cases hstart : findSectionInRange start n size = start
  · -- the room starts the chunk
    simp only [hstart, ne_eq, not_true_eq_false, if_false, Except.ok.injEq,
      Option.some.injEq] at hok
    subst hok
    rw [hstart] at hend hsec
    exact ⟨h, n, start, hi, by omega, hsec⟩
  · -- the chunk is split where the room starts
    rw [if_pos hstart] at hok
    rcases hsplit : w.splitFreelistChunk it (findSectionInRange start n size) with _ | ⟨j, w'⟩
    · simp [hsplit, Except.map] at hok
    simp only [hsplit, Except.map, Except.ok.injEq, Option.some.injEq] at hok
    subst hok
    obtain ⟨hlt, m, rfl, hj, hm⟩ := splitFreelistChunk_spec hi hsplit
    have hadj : start + (findSectionInRange start n size - start) =
        findSectionInRange start n size := by omega
    refine ⟨h.setSizeMap hi hm (separate_pair_of_adjacent hadj) ?_,
      n - (findSectionInRange start n size - start), findSectionInRange start n size, hj,
      by omega, hsec⟩
    rw [cover_pair_of_adjacent hadj]
    intro x hx
    simp only [mem_toSet] at hx ⊢
    omega

/-- The loop of `search_free_space_in_part_of_freelist` finds room as it says. -/
lemma searchFreeSpaceLoop_found (h : Safe free L₀ w out) {size : Nat} :
    ∀ fuel it r, w.searchFreeSpaceLoop size fuel it = .ok (some r) → Found free L₀ out size r := by
  intro fuel
  induction fuel with
  | zero => intro it r hok; simp [searchFreeSpaceLoop] at hok
  | succ fuel ih =>
    intro it r hok
    simp only [searchFreeSpaceLoop] at hok
    rcases hi : w.sizeMap[it]? with _ | ⟨n, start⟩
    · simp [hi] at hok
    simp only [hi] at hok
    split at hok
    · -- a chunk of the right size is searched, then the search goes on
      rcases he : w.searchFreeSpaceInFreeListElement it size with e | _ | r'
      · simp [he] at hok
      · simp only [he] at hok
        exact ih _ _ hok
      · simp only [he, Except.ok.injEq, Option.some.injEq] at hok
        subst hok
        exact searchFreeSpaceInFreeListElement_found h he
    · exact ih _ _ hok

lemma searchFreeSpaceInPartOfFreelist_found (h : Safe free L₀ w out) {size : Nat}
    {r : Nat × GroupWriter} (hok : w.searchFreeSpaceInPartOfFreelist size = .ok (some r)) :
    Found free L₀ out size r :=
  searchFreeSpaceLoop_found h _ _ _ hok

/-! ## Extending the file and giving up the evacuation -/

/-- `extend_free_space` adds the space from the old end of the file to its new end as one chunk
of the size map, at the position it returns. -/
lemma extendFreeSpace_spec {pageSize size j : Nat} {w' : GroupWriter}
    (hok : w.extendFreeSpace pageSize size = .ok (j, w')) :
    w.logicalSize < w'.logicalSize ∧
      ∃ m, w' = { w with sizeMap := m, logicalSize := w'.logicalSize } ∧
        m[j]? = some (w'.logicalSize - w.logicalSize, w.logicalSize) ∧
        (m.map sizeMapChunk).Perm
          (⟨w.logicalSize, w'.logicalSize - w.logicalSize⟩ :: w.sizeMap.map sizeMapChunk) := by
  unfold extendFreeSpace at hok
  dsimp only at hok
  split at hok
  · cases hok
  obtain ⟨_, _, hok⟩ := bind_eq_ok.1 hok
  obtain ⟨_, _, hok⟩ := bind_eq_ok.1 hok
  obtain ⟨_, hne, hok⟩ := bind_eq_ok.1 hok
  have hlt : w.logicalSize < newFileSize pageSize (minimalNewSize w.logicalSize size) := by
    have := assertRelease_eq_ok.1 hne
    omega
  rcases he : MultiMap.emplace w.sizeMap (newFileSize pageSize (minimalNewSize w.logicalSize size) -
    w.logicalSize) w.logicalSize with ⟨m, it⟩
  rw [he] at hok
  simp only [pure, Except.pure, Except.ok.injEq, Prod.mk.injEq] at hok
  obtain ⟨rfl, rfl⟩ := hok
  refine ⟨hlt, m, rfl, ?_, ?_⟩
  · have := MultiMap.getElem?_emplace (m := w.sizeMap) (k := newFileSize pageSize
      (minimalNewSize w.logicalSize size) - w.logicalSize) (v := w.logicalSize)
    rwa [he] at this
  · have := perm_emplace w.sizeMap (newFileSize pageSize (minimalNewSize w.logicalSize size) -
      w.logicalSize) w.logicalSize
    rwa [he] at this

/-- The new end of the file is available. -/
lemma Safe.extendFreeSpace (h : Safe free L₀ w out) {pageSize size j : Nat} {w' : GroupWriter}
    (hok : w.extendFreeSpace pageSize size = .ok (j, w')) : Safe free L₀ w' out := by
  obtain ⟨hlt, m, hw', -, hm⟩ := extendFreeSpace_spec hok
  have hext := Sound.extend h hlt.le
  rw [hw']
  exact hext.perm_available ((hm.symm).append_right _)

/-- Emplacing entries into the size map adds their chunks. -/
lemma perm_foldl_emplace (l : List FreeSpaceEntry) (m : List (Nat × Nat)) :
    ((l.foldl (fun m e => (MultiMap.emplace m e.size e.ref).1) m).map sizeMapChunk).Perm
      (l.map FreeSpaceEntry.chunk ++ m.map sizeMapChunk) := by
  induction l generalizing m with
  | nil => rfl
  | cons e l ih =>
    exact (ih _).trans (((perm_emplace m e.size e.ref).append_left _).trans List.perm_middle)

/-- Giving up the evacuation moves the chunks held back into the size map. -/
lemma Safe.giveUpEvacuation (h : Safe free L₀ w out) : Safe free L₀ w.giveUpEvacuation out := by
  have hperm : w.giveUpEvacuation.available.Perm w.available := by
    simp only [available, GroupWriter.giveUpEvacuation, List.map_nil, List.append_nil]
    exact (perm_foldl_emplace _ _).trans List.perm_append_comm
  exact Sound.perm_available h hperm.symm

/-! ## `reserve_free_space` and `get_free_space` -/

/-- The loop of `reserve_free_space` finds room as it says. -/
lemma reserveLoop_found {pageSize size : Nat} :
    ∀ fuel w r, Safe free L₀ w out → reserveLoop pageSize size fuel w = .ok r →
      Found free L₀ out size r := by
  intro fuel
  induction fuel with
  | zero => intro w r _ hok; cases hok
  | succ fuel ih =>
    intro w r h hok
    simp only [reserveLoop] at hok
    split at hok
    · -- the evacuation is given up, and the whole size map searched again
      have hgive := h.giveUpEvacuation
      split at hok
      · rename_i found hfound
        cases hok
        exact searchFreeSpaceInPartOfFreelist_found hgive hfound
      · exact ih _ _ hgive hok
      · cases hok
    · -- the file is extended, and the new chunk searched
      split at hok
      · rename_i newChunk w' hext
        have hsafe := h.extendFreeSpace hext
        split at hok
        · rename_i found hfound
          cases hok
          exact searchFreeSpaceInFreeListElement_found hsafe hfound
        · exact ih _ _ hsafe hok
        · cases hok
      · cases hok

lemma reserveFreeSpace_found (h : Safe free L₀ w out) {pageSize fuel size : Nat}
    {r : Nat × GroupWriter} (hok : w.reserveFreeSpace pageSize fuel size = .ok r) :
    Found free L₀ out size r := by
  unfold reserveFreeSpace at hok
  split at hok
  · rename_i found hfound
    cases hok
    exact searchFreeSpaceInPartOfFreelist_found h hfound
  · exact reserveLoop_found _ _ _ h hok
  · cases hok

/-- `get_free_space(size)` hands out `size` bytes at an 8-byte aligned position, within one
section, and keeps the invariant. -/
lemma getFreeSpace_spec (h : Safe free L₀ w out) {pageSize fuel size p : Nat}
    {w' : GroupWriter} (hok : w.getFreeSpace pageSize fuel size = .ok (p, w')) :
    Safe free L₀ w' (⟨p, size⟩ :: out) ∧ p % 8 = 0 ∧ p + size ≤ getUpperSectionBoundary p := by
  unfold getFreeSpace at hok
  obtain ⟨⟨j, w₁⟩, hres, hok⟩ := bind_eq_ok.1 hok
  obtain ⟨hsafe, n, a, hj, hsize, hsec⟩ := reserveFreeSpace_found h hres
  dsimp only at hok
  rw [List.getD_eq_getElem?_getD, hj, Option.getD_some] at hok
  dsimp only at hok
  obtain ⟨_, halign, hok⟩ := bind_eq_ok.1 hok
  obtain ⟨_, _, hok⟩ := bind_eq_ok.1 hok
  simp only [pure, Except.pure, Except.ok.injEq, Prod.mk.injEq] at hok
  obtain ⟨rfl, rfl⟩ := hok
  refine ⟨hsafe.carve hj hsize ?_, assertRelease_eq_ok.1 halign, hsec⟩
  -- what is left of the chunk goes back into the size map
  by_cases hrest : size < n
  · rw [if_pos (by omega), if_pos hrest]
    exact perm_emplace _ _ _
  · rw [if_neg (by omega), if_neg hrest]
    rfl

/-- The calls of a commit hand out chunks at 8-byte aligned positions, within one section each,
and keep the invariant. -/
lemma getFreeSpaceRun_spec {pageSize fuel : Nat} :
    ∀ (sizes : List Nat) (w : GroupWriter) (out chunks : List Chunk) (w' : GroupWriter),
      Safe free L₀ w out → getFreeSpaceRun pageSize fuel w sizes = .ok (chunks, w') →
      Safe free L₀ w' (chunks ++ out) ∧
        ∀ c ∈ chunks, c.ref % 8 = 0 ∧ c.ref + c.size ≤ getUpperSectionBoundary c.ref := by
  intro sizes
  induction sizes with
  | nil =>
    intro w out chunks w' h hok
    simp only [getFreeSpaceRun, Except.ok.injEq, Prod.mk.injEq] at hok
    obtain ⟨rfl, rfl⟩ := hok
    exact ⟨h, fun c hc => nomatch hc⟩
  | cons size sizes ih =>
    intro w out chunks w' h hok
    simp only [getFreeSpaceRun] at hok
    obtain ⟨⟨p, w₁⟩, hget, hok⟩ := bind_eq_ok.1 hok
    obtain ⟨⟨rest, w₂⟩, hrun, hok⟩ := bind_eq_ok.1 hok
    simp only [pure, Except.pure, Except.ok.injEq, Prod.mk.injEq] at hok
    obtain ⟨rfl, rfl⟩ := hok
    obtain ⟨h₁, halign, hsec⟩ := getFreeSpace_spec h hget
    obtain ⟨h₂, hrest⟩ := ih _ _ _ _ h₁ hrun
    refine ⟨Sound.perm_out h₂ List.perm_middle, fun c hc => ?_⟩
    rcases List.mem_cons.mp hc with rfl | hc
    · exact ⟨halign, hsec⟩
    · exact hrest c hc

/-! ## `read_in_freelist` -/

/-- The space the free lists give as free and that no version still alive can see: the entries
released at or before the oldest version still reachable. -/
def releasedBefore (entries : List FreeSpaceEntry) (oldestReachableVersion : Nat) : Set Nat :=
  cover ((entries.filter fun e => e.releasedAtVersion ≤ oldestReachableVersion).map
    FreeSpaceEntry.chunk)

/-- The loop of `read_in_freelist` with the entries `rest` still to come: the chunks filed as
free or held back are available, those pinned and those still to come are pinned, and every
entry still to come that no version alive can see lies in `free`. -/
def ReadState (free : Set Nat) (L₀ limitVersion : Nat)
    (acc : List FreeSpaceEntry × List FreeSpaceEntry × List FreeSpaceEntry)
    (rest : List FreeSpaceEntry) : Prop :=
  Sound free L₀ ((acc.1 ++ acc.2.2).map FreeSpaceEntry.chunk)
      (acc.2.1.map FreeSpaceEntry.chunk ++ rest.map FreeSpaceEntry.chunk) [] L₀ ∧
    ∀ e ∈ rest, e.releasedAtVersion ≤ limitVersion → e.chunk.toSet ⊆ free

/-- One entry is filed: pinned, or split at the evacuation limit, or held back, or free. -/
lemma ReadState.readEntry {free : Set Nat} {L₀ limitVersion evacuationLimit : Nat}
    {acc : List FreeSpaceEntry × List FreeSpaceEntry × List FreeSpaceEntry} {e : FreeSpaceEntry}
    {rest : List FreeSpaceEntry} (h : ReadState free L₀ limitVersion acc (e :: rest)) :
    ReadState free L₀ limitVersion (readEntry limitVersion evacuationLimit acc e) rest := by
  obtain ⟨fr, nf, ue⟩ := acc
  obtain ⟨hsound, hrest⟩ := h
  refine ⟨?_, fun e' he' => hrest e' (List.mem_cons_of_mem e he')⟩
  dsimp only at hsound
  simp only [List.map_cons, List.map_append] at hsound
  by_cases hpinned : e.releasedAtVersion > limitVersion
  · -- pinned by a version still alive
    simpa [GroupWriter.readEntry, if_pos hpinned] using hsound
  -- otherwise the entry is free, and becomes available
  have havail := (hsound.perm_pinned List.perm_middle).release
    (hrest e List.mem_cons_self (by omega))
  by_cases hlimit : e.ref + e.size > evacuationLimit
  · by_cases hbelow : e.ref < evacuationLimit
    · -- split at the evacuation limit: the part below stays free, the rest is held back
      simp only [GroupWriter.readEntry, if_neg hpinned, if_pos hlimit, if_pos hbelow,
        List.map_append, List.map_cons, List.map_nil, FreeSpaceEntry.chunk]
      have hadj : e.ref + (evacuationLimit - e.ref) = evacuationLimit := by omega
      have hcover : cover [⟨e.ref, evacuationLimit - e.ref⟩,
          ⟨evacuationLimit, e.size - (evacuationLimit - e.ref)⟩] ⊆ e.chunk.toSet := by
        rw [cover_pair_of_adjacent hadj]
        intro x hx
        simp only [mem_toSet, FreeSpaceEntry.chunk] at hx ⊢
        omega
      refine (havail.replace (separate_pair_of_adjacent hadj) hcover).perm_available ?_
      exact List.perm_iff_count.mpr fun x => by
        simp only [List.cons_append, List.nil_append, List.count_cons, List.count_append,
          List.count_nil]
        omega
    · -- held back whole
      simp only [GroupWriter.readEntry, if_neg hpinned, if_pos hlimit, if_neg hbelow,
        List.map_append, List.map_cons, List.map_nil]
      refine havail.perm_available ?_
      exact List.perm_iff_count.mpr fun x => by
        simp only [FreeSpaceEntry.chunk, List.count_cons, List.count_append, List.count_nil]
        omega
  · -- free
    simp only [GroupWriter.readEntry, if_neg hpinned, if_neg hlimit, List.map_append,
      List.map_cons, List.map_nil]
    refine havail.perm_available ?_
    exact List.perm_iff_count.mpr fun x => by
      simp only [FreeSpaceEntry.chunk, List.count_cons, List.count_append, List.count_nil]
      omega

/-- The whole loop files every entry. -/
lemma ReadState.foldl {free : Set Nat} {L₀ limitVersion : Nat} (evacuationLimit : Nat) :
    ∀ (rest : List FreeSpaceEntry) acc, ReadState free L₀ limitVersion acc rest →
      ReadState free L₀ limitVersion
        (rest.foldl (GroupWriter.readEntry limitVersion evacuationLimit) acc) []
  | [], _, h => h
  | _ :: rest, _, h => ReadState.foldl evacuationLimit rest _ h.readEntry

/-- Merging neighbours into `prev` gives separate chunks within the old ones. -/
lemma mergeLoop_spec : ∀ (l : List FreeSpaceEntry) (prev : FreeSpaceEntry),
    Separate ((prev :: l).map FreeSpaceEntry.chunk) →
      Separate (((mergeLoop prev l).1 :: (mergeLoop prev l).2).map FreeSpaceEntry.chunk) ∧
        cover (((mergeLoop prev l).1 :: (mergeLoop prev l).2).map FreeSpaceEntry.chunk) ⊆
          cover ((prev :: l).map FreeSpaceEntry.chunk)
  | [], _, h => ⟨h, le_refl _⟩
  | it :: l, prev, h => by
    by_cases hadj : prev.ref + prev.size = it.ref
    · -- `it` joins `prev`, and is left with no size
      have hjoin : cover [({ prev with size := prev.size + it.size } : FreeSpaceEntry).chunk] =
          cover [prev.chunk, it.chunk] := by
        rw [cover_pair_of_adjacent hadj]
        simp [FreeSpaceEntry.chunk]
      have hsep : Separate (({ prev with size := prev.size + it.size } :: l).map
          FreeSpaceEntry.chunk) := by
        have h' : Separate ([prev.chunk, it.chunk] ++ l.map FreeSpaceEntry.chunk) := h
        exact h'.replace (List.pairwise_singleton _ _) hjoin.le
      obtain ⟨hs, hc⟩ := mergeLoop_spec l _ hsep
      rw [mergeLoop, if_pos hadj]
      rcases he : mergeLoop { prev with size := prev.size + it.size } l with ⟨last, rest⟩
      rw [he] at hs hc
      dsimp only at hs hc ⊢
      have hzero : ({ it with size := 0 } : FreeSpaceEntry).chunk.toSet = ∅ :=
        toSet_of_size_eq_zero rfl
      have hjoin' : ({ prev with size := prev.size + it.size } : FreeSpaceEntry).chunk.toSet =
          prev.chunk.toSet ∪ it.chunk.toSet := by
        simpa using hjoin
      constructor
      · -- the emptied entry shares no address
        have hswap := (List.Perm.swap ({ it with size := 0 } : FreeSpaceEntry).chunk last.chunk
          (rest.map FreeSpaceEntry.chunk))
        refine (separate_perm hswap).mpr (separate_cons.mpr ⟨?_, hs⟩)
        rw [hzero]
        exact Set.empty_disjoint _
      · refine le_trans ?_ (le_trans hc (le_of_eq ?_))
        · simp only [List.map_cons, cover_cons, hzero, Set.empty_union, le_refl]
        · simp only [List.map_cons, cover_cons, hjoin', Set.union_assoc]
    · -- `prev` stays, and the merging goes on from `it`
      have htail : Separate ((it :: l).map FreeSpaceEntry.chunk) :=
        h.sublist (List.sublist_cons_self _ _)
      obtain ⟨hs, hc⟩ := mergeLoop_spec l it htail
      rw [mergeLoop, if_neg hadj]
      rcases he : mergeLoop it l with ⟨last, rest⟩
      rw [he] at hs hc
      dsimp only at hs hc ⊢
      have hprev := (separate_cons.mp h).1
      refine ⟨separate_cons.mpr ⟨hprev.mono_right hc, hs⟩, ?_⟩
      simp only [List.map_cons, cover_cons] at hc ⊢
      exact Set.union_subset_union_right _ hc

/-- `merge_adjacent_entries_in_freelist` gives separate chunks within the old ones. -/
lemma mergeAdjacentEntriesInFreelist_spec {l : List FreeSpaceEntry}
    (h : Separate (l.map FreeSpaceEntry.chunk)) :
    Separate ((mergeAdjacentEntriesInFreelist l).map FreeSpaceEntry.chunk) ∧
      cover ((mergeAdjacentEntriesInFreelist l).map FreeSpaceEntry.chunk) ⊆
        cover (l.map FreeSpaceEntry.chunk) := by
  cases l with
  | nil => exact ⟨h, le_refl _⟩
  | cons first l =>
    have := mergeLoop_spec l first h
    rcases he : mergeLoop first l with ⟨last, rest⟩
    rw [he] at this
    simpa only [mergeAdjacentEntriesInFreelist, he] using this

/-- The entries `move_free_in_file_to_size_map` moves are those of nonzero size. -/
lemma moveFreeInFileToSizeMap_perm : ∀ (l : List FreeSpaceEntry) (m m' : List (Nat × Nat)),
    moveFreeInFileToSizeMap l m = .ok m' →
      (m'.map sizeMapChunk).Perm
        ((l.filter fun e => e.size ≠ 0).map FreeSpaceEntry.chunk ++ m.map sizeMapChunk)
  | [], m, m', hok => by
    simp only [moveFreeInFileToSizeMap, Except.ok.injEq] at hok
    subst hok
    rfl
  | elem :: l, m, m', hok => by
    simp only [moveFreeInFileToSizeMap] at hok
    by_cases hsize : elem.size ≠ 0
    · rw [if_pos hsize] at hok
      obtain ⟨_, _, hok⟩ := bind_eq_ok.mp hok
      obtain ⟨_, _, hok⟩ := bind_eq_ok.mp hok
      have hrest := moveFreeInFileToSizeMap_perm l _ m' hok
      rw [List.filter_cons_of_pos (by simpa using hsize), List.map_cons, List.cons_append]
      exact hrest.trans (((perm_emplace m elem.size elem.ref).append_left _).trans
        List.perm_middle)
    · rw [if_neg hsize] at hok
      rw [List.filter_cons_of_neg (by simpa using hsize)]
      exact moveFreeInFileToSizeMap_perm l m m' hok

/-- Merging neighbours and dropping the emptied entries gives separate chunks within the old
ones. -/
lemma merged_spec {l : List FreeSpaceEntry} (h : Separate (l.map FreeSpaceEntry.chunk)) :
    Separate (((mergeAdjacentEntriesInFreelist l).filter fun e : FreeSpaceEntry => e.size ≠ 0).map
      FreeSpaceEntry.chunk) ∧
      cover (((mergeAdjacentEntriesInFreelist l).filter fun e : FreeSpaceEntry => e.size ≠ 0).map
        FreeSpaceEntry.chunk) ⊆ cover (l.map FreeSpaceEntry.chunk) := by
  obtain ⟨hsep, hcover⟩ := mergeAdjacentEntriesInFreelist_spec h
  have hsub : (((mergeAdjacentEntriesInFreelist l).filter fun e : FreeSpaceEntry =>
      e.size ≠ 0).map FreeSpaceEntry.chunk).Sublist
      ((mergeAdjacentEntriesInFreelist l).map FreeSpaceEntry.chunk) :=
    List.filter_sublist.map _
  exact ⟨hsep.sublist hsub, (cover_mono hsub.subset).trans hcover⟩

/-- The free lists, as the three arrays of the file hold them, read back as entries. -/
lemma entries_of_arrays (entries : List FreeSpaceEntry) :
    (List.range (entries.map FreeSpaceEntry.size).length).map (fun idx =>
      (⟨(entries.map FreeSpaceEntry.ref).getD idx 0, (entries.map FreeSpaceEntry.size).getD idx 0,
        (entries.map FreeSpaceEntry.releasedAtVersion).getD idx 0⟩ : FreeSpaceEntry)) =
      entries := by
  apply List.ext_getElem (by simp)
  intro i h₁ h₂
  simp [List.getD_eq_getElem?_getD, List.getElem?_map, List.getElem?_eq_getElem h₂]

/-- `read_in_freelist` starts a commit with a sound free space, from free lists whose entries
are separate and lie in the file. -/
lemma readInFreelist_spec {w₀ w : GroupWriter} {entries : List FreeSpaceEntry} {oldest : Nat}
    (hempty : w₀.sizeMap = [] ∧ w₀.notFreeInFile = [] ∧ w₀.underEvacuation = [])
    (hsep : Separate (entries.map FreeSpaceEntry.chunk))
    (hfile : cover (entries.map FreeSpaceEntry.chunk) ⊆ Set.Iio w₀.logicalSize)
    (hok : w₀.readInFreelist (entries.map FreeSpaceEntry.ref) (entries.map FreeSpaceEntry.size)
      (entries.map FreeSpaceEntry.releasedAtVersion) oldest = .ok w) :
    Safe (releasedBefore entries oldest) w₀.logicalSize w [] ∧ w.logicalSize = w₀.logicalSize := by
  obtain ⟨hmap, hnf, hue⟩ := hempty
  unfold readInFreelist at hok
  obtain ⟨_, _, hok⟩ := bind_eq_ok.mp hok
  obtain ⟨_, _, hok⟩ := bind_eq_ok.mp hok
  dsimp only at hok
  rw [entries_of_arrays, hnf, hue] at hok
  -- the loop files every entry
  have hstart : ReadState (releasedBefore entries oldest) w₀.logicalSize oldest ([], [], [])
      entries :=
    ⟨⟨by simpa using hsep, by simpa using hfile, by simp, le_refl _⟩, fun e he hv =>
      toSet_subset_cover (List.mem_map_of_mem (List.mem_filter.mpr ⟨he, by simpa using hv⟩))⟩
  have hread := ReadState.foldl
    (if w₀.evacuationLimit ≠ 0 then w₀.evacuationLimit else sizeMax) entries _ hstart
  rcases hfold : entries.foldl (GroupWriter.readEntry oldest
    (if w₀.evacuationLimit ≠ 0 then w₀.evacuationLimit else sizeMax)) ([], [], []) with
    ⟨fr, nf, ue⟩
  rw [hfold] at hread hok
  obtain ⟨hsound, -⟩ := hread
  dsimp only at hsound hok
  obtain ⟨m, hmove, hok⟩ := bind_eq_ok.mp hok
  simp only [pure, Except.pure, Except.ok.injEq] at hok
  subst hok
  refine ⟨?_, rfl⟩
  have hmoved := moveFreeInFileToSizeMap_perm _ _ _ hmove
  rw [hmap, List.map_nil, List.append_nil] at hmoved
  rw [List.map_append, List.map_nil, List.append_nil] at hsound
  obtain ⟨hsep', -, -⟩ := separate_append.mp hsound.separate
  obtain ⟨hsep', -, -⟩ := separate_append.mp hsep'
  obtain ⟨hfrsep, huesep, -⟩ := separate_append.mp hsep'
  -- the free entries are merged, then the held back ones
  have hfr := merged_spec hfrsep
  have hsound₁ := hsound.replaceFront hfr.1 hfr.2
  have hsound₂ := hsound₁.perm_available List.perm_append_comm
  have hue' := merged_spec huesep
  have hsound₃ := hsound₂.replaceFront hue'.1 hue'.2
  exact hsound₃.perm_available (List.perm_append_comm.trans (hmoved.symm.append_right _))

end SizeMap

/-! ## A commit -/

/-- No file space is handed out twice in a commit.  From free lists whose entries are separate
and lie in the file, `read_in_freelist` and the calls of `get_free_space` hand out chunks that
are 8-byte aligned, stay within a section, and lie in space released before the oldest version
still alive or in space the commit added to the file; they share no address with each other nor
with the chunks left in the size map, held back by the evacuation, or pinned. -/
theorem getFreeSpaceRun_separate (pageSize fuel oldestReachableVersion : Nat) (w₀ : GroupWriter)
    (entries : List FreeSpaceEntry) (sizes : List Nat) (chunks : List Chunk) (w : GroupWriter)
    (hempty : w₀.sizeMap = [] ∧ w₀.notFreeInFile = [] ∧ w₀.underEvacuation = [])
    (hsep : Separate (entries.map FreeSpaceEntry.chunk))
    (hfile : cover (entries.map FreeSpaceEntry.chunk) ⊆ Set.Iio w₀.logicalSize)
    (hrun : (w₀.readInFreelist (entries.map FreeSpaceEntry.ref) (entries.map FreeSpaceEntry.size)
        (entries.map FreeSpaceEntry.releasedAtVersion) oldestReachableVersion >>= fun w₁ =>
          getFreeSpaceRun pageSize fuel w₁ sizes) = .ok (chunks, w)) :
    (∀ c ∈ chunks, c.ref % 8 = 0 ∧ c.ref + c.size ≤ getUpperSectionBoundary c.ref ∧
      c.toSet ⊆ releasedBefore entries oldestReachableVersion ∪
        Set.Ico w₀.logicalSize w.logicalSize) ∧
    Separate (w.available ++ w.pinned ++ chunks) := by
  obtain ⟨w₁, hread, hrun⟩ := bind_eq_ok.mp hrun
  obtain ⟨hsafe₁, -⟩ := readInFreelist_spec hempty hsep hfile hread
  obtain ⟨hsafe, hchunks⟩ := getFreeSpaceRun_spec sizes w₁ [] chunks w hsafe₁ hrun
  rw [List.append_nil] at hsafe
  refine ⟨fun c hc => ⟨(hchunks c hc).1, (hchunks c hc).2, ?_⟩, Sound.separate hsafe⟩
  -- a chunk handed out lies where the invariant puts every chunk handed out
  exact (toSet_subset_cover (List.mem_append_right _ hc)).trans (Sound.fromFree hsafe)

/-- A commit reads three entries, one pinned by version 5, and hands out the two others and a
chunk past the end of the file. -/
theorem getFreeSpaceRun_separate_three_calls :
    Separate (([⟨64, 64, 1⟩, ⟨256, 64, 5⟩, ⟨1024, 1024, 0⟩] : List FreeSpaceEntry).map
        FreeSpaceEntry.chunk) ∧
      cover (([⟨64, 64, 1⟩, ⟨256, 64, 5⟩, ⟨1024, 1024, 0⟩] : List FreeSpaceEntry).map
        FreeSpaceEntry.chunk) ⊆ Set.Iio 4096 ∧
      (∀ c ∈ ([⟨64, 64⟩, ⟨1024, 1024⟩, ⟨4096, 4096⟩] : List Chunk),
        c.ref % 8 = 0 ∧ c.ref + c.size ≤ getUpperSectionBoundary c.ref ∧
        c.toSet ⊆ releasedBefore [⟨64, 64, 1⟩, ⟨256, 64, 5⟩, ⟨1024, 1024, 0⟩] 3 ∪
          Set.Ico 4096 8192) ∧
      Separate ((⟨[], [⟨256, 64, 5⟩], [], 0, 0, 8192⟩ : GroupWriter).available ++
        (⟨[], [⟨256, 64, 5⟩], [], 0, 0, 8192⟩ : GroupWriter).pinned ++
        [⟨64, 64⟩, ⟨1024, 1024⟩, ⟨4096, 4096⟩]) := by
  have hsep : Separate (([⟨64, 64, 1⟩, ⟨256, 64, 5⟩, ⟨1024, 1024, 0⟩] : List FreeSpaceEntry).map
      FreeSpaceEntry.chunk) := by
    simp [Separate, FreeSpaceEntry.chunk, disjoint_toSet_iff]
  have hfile : cover (([⟨64, 64, 1⟩, ⟨256, 64, 5⟩, ⟨1024, 1024, 0⟩] : List FreeSpaceEntry).map
      FreeSpaceEntry.chunk) ⊆ Set.Iio 4096 := by
    intro x hx
    simp only [List.map, FreeSpaceEntry.chunk, cover_cons, cover_nil, Set.union_empty,
      Set.mem_union, mem_toSet] at hx
    simp only [Set.mem_Iio]
    omega
  exact ⟨hsep, hfile, getFreeSpaceRun_separate 4096 10 3 ⟨[], [], [], 0, 0, 4096⟩ _
    [64, 1024, 4096] _ _ ⟨rfl, rfl, rfl⟩ hsep hfile rfl⟩

end Realm.GroupWriter
