import Mathlib
import RealmCore.Sync.Trim

/-!
# The upload scan

The header comment of `find_uploadable_changesets()` says what the scan is for: it returns,
from the position of the upload cursor on and ending no later than the end version, changesets
that are to be uploaded (nonempty, and not produced by the integration of changesets from the
server); it may stop early, to bound the size of what it returns, but it returns at least one
when the range holds any; and it leaves the cursor after the last changeset returned, before
any remaining one, and never past the end version.

We read the changesets it is meant to see off the history, with `entryAt`, as the list
`uploadableIn`, and prove that the loop of `find_uploadable_changesets()` returns a prefix of
that list with such a cursor, wherever the byte limits cut it off.  With the invariants of the
history (`Consistent`) and the entries it keeps (`keeps_runLog`), this gives what the history
guarantees after every run of local commits and progress reports.
-/

namespace Realm.Sync.ClientHistory

/-! ## What is to be uploaded -/

/-- An entry to be uploaded: of local origin, and nonempty. -/
def isUploadable (E : HistoryEntry) : Bool :=
  E.originFileIdent == 0 && !E.changeset.isEmpty

/-- The entries of the versions after `lo` up to `hi` that are to be uploaded, with their
versions, in increasing order of version. -/
def uploadableIn (h : ClientHistory) (lo hi : Nat) : List (Nat × HistoryEntry) :=
  (List.range' (lo + 1) (hi - lo)).filterMap fun w =>
    ((entryAt h w).filter isUploadable).map fun E => (w, E)

/-- The changeset `find_uploadable_changesets()` returns for the entry of version `w`. -/
def asUpload (x : Nat × HistoryEntry) : UploadChangeset :=
  ⟨x.2.originTimestamp, x.2.originFileIdent, ⟨x.1, x.2.remoteVersion⟩, x.2.changeset⟩

/-- A cursor `c` that splits the list `R` after its first `k` elements: the versions of those
are at most `c`, and those of the others after it. -/
structure Splits (R : List (Nat × HistoryEntry)) (k c : Nat) : Prop where
  returned_le : ∀ x ∈ R.take k, x.1 ≤ c
  lt_remaining : ∀ x ∈ R.drop k, c < x.1

/-- The contract of `find_uploadable_changesets(u, e)`: it returns the first `k` changesets to
be uploaded after the cursor `u` up to `e`, at least one if there is any, and a new cursor
after these and before the rest, from `u` on and never past `e`. -/
def FindsUploadable (h : ClientHistory) (u : UploadCursor) (e : Nat) : Prop :=
  ∃ k, (h.findUploadableChangesets u e).2.1 =
      ((uploadableIn h u.clientVersion e).take k).map asUpload ∧
    (uploadableIn h u.clientVersion e ≠ [] → 0 < k) ∧
    Splits (uploadableIn h u.clientVersion e) k (h.findUploadableChangesets u e).1.clientVersion ∧
    u.clientVersion ≤ (h.findUploadableChangesets u e).1.clientVersion ∧
    (h.findUploadableChangesets u e).1.clientVersion ≤ e

section Uploadable

variable {h : ClientHistory} {lo hi : Nat}

lemma mem_uploadableIn {x : Nat × HistoryEntry} :
    x ∈ uploadableIn h lo hi ↔
      (lo < x.1 ∧ x.1 ≤ hi) ∧ entryAt h x.1 = some x.2 ∧ isUploadable x.2 = true := by
  obtain ⟨w, E⟩ := x
  simp only [uploadableIn, List.mem_filterMap, List.mem_range'_1, Option.map_eq_some_iff,
    Option.filter_eq_some_iff, Prod.mk.injEq]
  constructor
  · rintro ⟨w, hw, E, ⟨hE, hup⟩, rfl, rfl⟩
    exact ⟨by omega, hE, hup⟩
  · rintro ⟨hw, hE, hup⟩
    exact ⟨w, by omega, E, ⟨hE, hup⟩, rfl, rfl⟩

lemma pairwise_uploadableIn : (uploadableIn h lo hi).Pairwise fun x y => x.1 < y.1 :=
  (List.pairwise_lt_range' _ Nat.one_pos).filterMap _ fun _ _ hlt _ hx _ hy => by
    simp only [Option.map_eq_some_iff] at hx hy
    obtain ⟨_, -, rfl⟩ := hx
    obtain ⟨_, -, rfl⟩ := hy
    exact hlt

lemma uploadableIn_of_le (hhi : hi ≤ lo) : uploadableIn h lo hi = [] := by
  simp [uploadableIn, Nat.sub_eq_zero_of_le hhi]

/-- Splitting the version range splits the list. -/
lemma uploadableIn_append {mid : Nat} (hlo : lo ≤ mid) (hhi : mid ≤ hi) :
    uploadableIn h lo mid ++ uploadableIn h mid hi = uploadableIn h lo hi := by
  unfold uploadableIn
  rw [← List.filterMap_append, show hi - lo = (mid - lo) + (hi - mid) by omega,
    ← List.range'_append, show lo + 1 + 1 * (mid - lo) = mid + 1 by omega]

/-- The list from `lo` is the entry of version `lo + 1`, if it is to be uploaded, followed by
the list from `lo + 1`. -/
lemma uploadableIn_succ (hlo : lo < hi) :
    uploadableIn h lo hi =
      (((entryAt h (lo + 1)).filter isUploadable).map fun E => (lo + 1, E)).toList ++
        uploadableIn h (lo + 1) hi := by
  obtain ⟨n, hn⟩ : ∃ n, hi - lo = n + 1 := ⟨hi - lo - 1, by omega⟩
  unfold uploadableIn
  rw [hn, show hi - (lo + 1) = n by omega, List.range'_succ, List.filterMap_cons]
  cases (entryAt h (lo + 1)).filter isUploadable <;> rfl

/-- The history holds no entry of a version up to its base version. -/
lemma uploadableIn_of_le_base (hhi : hi ≤ h.syncHistoryBaseVersion) :
    uploadableIn h lo hi = [] := by
  refine List.eq_nil_iff_forall_not_mem.mpr fun x hx => ?_
  obtain ⟨hw, hE, -⟩ := mem_uploadableIn.1 hx
  have hrange := (entryAt_eq_some.mp hE).1
  omega

/-- Where the range starts below the history, the scan may start at the base version. -/
lemma uploadableIn_max_base :
    uploadableIn h (max lo h.syncHistoryBaseVersion) (max hi h.syncHistoryBaseVersion) =
      uploadableIn h lo hi := by
  by_cases hhi : h.syncHistoryBaseVersion ≤ hi
  · rw [max_eq_left hhi]
    by_cases hlo : h.syncHistoryBaseVersion ≤ lo
    · rw [max_eq_left hlo]
    · -- the versions after `lo` up to the base version hold nothing
      rw [max_eq_right (by omega), ← uploadableIn_append
        (show lo ≤ h.syncHistoryBaseVersion by omega) hhi, uploadableIn_of_le_base (le_refl _),
        List.nil_append]
  · rw [max_eq_right (by omega : hi ≤ h.syncHistoryBaseVersion), uploadableIn_of_le_base (le_refl _),
      uploadableIn_of_le_base (by omega)]

/-- After its first element, the list goes on from that element's version. -/
lemma uploadableIn_of_eq_cons {w : Nat} {E : HistoryEntry} {R : List (Nat × HistoryEntry)} :
    uploadableIn h lo hi = (w, E) :: R → uploadableIn h w hi = R := by
  -- induction on the length of the range, from its lower end
  obtain ⟨n, hn⟩ : ∃ n, hi - lo = n := ⟨_, rfl⟩
  induction n generalizing lo with
  | zero => rw [uploadableIn_of_le (by omega)]; exact fun hR => nomatch hR
  | succ n ih =>
    rw [uploadableIn_succ (by omega)]
    cases hE : (entryAt h (lo + 1)).filter isUploadable with
    | none => exact ih (by omega)
    | some E' =>
      simp only [Option.map_some, Option.toList_some, List.singleton_append, List.cons.injEq,
        Prod.mk.injEq]
      rintro ⟨⟨rfl, -⟩, hR⟩
      exact hR

end Uploadable

/-! ## The scan of `find_sync_history_entry()` -/

section Scan

variable {h : ClientHistory}

lemma isUploadable_entryOf {a : SyncHistoryArrays} {p : Nat} :
    isUploadable (entryOf a p) = true ↔
      a.originFileIdents.getD p 0 = 0 ∧ a.changesets.getD p [] ≠ [] := by
  simp [isUploadable, entryOf]

/-- The loop of `find_sync_history_entry()` over the `n` versions after `bv + i` finds the
first of them whose entry is to be uploaded. -/
lemma scanSyncHistory_fst (hc : Consistent h) {bv : Nat} (hbv : h.syncHistoryBaseVersion ≤ bv) :
    ∀ n i li, bv + i + n ≤ h.version →
      (scanSyncHistory h.arrays bv (bv - h.syncHistoryBaseVersion) n i li).1 =
        (uploadableIn h (bv + i) (bv + i + n)).head? := by
  intro n
  induction n with
  | zero =>
    intro i li _
    simp [scanSyncHistory, uploadableIn_of_le]
  | succ n ih =>
    intro i li hn
    have hend := hc.sync_end
    -- version `bv + i + 1` is held at position `bv - base + i`
    have hentry : entryAt h (bv + i + 1) =
        some (entryOf h.arrays (bv - h.syncHistoryBaseVersion + i)) :=
      entryAt_eq_some.mpr ⟨⟨by omega, by omega⟩, by congr 1; omega⟩
    rw [uploadableIn_succ (by omega), hentry]
    simp only [scanSyncHistory]
    split
    · rename_i hup
      simp only [Option.filter, isUploadable_entryOf.2 hup, if_true, Option.map_some,
        Option.toList_some, List.singleton_append, List.head?_cons]
      rfl
    · rename_i hup
      have hskip : isUploadable (entryOf h.arrays (bv - h.syncHistoryBaseVersion + i)) = false :=
        Bool.eq_false_iff.mpr fun ht => hup (isUploadable_entryOf.1 ht)
      rw [ih (i + 1) _ (by omega), show bv + (i + 1) = bv + i + 1 by omega,
        show bv + i + 1 + n = bv + i + (n + 1) by omega]
      simp [Option.filter, hskip]

/-- `find_sync_history_entry()` from a cursor in the history finds the first entry to be
uploaded up to `ev`. -/
lemma findSyncHistoryEntry_fst (hc : Consistent h) {bv ev : Nat}
    (hbv : h.syncHistoryBaseVersion ≤ bv) (hev : ev ≤ h.version) (li : Nat) :
    (findSyncHistoryEntry h.arrays h.syncHistoryBaseVersion bv ev li).1 =
      (uploadableIn h bv ev).head? := by
  have hbase := hc.initial_le_base
  unfold sInitialVersion at hbase
  unfold findSyncHistoryEntry
  dsimp only
  rw [if_neg (by omega)]
  by_cases hle : bv ≤ ev
  · have hscan := scanSyncHistory_fst hc hbv (ev - bv) 0 li (by omega)
    rwa [Nat.add_zero, Nat.add_sub_cancel' hle] at hscan
  · rw [uploadableIn_of_le (by omega), Nat.sub_eq_zero_of_le (show ev ≤ bv by omega)]
    rfl

end Scan

/-! ## The loop of `find_uploadable_changesets()` -/

/-- What the loop returns as `r` from the cursor `bv` with `found` collected, where `R` is still
to be uploaded up to `ev`: `found` followed by the first `k` entries of `R`, and a cursor that
splits `R` there, from `bv` on and not past `ev`. -/
structure LoopReturns (R : List (Nat × HistoryEntry)) (found : List UploadChangeset)
    (bv ev k : Nat) (r : Nat × Nat × List UploadChangeset) : Prop where
  found_eq : r.2.2 = found ++ (R.take k).map asUpload
  splits : Splits R k r.1
  le_cursor : bv ≤ r.1
  cursor_le : r.1 ≤ ev

section Loop

variable {R R' : List (Nat × HistoryEntry)} {found : List UploadChangeset} {bv ev : Nat}

/-- The loop stops with nothing more, its cursor before what is left. -/
lemma LoopReturns.stop {c : Nat} (hbc : bv ≤ c) (hce : c ≤ ev) (hR : ∀ x ∈ R, c < x.1)
    (li : Nat) : LoopReturns R found bv ev 0 (c, li, found) where
  found_eq := by simp
  splits := ⟨by simp, by simpa using hR⟩
  le_cursor := hbc
  cursor_le := hce

/-- The loop takes the first entry `(w, E)` left and goes on from `w`. -/
lemma LoopReturns.advance {w k : Nat} {E : HistoryEntry} {r : Nat × Nat × List UploadChangeset}
    (hret : LoopReturns R' (found ++ [asUpload (w, E)]) w ev k r) (hR : R = (w, E) :: R')
    (hbw : bv ≤ w) : LoopReturns R found bv ev (k + 1) r where
  found_eq := by simp [hret.found_eq, hR]
  splits := by
    subst hR
    refine ⟨fun x hx => ?_, fun x hx => hret.splits.lt_remaining x (by simpa using hx)⟩
    rcases List.mem_cons.mp (by simpa using hx) with rfl | hx
    · exact hret.le_cursor
    · exact hret.splits.returned_le x hx
  le_cursor := le_trans hbw hret.le_cursor
  cursor_le := hret.cursor_le

end Loop

section Upload

variable {h : ClientHistory}

/-- The loop of `find_uploadable_changesets()` returns a prefix of what is still to be
uploaded, at least one entry if it may look and finds any, and a cursor that splits the
entries there, whatever the byte limits and the fuel. -/
lemma findUploadableLoop_spec (hc : Consistent h) {ev : Nat} (hev : ev ≤ h.version) :
    ∀ fuel bv li accum found, h.syncHistoryBaseVersion ≤ bv → bv ≤ ev →
      ∃ k, LoopReturns (uploadableIn h bv ev) found bv ev k
          (findUploadableLoop h.arrays h.syncHistoryBaseVersion ev fuel bv li accum found) ∧
        (0 < fuel → accum < accumByteSizeSoftLimit → found = [] → uploadableIn h bv ev ≠ [] →
          0 < k) := by
  -- induction on the fuel; each round either stops or moves the cursor to the entry it takes
  intro fuel
  induction fuel with
  | zero =>
    intro bv li accum found _ hbe
    exact ⟨0, LoopReturns.stop le_rfl hbe (fun x hx => (mem_uploadableIn.1 hx).1.1) li,
      fun h0 => absurd h0 (lt_irrefl 0)⟩
  | succ fuel ih =>
    intro bv li accum found hbv hbe
    have hstop : ∀ x ∈ uploadableIn h bv ev, bv < x.1 := fun x hx => (mem_uploadableIn.1 hx).1.1
    by_cases hsoft : accum < accumByteSizeSoftLimit
    swap
    · -- the soft limit is reached
      rw [findUploadableLoop, if_neg hsoft]
      exact ⟨0, LoopReturns.stop le_rfl hbe hstop li, fun _ hlt => absurd hlt hsoft⟩
    have hfst := findSyncHistoryEntry_fst hc hbv hev li
    rcases hfind : findSyncHistoryEntry h.arrays h.syncHistoryBaseVersion bv ev li with
      ⟨_ | ⟨w, E⟩, li2⟩
    · -- nothing is left to upload up to `ev`
      rw [hfind] at hfst
      have hnil : uploadableIn h bv ev = [] := List.head?_eq_none_iff.mp hfst.symm
      rw [findUploadableLoop, if_pos hsoft, hfind]
      exact ⟨0, LoopReturns.stop hbe le_rfl (by simp [hnil]) li2,
        fun _ _ _ hne => absurd hnil hne⟩
    · -- the first entry left is that of version `w`
      rw [hfind] at hfst
      obtain ⟨R', hR⟩ := List.head?_eq_some_iff.mp hfst.symm
      have hw := (mem_uploadableIn.1 (hR ▸ List.mem_cons_self : (w, E) ∈ uploadableIn h bv ev)).1
      rw [findUploadableLoop, if_pos hsoft, hfind]
      dsimp only
      split
      · -- the hard limit is reached, and something is found already
        rename_i hhard
        exact ⟨0, LoopReturns.stop le_rfl hbe hstop li, fun _ _ hnil => absurd hnil hhard.2⟩
      · obtain ⟨k, hret, -⟩ := ih w li2 (accum + E.changeset.length)
          (found ++ [asUpload (w, E)]) (by omega) hw.2
        exact ⟨k + 1, hret.advance (hR.trans (by rw [uploadableIn_of_eq_cons hR])) hw.1.le,
          fun _ _ _ _ => Nat.succ_pos k⟩

/-- `find_uploadable_changesets()` as the result of its loop, on a consistent history: the
base version it computes is the history's. -/
lemma findUploadableChangesets_eq (hc : Consistent h) (u : UploadCursor) (e : Nat) :
    h.findUploadableChangesets u e =
      (⟨min (findUploadableLoop h.arrays h.syncHistoryBaseVersion
          (max e h.syncHistoryBaseVersion) (h.syncHistorySize + 1)
          (max u.clientVersion h.syncHistoryBaseVersion) u.lastIntegratedServerVersion 0 []).1 e,
        (findUploadableLoop h.arrays h.syncHistoryBaseVersion (max e h.syncHistoryBaseVersion)
          (h.syncHistorySize + 1) (max u.clientVersion h.syncHistoryBaseVersion)
          u.lastIntegratedServerVersion 0 []).2.1⟩,
        (findUploadableLoop h.arrays h.syncHistoryBaseVersion (max e h.syncHistoryBaseVersion)
          (h.syncHistorySize + 1) (max u.clientVersion h.syncHistoryBaseVersion)
          u.lastIntegratedServerVersion 0 []).2.2, h.root.downloadServerVersion) := by
  have hbase : h.version - h.syncHistorySize = h.syncHistoryBaseVersion := by
    have := hc.sync_end
    omega
  unfold findUploadableChangesets
  rw [hbase]

/-- `find_uploadable_changesets()` keeps its contract on every consistent history, for an
upload cursor not past the end version and an end version the history has reached. -/
theorem findsUploadable (hc : Consistent h) (u : UploadCursor) {e : Nat}
    (hue : u.clientVersion ≤ e) (he : e ≤ h.version) : FindsUploadable h u e := by
  have hend := hc.sync_end
  obtain ⟨k, hret, hone⟩ := findUploadableLoop_spec hc (show max e h.syncHistoryBaseVersion ≤
      h.version by omega) (h.syncHistorySize + 1) (max u.clientVersion h.syncHistoryBaseVersion)
    u.lastIntegratedServerVersion 0 [] (le_max_right _ _) (by omega)
  rw [uploadableIn_max_base] at hret hone
  have hle_e : ∀ x ∈ uploadableIn h u.clientVersion e, x.1 ≤ e :=
    fun x hx => (mem_uploadableIn.1 hx).1.2
  refine ⟨k, ?_, fun hne => hone (Nat.succ_pos _) (by decide) rfl hne, ?_, ?_, ?_⟩
  all_goals rw [findUploadableChangesets_eq hc]
  · simpa using hret.found_eq
  · -- the cursor is cut back to `e`, which bounds every entry
    refine ⟨fun x hx => le_min (hret.splits.returned_le x hx) (hle_e x (List.mem_of_mem_take hx)),
      fun x hx => lt_of_le_of_lt (min_le_left _ _) (hret.splits.lt_remaining x hx)⟩
  · exact le_min (le_trans (le_max_left _ _) hret.le_cursor) hue
  · exact min_le_right _ _

end Upload

/-! ## What the history guarantees -/

/-- What the history guarantees at the end `S` of the run `ops` from a new history: it is
consistent; it holds every nonempty changeset the run committed whose version the server has
not integrated, at its version and as it was committed; and `find_uploadable_changesets()`
keeps its contract for every cursor and end version up to the current one. -/
structure Guarantees (ops : List HistoryOp) (S : ClientHistory) : Prop where
  consistent : Consistent S
  keeps : ∀ w E, (w, E) ∈ runLog initial ops → E.changeset ≠ [] →
    S.progressDownload.lastIntegratedClientVersion < w → entryAt S w = some E
  finds : ∀ (u : UploadCursor) (e : Nat), u.clientVersion ≤ e → e ≤ S.version →
    FindsUploadable S u e

example : ((Run.run step initial [.commit [1] [7] 100, .commit [2] [] 101, .commit [3] [8] 102,
    .updateSyncProgress ⟨⟨1, 0⟩, ⟨1, 2⟩, ⟨3, 0⟩⟩ 0, .commit [4] [9] 103]).findUploadableChangesets
      ⟨3, 0⟩ 5).2.1.map (fun c => c.progress.clientVersion) = [4, 5] := by
  decide

end Realm.Sync.ClientHistory
