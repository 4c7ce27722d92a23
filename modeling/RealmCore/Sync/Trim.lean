import Mathlib
import RealmCore.Sync.ClientHistory

/-!
# What the synchronization history keeps

Two facts hold along every run of local commits and progress reports.  The history is
consistent (`Consistent`): its five arrays have one length, and it ends, as the
continuous-transactions history does, at the Realm's version.  And it keeps what it still
needs (`Keeps`): an entry of local origin that is not empty stays at the position of its
version until the server reports that it has integrated that version.

`trim_sync_history` is where the second fact is at stake.  It drops the entries up to `C`, the
last client version the server integrated, and then the run of upload-skippable entries after
`C`.  An entry the client still has to upload is not skippable, so the run stops at or before
it (`trimCount_spec`).
-/

namespace Realm.Sync.ClientHistory

/-- The entry at position `i` of the arrays. -/
def entryOf (a : SyncHistoryArrays) (i : Nat) : HistoryEntry :=
  ⟨a.originTimestamps.getD i 0, a.originFileIdents.getD i 0, a.remoteVersions.getD i 0,
    a.changesets.getD i []⟩

lemma entryOf_originFileIdent (a : SyncHistoryArrays) (i : Nat) :
    (entryOf a i).originFileIdent = a.originFileIdents.getD i 0 :=
  rfl

lemma entryOf_changeset (a : SyncHistoryArrays) (i : Nat) :
    (entryOf a i).changeset = a.changesets.getD i [] :=
  rfl

lemma syncHistorySize_eq_length (h : ClientHistory) : h.syncHistorySize = h.arrays.changesets.length :=
  rfl

/-- The entry of version `w`, while the history holds it: the versions after the base version
are at the positions from `0`. -/
def entryAt (h : ClientHistory) (w : Nat) : Option HistoryEntry :=
  if h.syncHistoryBaseVersion < w ∧ w ≤ h.syncHistoryBaseVersion + h.syncHistorySize then
    some (entryOf h.arrays (w - h.syncHistoryBaseVersion - 1))
  else none

lemma entryAt_eq_some {h : ClientHistory} {w : Nat} {E : HistoryEntry} :
    entryAt h w = some E ↔
      (h.syncHistoryBaseVersion < w ∧ w ≤ h.syncHistoryBaseVersion + h.syncHistorySize) ∧
        entryOf h.arrays (w - h.syncHistoryBaseVersion - 1) = E := by
  unfold entryAt
  split
  · simp_all
  · simp only [reduceCtorEq, false_iff, not_and]
    omega

/-- The history is consistent: the five arrays have the length `sync_history_size()`, both
histories end at the Realm's version, and `m_progress_download` agrees with the root. -/
structure Consistent (h : ClientHistory) : Prop where
  reciprocalTransforms_length : h.arrays.reciprocalTransforms.length = h.syncHistorySize
  remoteVersions_length : h.arrays.remoteVersions.length = h.syncHistorySize
  originFileIdents_length : h.arrays.originFileIdents.length = h.syncHistorySize
  originTimestamps_length : h.arrays.originTimestamps.length = h.syncHistorySize
  ct_end : h.ctHistoryBaseVersion + h.ctHistory.length = h.version
  sync_end : h.syncHistoryBaseVersion + h.syncHistorySize = h.version
  initial_le_base : sInitialVersion ≤ h.syncHistoryBaseVersion
  download_slot : h.root.downloadClientVersion = h.progressDownload.lastIntegratedClientVersion

lemma consistent_initial : Consistent initial :=
  ⟨rfl, rfl, rfl, rfl, rfl, rfl, le_refl _, rfl⟩

/-! ## Commits -/

section Commit

variable {h : ClientHistory} {ct sync : List UInt8} {ts : Nat}

@[simp] lemma commit_syncHistoryBaseVersion :
    (h.commit ct sync ts).syncHistoryBaseVersion = h.syncHistoryBaseVersion := rfl

@[simp] lemma commit_progressDownload :
    (h.commit ct sync ts).progressDownload = h.progressDownload := rfl

/-! The commit field by field; the proofs below rewrite with these rather than unfold `commit`,
`add_changeset` and `add_sync_history_entry`. -/

lemma commit_arrays : (h.commit ct sync ts).arrays =
    { changesets := h.arrays.changesets ++ [sync]
      reciprocalTransforms := h.arrays.reciprocalTransforms ++ [none]
      remoteVersions := h.arrays.remoteVersions ++ [h.progressDownload.serverVersion]
      originFileIdents := h.arrays.originFileIdents ++ [0]
      originTimestamps := h.arrays.originTimestamps ++ [ts] } :=
  rfl

lemma commit_version_eq :
    (h.commit ct sync ts).version = h.ctHistoryBaseVersion + (h.ctHistory ++ [ct]).length :=
  rfl

@[simp] lemma commit_syncHistorySize :
    (h.commit ct sync ts).syncHistorySize = h.syncHistorySize + 1 := by
  simp [syncHistorySize_eq_length, commit_arrays]

lemma commit_version (hc : Consistent h) : (h.commit ct sync ts).version = h.version + 1 := by
  simp [commit_version_eq, ← hc.ct_end, Nat.add_assoc]

lemma Consistent.commit (hc : Consistent h) : Consistent (h.commit ct sync ts) where
  reciprocalTransforms_length := by
    simp [commit_arrays, syncHistorySize_eq_length, hc.reciprocalTransforms_length]
  remoteVersions_length := by
    simp [commit_arrays, syncHistorySize_eq_length, hc.remoteVersions_length]
  originFileIdents_length := by
    simp [commit_arrays, syncHistorySize_eq_length, hc.originFileIdents_length]
  originTimestamps_length := by
    simp [commit_arrays, syncHistorySize_eq_length, hc.originTimestamps_length]
  ct_end := rfl
  sync_end := by
    have hend := hc.sync_end
    rw [commit_syncHistoryBaseVersion, commit_syncHistorySize, commit_version hc]
    omega
  initial_le_base := hc.initial_le_base
  download_slot := hc.download_slot

/-- Appending an entry leaves those before it where they were. -/
lemma entryOf_commit_of_lt (hc : Consistent h) {i : Nat} (hi : i < h.syncHistorySize) :
    entryOf (h.commit ct sync ts).arrays i = entryOf h.arrays i := by
  rw [commit_arrays]
  delta entryOf
  rw [List.getD_append _ _ _ _ (by rw [hc.originTimestamps_length]; exact hi),
    List.getD_append _ _ _ _ (by rw [hc.originFileIdents_length]; exact hi),
    List.getD_append _ _ _ _ (by rw [hc.remoteVersions_length]; exact hi),
    List.getD_append _ _ _ _ hi]

/-- A commit keeps the entries of the versions the Realm had. -/
lemma entryAt_commit_of_le (hc : Consistent h) {w : Nat} (hw : w ≤ h.version) :
    entryAt (h.commit ct sync ts) w = entryAt h w := by
  have hend := hc.sync_end
  unfold entryAt
  rw [commit_syncHistoryBaseVersion, commit_syncHistorySize]
  by_cases hbase : h.syncHistoryBaseVersion < w
  · have hi : w - h.syncHistoryBaseVersion - 1 < h.syncHistorySize := by omega
    rw [if_pos ⟨hbase, by omega⟩, if_pos ⟨hbase, by omega⟩, entryOf_commit_of_lt hc hi]
  · rw [if_neg (by omega), if_neg (by omega)]

/-- The new version holds the entry the commit built. -/
lemma entryAt_commit_self (hc : Consistent h) :
    entryAt (h.commit ct sync ts) (h.commit ct sync ts).version = some (localEntry h sync ts) := by
  have hend := hc.sync_end
  have hbase := hc.initial_le_base
  have hi : (h.commit ct sync ts).version - h.syncHistoryBaseVersion - 1 = h.syncHistorySize := by
    rw [commit_version hc]
    omega
  unfold entryAt
  rw [commit_syncHistoryBaseVersion, commit_syncHistorySize, commit_version hc]
  rw [commit_version hc] at hi
  rw [if_pos ⟨by unfold sInitialVersion at hbase; omega, by omega⟩, hi]
  rw [commit_arrays]
  delta entryOf
  simp [localEntry, hc.originTimestamps_length, hc.originFileIdents_length,
    hc.remoteVersions_length, syncHistorySize_eq_length]

end Commit

/-! ## Trimming -/

section Trim

variable {h : ClientHistory}

/-- A run of a property over `0, 1, ...` stops at the first value without it. -/
lemma length_takeWhile_range_le {p : Nat → Bool} {n m : Nat} (hp : p m = false) :
    ((List.range n).takeWhile p).length ≤ m := by
  by_contra hlt
  have hpre := List.takeWhile_prefix p (l := List.range n)
  have hm' : m < ((List.range n).takeWhile p).length := by omega
  have hget : ((List.range n).takeWhile p).get ⟨m, hm'⟩ = m := by
    rw [List.get_eq_getElem, hpre.getElem]
    simp
  have hmem := List.get_mem ((List.range n).takeWhile p) ⟨m, hm'⟩
  rw [hget] at hmem
  rw [List.mem_takeWhile_imp hmem] at hp
  exact Bool.noConfusion hp

/-- What `trim_sync_history` drops: the entries up to `C` (or none, where the history starts
after `C`), then a run of entries, no longer than what is left, that stops before any entry
that is not upload-skippable. -/
lemma trimCount_spec (hc : Consistent h)
    (hC : h.progressDownload.lastIntegratedClientVersion ≤ h.version) :
    ∃ offset i, trimCount h = offset + i ∧
      h.syncHistoryBaseVersion + offset =
        max h.progressDownload.lastIntegratedClientVersion h.syncHistoryBaseVersion ∧
      offset + i ≤ h.syncHistorySize ∧
      ∀ j, offset ≤ j → j < h.syncHistorySize → uploadSkippable h.arrays j = false →
        offset + i ≤ j := by
  have hend := hc.sync_end
  have hbase := hc.initial_le_base
  unfold sInitialVersion at hbase
  -- the scan starts at `max C base`
  have hstart : (if max h.progressDownload.lastIntegratedClientVersion sInitialVersion <
        h.syncHistoryBaseVersion then h.syncHistoryBaseVersion
      else max h.progressDownload.lastIntegratedClientVersion sInitialVersion) =
      max h.progressDownload.lastIntegratedClientVersion h.syncHistoryBaseVersion := by
    unfold sInitialVersion
    split <;> omega
  have hmax := le_max_right h.progressDownload.lastIntegratedClientVersion h.syncHistoryBaseVersion
  have hmaxC := max_le hC (hend ▸ Nat.le_add_right _ _ :
    h.syncHistoryBaseVersion ≤ h.version)
  obtain ⟨offset, hoff⟩ : ∃ o, o = max h.progressDownload.lastIntegratedClientVersion
      h.syncHistoryBaseVersion - h.syncHistoryBaseVersion := ⟨_, rfl⟩
  have hcount : trimCount h = max h.progressDownload.lastIntegratedClientVersion
      h.syncHistoryBaseVersion + skippableRun h.arrays offset (h.syncHistorySize - offset) -
      h.syncHistoryBaseVersion := by
    unfold trimCount
    dsimp only
    rw [hstart, hoff]
  have hilen : skippableRun h.arrays offset (h.syncHistorySize - offset) ≤
      h.syncHistorySize - offset :=
    (List.takeWhile_sublist _).length_le.trans (by simp)
  refine ⟨offset, skippableRun h.arrays offset (h.syncHistorySize - offset), by omega, by omega,
    by omega, ?_⟩
  · intro j hj hjs hskip
    have hrun : skippableRun h.arrays offset (h.syncHistorySize - offset) ≤ j - offset :=
      length_takeWhile_range_le (p := fun i => uploadSkippable h.arrays (offset + i))
        (by simpa [Nat.add_sub_cancel' hj] using hskip)
    omega

/-- Dropping the first `k` entries shifts the others down by `k`. -/
lemma entryOf_drop (a : SyncHistoryArrays) (k i : Nat) :
    entryOf ⟨a.changesets.drop k, a.reciprocalTransforms.drop k, a.remoteVersions.drop k,
      a.originFileIdents.drop k, a.originTimestamps.drop k⟩ i = entryOf a (k + i) := by
  delta entryOf
  simp [List.getD_eq_getElem?_getD, List.getElem?_drop]

lemma Consistent.doTrim (hc : Consistent h) {k : Nat} (hk : k ≤ h.syncHistorySize) :
    Consistent (doTrimSyncHistory h k) where
  reciprocalTransforms_length := by
    simp [doTrimSyncHistory, syncHistorySize_eq_length, hc.reciprocalTransforms_length]
  remoteVersions_length := by simp [doTrimSyncHistory, syncHistorySize_eq_length, hc.remoteVersions_length]
  originFileIdents_length := by
    simp [doTrimSyncHistory, syncHistorySize_eq_length, hc.originFileIdents_length]
  originTimestamps_length := by
    simp [doTrimSyncHistory, syncHistorySize_eq_length, hc.originTimestamps_length]
  ct_end := hc.ct_end
  sync_end := by
    have hend := hc.sync_end
    simp only [doTrimSyncHistory, syncHistorySize_eq_length, List.length_drop] at hend hk ⊢
    omega
  initial_le_base := le_trans hc.initial_le_base (Nat.le_add_right _ _)
  download_slot := hc.download_slot

/-- Dropping `k` entries keeps those of the versions after the first `k`. -/
lemma entryAt_doTrim {k w : Nat} (hk : k ≤ h.syncHistorySize)
    (hw : h.syncHistoryBaseVersion + k < w) :
    entryAt (doTrimSyncHistory h k) w = entryAt h w := by
  have hsize : (doTrimSyncHistory h k).syncHistorySize = h.syncHistorySize - k := by
    delta doTrimSyncHistory
    simp [syncHistorySize_eq_length]
  have hbase : (doTrimSyncHistory h k).syncHistoryBaseVersion = h.syncHistoryBaseVersion + k := rfl
  unfold entryAt
  rw [hsize, hbase]
  by_cases hup : w ≤ h.syncHistoryBaseVersion + h.syncHistorySize
  · rw [if_pos ⟨by omega, by omega⟩, if_pos ⟨by omega, by omega⟩]
    delta doTrimSyncHistory
    simp only [entryOf_drop]
    congr 2
    omega
  · rw [if_neg (by omega), if_neg (by omega)]

end Trim

/-! ## Progress reports -/

section Progress

variable {h h' : ClientHistory} {p : SyncProgress} {d : Nat}

lemma checkNotDecreasing_eq_ok {what : String} {current new : Nat} {u : Unit}
    (hok : checkNotDecreasing what current new = .ok u) : current ≤ new := by
  unfold checkNotDecreasing at hok
  split at hok
  · cases hok
  · omega

/-- What a progress report that does not throw does: it passed the check of the download
cursor, recorded it, and trimmed. -/
lemma updateSyncProgress_eq_ok (hok : h.updateSyncProgress p d = .ok h') :
    h.root.downloadClientVersion ≤ p.download.lastIntegratedClientVersion ∧
      ∃ root : ProgressSlots, root.downloadClientVersion = p.download.lastIntegratedClientVersion ∧
        h' = trimSyncHistory { h with root := root, progressDownload := p.download } := by
  unfold updateSyncProgress at hok
  simp only [bind, Except.bind] at hok
  split at hok
  · cases hok
  split at hok
  · cases hok
  split at hok
  · cases hok
  rename_i hdownload
  split at hok
  · cases hok
  split at hok
  · cases hok
  · simp only [pure, Except.pure, Except.ok.injEq] at hok
    exact ⟨checkNotDecreasing_eq_ok hdownload, _, rfl, hok.symm⟩

/-- Recording progress slots and a download cursor that agree keeps the history consistent. -/
lemma Consistent.setProgress (hc : Consistent h) {root : ProgressSlots}
    {download : DownloadCursor}
    (hroot : root.downloadClientVersion = download.lastIntegratedClientVersion) :
    Consistent { h with root := root, progressDownload := download } :=
  ⟨hc.reciprocalTransforms_length, hc.remoteVersions_length, hc.originFileIdents_length,
    hc.originTimestamps_length, hc.ct_end, hc.sync_end, hc.initial_le_base, hroot⟩

/-- Recording a download cursor the Realm has reached, and trimming, keeps the history
consistent. -/
lemma Consistent.trim (hc : Consistent h) {root : ProgressSlots} {download : DownloadCursor}
    (hroot : root.downloadClientVersion = download.lastIntegratedClientVersion)
    (hC : download.lastIntegratedClientVersion ≤ h.version) :
    Consistent (trimSyncHistory { h with root := root, progressDownload := download }) := by
  have hc' := hc.setProgress hroot
  obtain ⟨offset, i, hcount, -, hle, -⟩ := trimCount_spec hc' hC
  exact hc'.doTrim (hcount ▸ hle)

lemma Consistent.updateSyncProgress (hc : Consistent h)
    (hC : p.download.lastIntegratedClientVersion ≤ h.version)
    (hok : h.updateSyncProgress p d = .ok h') : Consistent h' := by
  obtain ⟨-, root, hroot, rfl⟩ := updateSyncProgress_eq_ok hok
  exact hc.trim hroot hC

end Progress

/-! ## Runs -/

lemma step_commit {h : ClientHistory} {ct sync : List UInt8} {ts : Nat} :
    step h (.commit ct sync ts) = h.commit ct sync ts :=
  rfl

/-- A progress report that `update_sync_progress` accepts moves the history to its result. -/
lemma step_updateSyncProgress_of_ok {h h' : ClientHistory} {p : SyncProgress} {d : Nat}
    (hupd : h.updateSyncProgress p d = .ok h') : step h (.updateSyncProgress p d) = h' := by
  delta step
  dsimp only
  rw [hupd]

/-- A progress report that it rejects leaves the history as it was. -/
lemma step_updateSyncProgress_of_error {h : ClientHistory} {p : SyncProgress} {d : Nat}
    {e : IntegrationException} (hupd : h.updateSyncProgress p d = .error e) :
    step h (.updateSyncProgress p d) = h := by
  delta step
  dsimp only
  rw [hupd]

lemma Consistent.step {h : ClientHistory} (hc : Consistent h) (o : HistoryOp)
    (hok : o.Admissible h) : Consistent (step h o) := by
  cases o with
  | commit ct sync ts => exact hc.commit
  | updateSyncProgress p d =>
    obtain ⟨hdu, huv⟩ := hok
    rcases hupd : h.updateSyncProgress p d with e | h'
    · rw [step_updateSyncProgress_of_error hupd]
      exact hc
    · rw [step_updateSyncProgress_of_ok hupd]
      exact hc.updateSyncProgress (le_trans hdu huv) hupd

theorem consistent_run (ops : List HistoryOp) :
    ∀ h, Consistent h → Run.Admissible step HistoryOp.Admissible h ops →
      Consistent (Run.run step h ops) :=
  Run.run_invariant_of_admissible (fun _ o hc hok => hc.step o hok) ops

/-- The entries a commit adds, with their versions. -/
def added (h : ClientHistory) : HistoryOp → List (Nat × HistoryEntry)
  | .commit ct sync ts => [((h.commit ct sync ts).version, localEntry h sync ts)]
  | .updateSyncProgress _ _ => []

/-- The entries a run adds, with their versions, as each commit built them. -/
def runLog : ClientHistory → List HistoryOp → List (Nat × HistoryEntry)
  | _, [] => []
  | h, o :: ops => added h o ++ runLog (step h o) ops

/-- The history keeps the entry `E` of version `w`, unless the server has integrated `w`. -/
def Keeps (w : Nat) (E : HistoryEntry) (h : ClientHistory) : Prop :=
  w ≤ h.progressDownload.lastIntegratedClientVersion ∨ entryAt h w = some E

/-- A trim after `C` keeps an entry that has to be uploaded. -/
lemma entryAt_trim_of_lt {root : ProgressSlots} {download : DownloadCursor}
    (hc : Consistent h) (hroot : root.downloadClientVersion = download.lastIntegratedClientVersion)
    (hC : download.lastIntegratedClientVersion ≤ h.version) {w : Nat} {E : HistoryEntry}
    (hE : entryAt h w = some E) (hlocal : E.originFileIdent = 0) (hne : E.changeset ≠ [])
    (hw : download.lastIntegratedClientVersion < w) :
    entryAt (trimSyncHistory { h with root := root, progressDownload := download }) w = some E := by
  have hc' := hc.setProgress hroot
  obtain ⟨offset, i, hcount, hoffset, hle, hstop⟩ := trimCount_spec hc' hC
  obtain ⟨hrange, hentry⟩ := entryAt_eq_some.1 hE
  -- the entry's position is past `C`, and it is not upload-skippable
  have hskip : uploadSkippable h.arrays (w - h.syncHistoryBaseVersion - 1) = false := by
    rw [← hentry] at hlocal hne
    rw [entryOf_originFileIdent] at hlocal
    rw [entryOf_changeset] at hne
    simpa [uploadSkippable] using ⟨hlocal, hne⟩
  have hj := hstop (w - h.syncHistoryBaseVersion - 1) (by simp only at hoffset; omega)
    (by simp only [syncHistorySize_eq_length] at hrange ⊢; omega) hskip
  unfold trimSyncHistory
  rw [entryAt_doTrim (hcount ▸ hle) (by simp only at hcount ⊢; omega)]
  exact entryAt_eq_some.2 ⟨hrange, hentry⟩

lemma keeps_step {h : ClientHistory} (hc : Consistent h) (o : HistoryOp) (hok : o.Admissible h)
    {w : Nat} {E : HistoryEntry} (hlocal : E.originFileIdent = 0) (hne : E.changeset ≠ [])
    (hw : w ≤ h.version) (hkeep : Keeps w E h) : Keeps w E (step h o) := by
  cases o with
  | commit ct sync ts =>
    unfold Keeps at hkeep ⊢
    rcases hkeep with hle | hE
    · exact Or.inl hle
    · exact Or.inr (by rw [step_commit, entryAt_commit_of_le hc hw, hE])
  | updateSyncProgress p d =>
    obtain ⟨hdu, huv⟩ := hok
    rcases hupd : h.updateSyncProgress p d with e | h'
    · rw [step_updateSyncProgress_of_error hupd]
      exact hkeep
    · rw [step_updateSyncProgress_of_ok hupd]
      obtain ⟨hmono, root, hroot, rfl⟩ := updateSyncProgress_eq_ok hupd
      rw [hc.download_slot] at hmono
      unfold Keeps at hkeep ⊢
      rcases hkeep with hle | hE
      · exact Or.inl (le_trans hle hmono)
      · -- an entry past the new `C` survives the trim
        by_cases hwC : w ≤ p.download.lastIntegratedClientVersion
        · exact Or.inl hwC
        · exact Or.inr (entryAt_trim_of_lt hc hroot (le_trans hdu huv) hE hlocal hne
            (Nat.lt_of_not_le hwC))

/-- Versions only grow. -/
lemma version_le_step {h : ClientHistory} (hc : Consistent h) (o : HistoryOp) :
    h.version ≤ (step h o).version := by
  cases o with
  | commit ct sync ts => rw [step_commit, commit_version hc]; omega
  | updateSyncProgress p d =>
    rcases hupd : h.updateSyncProgress p d with e | h'
    · rw [step_updateSyncProgress_of_error hupd]
    · rw [step_updateSyncProgress_of_ok hupd]
      obtain ⟨-, root, -, rfl⟩ := updateSyncProgress_eq_ok hupd
      exact le_refl _

/-- Once an entry is kept, every later admissible operation keeps it. -/
lemma keeps_run {w : Nat} {E : HistoryEntry} (hlocal : E.originFileIdent = 0)
    (hne : E.changeset ≠ []) (ops : List HistoryOp) :
    ∀ h, Consistent h → Run.Admissible step HistoryOp.Admissible h ops → w ≤ h.version →
      Keeps w E h → Keeps w E (Run.run step h ops) := by
  induction ops with
  | nil => exact fun h _ _ _ hkeep => hkeep
  | cons o ops ih =>
    rintro h hc ⟨hok, hadm⟩ hw hkeep
    exact ih (step h o) (hc.step o hok) hadm (le_trans hw (version_le_step hc o))
      (keeps_step hc o hok hlocal hne hw hkeep)

/-- Every local, nonempty entry a run adds is kept to its end. -/
theorem keeps_runLog (ops : List HistoryOp) :
    ∀ h, Consistent h → Run.Admissible step HistoryOp.Admissible h ops →
      ∀ w E, (w, E) ∈ runLog h ops → E.changeset ≠ [] → Keeps w E (Run.run step h ops) := by
  induction ops with
  | nil => intro h _ _ w E hmem; cases hmem
  | cons o ops ih =>
    rintro h hc ⟨hok, hadm⟩ w E hmem hne
    rcases List.mem_append.mp hmem with hadd | hrest
    · -- the entry of this commit is kept from its commit on
      cases o with
      | commit ct sync ts =>
        simp only [added, List.mem_singleton, Prod.mk.injEq] at hadd
        obtain ⟨rfl, rfl⟩ := hadd
        exact keeps_run rfl hne ops _ hc.commit hadm (le_refl _)
          (Or.inr (entryAt_commit_self hc))
      | updateSyncProgress p d => cases hadd
    · exact ih (step h o) (hc.step o hok) hadm w E hrest hne

end Realm.Sync.ClientHistory
