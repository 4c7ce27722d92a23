import Mathlib
import RealmCore.Lib.Run

/-!
# The client's synchronization history

`realm::sync::ClientHistory` (src/realm/sync/noinst/client_history_impl.cpp) keeps, beside the
continuous-transactions history, the synchronization history: one entry per version, in five
arrays (the changeset, its reciprocal transform, the server version it was based on, the file
it came from, its timestamp), of which the first entry is the version after
`m_sync_history_base_version`.  A local commit appends an entry (`add_changeset`); a progress
report from the server records the new cursors and trims the entries the client no longer
needs (`update_sync_progress`, `trim_sync_history`); the upload scan reads the entries of local
origin that are not empty (`find_uploadable_changesets`).

Versions and array values are natural numbers.  The changesets are stored compressed; the
model stores them as they are, since compression and decompression are each other's inverse,
an empty changeset compresses to an empty one, and the size in a compressed changeset's
header is its uncompressed size.  Of the root array the model keeps the progress slots.
-/

namespace Realm

namespace Sync

/-- `sync::SaltedVersion`. -/
structure SaltedVersion where
  version : Nat
  salt : Nat
deriving DecidableEq, Repr

/-- `sync::DownloadCursor`. -/
structure DownloadCursor where
  serverVersion : Nat
  lastIntegratedClientVersion : Nat
deriving DecidableEq, Repr

/-- `sync::UploadCursor`. -/
structure UploadCursor where
  clientVersion : Nat
  lastIntegratedServerVersion : Nat
deriving DecidableEq, Repr

/-- `sync::SyncProgress`. -/
structure SyncProgress where
  latestServerVersion : SaltedVersion
  download : DownloadCursor
  upload : UploadCursor
deriving DecidableEq, Repr

/-- `ClientHistory::HistoryEntry`. -/
structure HistoryEntry where
  originTimestamp : Nat
  originFileIdent : Nat
  remoteVersion : Nat
  changeset : List UInt8
deriving DecidableEq, Repr

/-- `ClientHistory::UploadChangeset`. -/
structure UploadChangeset where
  originTimestamp : Nat
  originFileIdent : Nat
  progress : UploadCursor
  changeset : List UInt8
deriving DecidableEq, Repr

/-- `IntegrationException`, with `ProtocolError::bad_progress`: its message. -/
structure IntegrationException where
  message : String
deriving DecidableEq, Repr

/-- The five arrays of the synchronization history. -/
structure SyncHistoryArrays where
  changesets : List (List UInt8)
  reciprocalTransforms : List (Option (List UInt8))
  remoteVersions : List Nat
  originFileIdents : List Nat
  originTimestamps : List Nat
deriving DecidableEq, Repr

/-- The progress slots of the history's root array. -/
structure ProgressSlots where
  latestServerVersion : Nat
  latestServerVersionSalt : Nat
  downloadServerVersion : Nat
  downloadClientVersion : Nat
  uploadClientVersion : Nat
  uploadServerVersion : Nat
  downloadableBytes : Nat
  uploadedBytes : Nat
  uploadableBytes : Nat
deriving DecidableEq, Repr

/-- The state of a `ClientHistory`: the version of the Realm, the two histories with their
base versions, the root's progress slots, and `m_progress_download`. -/
structure ClientHistory where
  version : Nat
  ctHistory : List (List UInt8)
  ctHistoryBaseVersion : Nat
  arrays : SyncHistoryArrays
  syncHistoryBaseVersion : Nat
  root : ProgressSlots
  progressDownload : DownloadCursor
deriving DecidableEq, Repr

/-- `ClientHistory::s_initial_version`. -/
def sInitialVersion : Nat := 1

namespace ClientHistory

/-- A Realm in its initial version, without a history (`update_from_ref_and_version` with a
null ref). -/
def initial : ClientHistory :=
  ⟨sInitialVersion, [], sInitialVersion, ⟨[], [], [], [], []⟩, sInitialVersion,
    ⟨0, 0, 0, 0, 0, 0, 0, 0, 0⟩, ⟨0, 0⟩⟩

/-- `sync_history_size()`, the size of the changesets array. -/
def syncHistorySize (h : ClientHistory) : Nat :=
  h.arrays.changesets.length

/-! ## Local commits -/

/-- `add_sync_history_entry(entry)`: one element more in each array. -/
def addSyncHistoryEntry (h : ClientHistory) (entry : HistoryEntry) : ClientHistory :=
  { h with arrays :=
    { changesets := h.arrays.changesets ++ [entry.changeset]
      reciprocalTransforms := h.arrays.reciprocalTransforms ++ [none]
      remoteVersions := h.arrays.remoteVersions ++ [entry.remoteVersion]
      originFileIdents := h.arrays.originFileIdents ++ [entry.originFileIdent]
      originTimestamps := h.arrays.originTimestamps ++ [entry.originTimestamp] } }

/-- The entry `add_changeset` builds for a local changeset: of local origin, based on the
server version of the download cursor. -/
def localEntry (h : ClientHistory) (syncChangeset : List UInt8) (originTimestamp : Nat) :
    HistoryEntry :=
  ⟨originTimestamp, 0, h.progressDownload.serverVersion, syncChangeset⟩

/-- `add_changeset(ct_changeset, sync_changeset)` for a local write, with the timestamp
`m_local_origin_timestamp_source()` gives: the new version it returns, and the history. -/
def addChangeset (h : ClientHistory) (ctChangeset syncChangeset : List UInt8)
    (originTimestamp : Nat) : ClientHistory × Nat :=
  let h := { h with ctHistory := h.ctHistory ++ [ctChangeset] }
  let entry := localEntry h syncChangeset originTimestamp
  let h := addSyncHistoryEntry h entry
  let h := { h with root := { h.root with
    uploadableBytes := h.root.uploadableBytes + entry.changeset.length } }
  (h, h.ctHistoryBaseVersion + h.ctHistory.length)

/-- The commit of a local write: the Realm moves to the version `add_changeset` returns. -/
def commit (h : ClientHistory) (ctChangeset syncChangeset : List UInt8) (originTimestamp : Nat) :
    ClientHistory :=
  let (h, version) := addChangeset h ctChangeset syncChangeset originTimestamp
  { h with version := version }

/-! ## Progress and trimming -/

/-- `clamp_sync_version_range(begin, end)`: a range that starts before the history starts at
its beginning. -/
def clampSyncVersionRange (h : ClientHistory) (beginVersion endVersion : Nat) : Nat × Nat :=
  if beginVersion < h.syncHistoryBaseVersion then
    (h.syncHistoryBaseVersion,
      if endVersion < h.syncHistoryBaseVersion then h.syncHistoryBaseVersion else endVersion)
  else (beginVersion, endVersion)

/-- `sum_of_history_entry_sizes(begin_version, end_version)`: the sizes of the local changesets
of the versions after `begin_version` up to `end_version` that the history still holds. -/
def sumOfHistoryEntrySizes (h : ClientHistory) (beginVersion endVersion : Nat) : Nat :=
  if endVersion ≤ beginVersion then 0
  else
    let (b, e) := clampSyncVersionRange h beginVersion endVersion
    let offset := b - h.syncHistoryBaseVersion
    ((List.range (e - b)).map fun i =>
      if h.arrays.originFileIdents.getD (offset + i) 0 ≠ 0 then 0
      else (h.arrays.changesets.getD (offset + i) []).length).sum

/-- An upload-skippable entry: of remote origin, or empty. -/
def uploadSkippable (a : SyncHistoryArrays) (i : Nat) : Bool :=
  a.originFileIdents.getD i 0 ≠ 0 || a.changesets.getD i [] = []

/-- The loop of `trim_sync_history()` over `n` entries from position `offset`: how many
upload-skippable entries come first. -/
def skippableRun (a : SyncHistoryArrays) (offset n : Nat) : Nat :=
  ((List.range n).takeWhile fun i => uploadSkippable a (offset + i)).length

/-- `do_trim_sync_history(n)`: the first `n` entries leave each array (clearing them all when
`n` is the size). -/
def doTrimSyncHistory (h : ClientHistory) (n : Nat) : ClientHistory :=
  { h with
    arrays :=
      { changesets := h.arrays.changesets.drop n
        reciprocalTransforms := h.arrays.reciprocalTransforms.drop n
        remoteVersions := h.arrays.remoteVersions.drop n
        originFileIdents := h.arrays.originFileIdents.drop n
        originTimestamps := h.arrays.originTimestamps.drop n }
    syncHistoryBaseVersion := h.syncHistoryBaseVersion + n }

/-- How many entries `trim_sync_history()` drops: those up to the last client version the
server integrated, `C`, and the run of upload-skippable entries after it. -/
def trimCount (h : ClientHistory) : Nat :=
  let begin := h.syncHistoryBaseVersion
  let end_ := max h.progressDownload.lastIntegratedClientVersion sInitialVersion
  -- a `C` before the history continues the scan from its beginning
  let end_ := if end_ < begin then begin else end_
  let offset := end_ - begin
  let n := h.syncHistorySize - offset
  end_ + skippableRun h.arrays offset n - begin

/-- `trim_sync_history()`. -/
def trimSyncHistory (h : ClientHistory) : ClientHistory :=
  doTrimSyncHistory h (trimCount h)

/-- The exception `update_sync_progress` throws when a cursor decreases. -/
def badProgress (what : String) (current new : Nat) : IntegrationException :=
  ⟨what ++ " cannot decrease (current: " ++ toString current ++ ", new: " ++ toString new ++ ")"⟩

/-- One of the checks of `update_sync_progress`: the new value may not be below the current
one. -/
def checkNotDecreasing (what : String) (current new : Nat) : Except IntegrationException Unit :=
  if new < current then .error (badProgress what current new) else .ok ()

/-- `update_sync_progress(progress, downloadable_bytes)`: the checks that no cursor decreases,
the progress slots, and the trimming. -/
def updateSyncProgress (h : ClientHistory) (progress : SyncProgress) (downloadableBytes : Nat) :
    Except IntegrationException ClientHistory := do
  let root := h.root
  checkNotDecreasing "latest server version" root.latestServerVersion
    progress.latestServerVersion.version
  checkNotDecreasing "server version of download cursor" root.downloadServerVersion
    progress.download.serverVersion
  checkNotDecreasing "last integrated client version of download cursor"
    root.downloadClientVersion progress.download.lastIntegratedClientVersion
  checkNotDecreasing "client version of upload cursor" root.uploadClientVersion
    progress.upload.clientVersion
  -- a zero server version in the upload cursor is not checked, and not recorded
  let lastIntegratedServerVersion := progress.upload.lastIntegratedServerVersion
  if 0 < lastIntegratedServerVersion ∧ lastIntegratedServerVersion < root.uploadServerVersion then
    throw (badProgress "last integrated server version of upload cursor" root.uploadServerVersion
      lastIntegratedServerVersion)
  let uploadedBytes := root.uploadedBytes +
    sumOfHistoryEntrySizes h root.uploadClientVersion progress.upload.clientVersion
  let root := { root with
    downloadServerVersion := progress.download.serverVersion
    downloadClientVersion := progress.download.lastIntegratedClientVersion
    latestServerVersion := progress.latestServerVersion.version
    latestServerVersionSalt := progress.latestServerVersion.salt
    uploadClientVersion := progress.upload.clientVersion
    uploadServerVersion :=
      if 0 < lastIntegratedServerVersion then lastIntegratedServerVersion
      else root.uploadServerVersion
    downloadableBytes := downloadableBytes
    uploadedBytes := uploadedBytes }
  return trimSyncHistory { h with root := root, progressDownload := progress.download }

/-! ## The upload scan -/

/-- The loop of `find_sync_history_entry` over `n` entries from position `offset + i`: the
version and entry of the first local, nonempty one, and the remote version of the last entry
scanned. -/
def scanSyncHistory (a : SyncHistoryArrays) (beginVersion offset : Nat) :
    Nat → Nat → Nat → Option (Nat × HistoryEntry) × Nat
  | 0, _, lastIntegrated => (none, lastIntegrated)
  | n + 1, i, _ =>
    let originFileIdent := a.originFileIdents.getD (offset + i) 0
    let lastIntegrated := a.remoteVersions.getD (offset + i) 0
    let changeset := a.changesets.getD (offset + i) []
    if originFileIdent = 0 ∧ changeset ≠ [] then
      (some (beginVersion + i + 1,
        ⟨a.originTimestamps.getD (offset + i) 0, originFileIdent, lastIntegrated, changeset⟩),
        lastIntegrated)
    else scanSyncHistory a beginVersion offset n (i + 1) lastIntegrated

/-- `find_sync_history_entry(arrays, base_version, begin_version, end_version, entry,
last_integrated_server_version)`: the first local, nonempty entry of the versions after
`begin_version` up to `end_version`, `none` for the returned version `0`. -/
def findSyncHistoryEntry (a : SyncHistoryArrays) (baseVersion beginVersion endVersion : Nat)
    (lastIntegrated : Nat) : Option (Nat × HistoryEntry) × Nat :=
  let beginVersion := if beginVersion = 0 then sInitialVersion else beginVersion
  scanSyncHistory a beginVersion (beginVersion - baseVersion) (endVersion - beginVersion) 0
    lastIntegrated

/-- The soft limit of the accumulated size, 128 KB. -/
def accumByteSizeSoftLimit : Nat := 131072

/-- The server's limit of the accumulated size, 16 MB. -/
def accumByteSizeHardLimit : Nat := 16777216

/-- The loop of `find_uploadable_changesets`, on fuel: where the next scan begins, the remote
version the cursor will carry, and the changesets found. -/
def findUploadableLoop (a : SyncHistoryArrays) (baseVersion endVersion : Nat) :
    Nat → Nat → Nat → Nat → List UploadChangeset → Nat × Nat × List UploadChangeset
  | 0, beginVersion, lastIntegrated, _, found => (beginVersion, lastIntegrated, found)
  | fuel + 1, beginVersion, lastIntegrated, accum, found =>
    if accum < accumByteSizeSoftLimit then
      match findSyncHistoryEntry a baseVersion beginVersion endVersion lastIntegrated with
      | (none, lastIntegrated2) => (endVersion, lastIntegrated2, found)
      | (some (version, entry), lastIntegrated2) =>
        let size := entry.changeset.length
        if accumByteSizeHardLimit ≤ accum + size ∧ found ≠ [] then
          (beginVersion, lastIntegrated, found)
        else
          findUploadableLoop a baseVersion endVersion fuel version lastIntegrated2 (accum + size)
            (found ++ [⟨entry.originTimestamp, entry.originFileIdent,
              ⟨version, entry.remoteVersion⟩, entry.changeset⟩])
    else (beginVersion, lastIntegrated, found)

/-- `find_uploadable_changesets(upload_progress, end_version, ...)`: the new upload cursor, the
changesets to upload, and the locked server version. -/
def findUploadableChangesets (h : ClientHistory) (uploadProgress : UploadCursor)
    (endVersion : Nat) : UploadCursor × List UploadChangeset × Nat :=
  let syncHistoryBaseVersion := h.version - h.syncHistorySize
  let beginVersion := max uploadProgress.clientVersion syncHistoryBaseVersion
  let endVersion2 := max endVersion syncHistoryBaseVersion
  let (beginVersion, lastIntegrated, found) :=
    findUploadableLoop h.arrays syncHistoryBaseVersion endVersion2 (h.syncHistorySize + 1)
      beginVersion uploadProgress.lastIntegratedServerVersion 0 []
  (⟨min beginVersion endVersion, lastIntegrated⟩, found, h.root.downloadServerVersion)

/-! ## Runs -/

/-- An operation on the history: a local commit, or a progress report. -/
inductive HistoryOp where
  | commit (ctChangeset syncChangeset : List UInt8) (originTimestamp : Nat)
  | updateSyncProgress (progress : SyncProgress) (downloadableBytes : Nat)
deriving Repr

/-- One operation; a progress report that throws leaves the history as it was, its write
transaction rolled back. -/
def step (h : ClientHistory) : HistoryOp → ClientHistory
  | .commit ct sync ts => h.commit ct sync ts
  | .updateSyncProgress progress downloadable =>
    match h.updateSyncProgress progress downloadable with
    | .ok h' => h'
    | .error _ => h

/-- What the sync client promises of a progress report: the server never reports more than
the client has, and its upload cursor is not behind its download cursor. -/
def HistoryOp.Admissible (h : ClientHistory) : HistoryOp → Prop
  | .commit _ _ _ => True
  | .updateSyncProgress progress _ =>
    progress.download.lastIntegratedClientVersion ≤ progress.upload.clientVersion ∧
      progress.upload.clientVersion ≤ h.version

/-- Whether an operation is admissible can be decided. -/
instance HistoryOp.decidableAdmissible (h : ClientHistory) :
    (o : HistoryOp) → Decidable (o.Admissible h)
  | .commit _ _ _ => isTrue trivial
  | .updateSyncProgress progress _ => inferInstanceAs (Decidable
      (progress.download.lastIntegratedClientVersion ≤ progress.upload.clientVersion ∧
        progress.upload.clientVersion ≤ h.version))

end ClientHistory

end Sync

end Realm
