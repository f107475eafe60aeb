import Mathlib.Data.List.Dedup
import HomelabMcp.Backup.Eviction
import HomelabMcp.Backup.Policy

/-!
# The backup store (store.ts)

The files below the store's directory as a table keyed by name. A blob holds
compressed bytes; a sidecar holds the record that `JSON.stringify` writes and
`JSON.parse` gives back, so it is kept as that record and printed only for its
size.
-/

namespace HomelabMcp.Backup

open SlashPath SortKey Text Iso

/-- config.ts:68. -/
inductive DiskPressureFailSafe
  | refuse
  | warn
  deriving DecidableEq, Repr

structure BackupConfig where
  baseDir : Str
  largeFileBytesThreshold : Nat
  largeFilePolicy : LargeFilePolicy
  perFileVersionCap : Nat
  globalSizeCapBytes : Nat
  diskPressureFailSafe : DiskPressureFailSafe

/-- What a sidecar says. A field that is absent is `none`, and one that is null
is `some none`. -/
structure Meta where
  target : BackupTarget
  blobPath : Option BackupPath
  hash : Str
  kind : StoredKind
  requiresBaseHash : Option (Option Str)
  reanchored : Option Bool
  revertible : Option Bool
  deriving DecidableEq

inductive Content
  | blob (b : Bytes)
  | sidecar (m : Meta)
  deriving DecidableEq

structure StoredFile where
  path : BackupPath
  content : Content
  deriving DecidableEq

/-- The files of the store. -/
abbrev Disk := List StoredFile

/-! ## Sizes -/

def optional (name : String) (v : Option Json) : List (Str × Json) :=
  (v.map fun v => (name.toList, v)).toList

def BackupTargetKind.text : BackupTargetKind → Str
  | .host => "host".toList
  | .pct => "pct".toList
  | .qm => "qm".toList
  | .docker => "docker".toList

def BackupTarget.json (t : BackupTarget) : Json :=
  .obj ([("kind".toList, .str t.kind.text)] ++ optional "vmid" (t.vmid.map .nat) ++
    optional "container" (t.container.map .str) ++ [("remotePath".toList, .str t.remotePath)])

def nullable : Option Str → Json
  | some s => .str s
  | none => .null

/-- The record of a sidecar (store.ts:194, 222). -/
def Meta.json (baseDir : Str) (m : Meta) : Json :=
  .obj ([("target".toList, m.target.json), ("remotePath".toList, .str m.target.remotePath)] ++
    optional "blobPath" (m.blobPath.map fun p => .str (p.text baseDir)) ++
    [("hash".toList, .str m.hash), ("kind".toList, .str m.kind.text)] ++
    optional "requiresBaseHash" (m.requiresBaseHash.map nullable) ++
    optional "reanchored" (m.reanchored.map .bool) ++
    optional "revertible" (m.revertible.map .bool))

def Content.size (baseDir : Str) : Content → Nat
  | .blob b => b.length
  | .sidecar m => (Utf8.encode (m.json baseDir).stringify).length

/-! ## Reading -/

/-- `fs.existsSync` and `fs.readFileSync`. -/
def read (disk : Disk) (p : BackupPath) : Option Content :=
  (KeyedList.lookup StoredFile.path p disk).map StoredFile.content

def readMeta (disk : Disk) (p : BackupPath) : Option Meta :=
  match read disk p with
  | some (.sidecar m) => some m
  | _ => none

/-- The files in the order that the directories list them. -/
def listing (disk : Disk) : Disk :=
  sortOn (fun f => f.path.listingKey) disk

def StoredFile.entry (cfg : BackupConfig) (f : StoredFile) : BackupEntry where
  path := f.path
  fileKey := f.path.key
  timestamp := f.path.stamp
  sizeBytes := f.content.size cfg.baseDir

/-- store.ts:89. -/
def listEntries (cfg : BackupConfig) (disk : Disk) : List BackupEntry :=
  (listing disk).map (StoredFile.entry cfg)

/-- Where the blob of a sidecar is: its `blobPath`, or else the file beside it. -/
def blobOf (disk : Disk) (p : BackupPath) (m : Meta) : Option BackupPath :=
  let blob := m.blobPath.getD (p.withExt .gz)
  if (read disk blob).isSome then some blob else none

/-- `map.set(meta.hash, blob)`, for a sidecar that may be a dedup target. -/
def addExisting (disk : Disk) (map : List (Str × BackupPath)) (f : StoredFile) :
    List (Str × BackupPath) :=
  match f.content with
  | .sidecar m =>
    if m.reanchored = some true then map
    else
      match blobOf disk f.path m with
      | some blob => KeyedList.upsert Prod.fst (m.hash, blob) map
      | none => map
  | .blob _ => map

/-- store.ts:131. -/
def buildExistingHashMap (disk : Disk) : List (Str × BackupPath) :=
  (listing disk).foldl (addExisting disk) []

/-- The files of a directory. -/
def filesOf (disk : Disk) (key : Str) : Disk :=
  (listing disk).filter fun f => f.path.key = key

/-- The stamps in a directory, oldest first: its versions. -/
def stampsOf (disk : Disk) (key : Str) : List Str :=
  ((filesOf disk key).map fun f => f.path.stamp).dedup

/-- The stamps of the sidecars of a target, newest first (store.ts:361). -/
def metasNewestFirst (rt : Runtime) (disk : Disk) (target : BackupTarget) : List BackupPath :=
  ((filesOf disk (fileKey rt.sha256 target)).map StoredFile.path).reverse.filter fun p =>
    p.ext = .sidecar

/-- store.ts:356. -/
def latestBaseHash (rt : Runtime) (disk : Disk) (target : BackupTarget) : Option Str :=
  (metasNewestFirst rt disk target).findSome? fun p => (readMeta disk p).map Meta.hash

/-- store.ts:73. -/
structure BackupVersionInfo where
  backupPath : BackupPath
  timestamp : Str
  kind : StoredKind
  sizeBytes : Nat
  revertible : Bool
  hash : Option Str
  requiresBaseHash : Option (Option Str)
  reanchored : Option Bool
  deriving DecidableEq

/-- The version at a stamp, as it is listed (store.ts:310). -/
def versionAt (rt : Runtime) (cfg : BackupConfig) (disk : Disk) (target : BackupTarget)
    (ts : Str) : Option BackupVersionInfo :=
  let gz : BackupPath := ⟨fileKey rt.sha256 target, ts, .gz⟩
  let metaPath := gz.withExt .sidecar
  match read disk gz, read disk metaPath with
  | some blob, sidecar =>
    let info : BackupVersionInfo :=
      ⟨gz, ts, .gzipFull, blob.size cfg.baseDir, true, none, none, none⟩
    match sidecar with
    | some (.sidecar m) => some { info with
        kind := m.kind, hash := some m.hash, requiresBaseHash := m.requiresBaseHash
        reanchored := some (m.reanchored = some true) }
    | _ => some info
  | none, some sidecar =>
    some ⟨metaPath, ts, .metadataOnly, sidecar.size cfg.baseDir, false, none, none, none⟩
  | none, none => none

/-- The versions of a target, newest first (store.ts:300). -/
def listBackupsForPath (rt : Runtime) (cfg : BackupConfig) (disk : Disk) (target : BackupTarget) :
    List BackupVersionInfo :=
  (stampsOf disk (fileKey rt.sha256 target)).reverse.filterMap (versionAt rt cfg disk target)

/-- store.ts:289; `none` where it throws. -/
def readBackupTarget (disk : Disk) (backupPath : BackupPath) : Option BackupTarget :=
  (readMeta disk (backupPath.withExt .sidecar)).map Meta.target

/-- store.ts:379. -/
def restore (rt : Runtime) (disk : Disk) (backupPath : BackupPath) (currentContent : Option Bytes) :
    Except Str (Option Bytes) :=
  match read disk backupPath with
  | none => .error "Backup not found".toList
  | some (.blob b) => (applyReverseDiff rt b currentContent).map some
  | some (.sidecar _) => .ok none

theorem isSome_read {disk : Disk} {p : BackupPath} :
    (read disk p).isSome ↔ ∃ f ∈ disk, f.path = p := by
  rw [read, Option.isSome_map, KeyedList.lookup_isSome_iff]

theorem read_path_of_mem {disk : Disk} (hd : (disk.map StoredFile.path).Nodup) {f : StoredFile}
    (hf : f ∈ disk) : read disk f.path = some f.content := by
  rw [read, KeyedList.lookup_self hd hf]
  rfl

theorem mem_of_read {disk : Disk} {p : BackupPath} {c : Content} (h : read disk p = some c) :
    ⟨p, c⟩ ∈ disk := by
  unfold read at h
  obtain ⟨f, hf, rfl⟩ := Option.map_eq_some_iff.mp h
  have hkey := KeyedList.key_of_lookup hf
  subst hkey
  exact KeyedList.mem_of_lookup hf

theorem readMeta_eq_some {disk : Disk} {p : BackupPath} {m : Meta} :
    readMeta disk p = some m ↔ read disk p = some (.sidecar m) := by
  unfold readMeta
  split
  · rename_i n h
    simp [h]
  · rename_i h
    constructor
    · intro hnone
      cases hnone
    · intro hread
      exact absurd hread (h m)

theorem isSome_of_blobOf {disk : Disk} {p q : BackupPath} {m : Meta}
    (h : blobOf disk p m = some q) : (read disk q).isSome := by
  unfold blobOf at h
  by_cases hread : (read disk (m.blobPath.getD (p.withExt .gz))).isSome
  · rw [if_pos hread] at h
    injection h with h
    exact h ▸ hread
  · rw [if_neg hread] at h
    cases h

/-- Each entry of the map comes from a sidecar of the store. -/
theorem mem_buildExistingHashMap {disk : Disk} {e : Str × BackupPath}
    (h : e ∈ buildExistingHashMap disk) : ∃ f ∈ disk, ∃ m, f.content = .sidecar m ∧
      m.reanchored ≠ some true ∧ m.hash = e.1 ∧ blobOf disk f.path m = some e.2 := by
  unfold buildExistingHashMap at h
  have hmem : ∀ f ∈ listing disk, f ∈ disk := fun f hf => (mem_sortOn _).mp hf
  generalize listing disk = l at h hmem
  induction l using List.reverseRecOn with
  | nil => cases h
  | append_singleton l f ih =>
    rw [List.foldl_append] at h
    have hl : ∀ g ∈ l, g ∈ disk := fun g hg => hmem g (List.mem_append_left _ hg)
    have hf : f ∈ disk := hmem f (List.mem_append_right _ (List.mem_singleton_self f))
    change e ∈ addExisting disk (l.foldl (addExisting disk) []) f at h
    unfold addExisting at h
    cases hc : f.content with
    | blob b =>
      rw [hc] at h
      exact ih h hl
    | sidecar m =>
      rw [hc] at h
      dsimp only at h
      by_cases hre : m.reanchored = some true
      · rw [if_pos hre] at h
        exact ih h hl
      · rw [if_neg hre] at h
        cases hblob : blobOf disk f.path m with
        | none =>
          rw [hblob] at h
          exact ih h hl
        | some blob =>
          rw [hblob] at h
          rcases KeyedList.mem_upsert h with rfl | h
          · exact ⟨f, hf, m, hc, hre, rfl, hblob⟩
          · exact ih h hl

/-! ## Writing -/

/-- The files that the planner chooses to delete now. -/
def evicted (cfg : BackupConfig) (disk : Disk) : List BackupPath :=
  (planEviction (listEntries cfg disk) cfg.perFileVersionCap cfg.globalSizeCapBytes).toDelete.map
    BackupEntry.path

/-- store.ts:162. -/
def runEviction (cfg : BackupConfig) (disk : Disk) : Disk :=
  disk.filter fun f => f.path ∉ evicted cfg disk

/-- store.ts:170. -/
def checkDiskPressure (cfg : BackupConfig) (disk : Disk) : Bool :=
  isOverCap (planEviction (listEntries cfg disk) cfg.perFileVersionCap
    cfg.globalSizeCapBytes).toKeep cfg.globalSizeCapBytes

/-- `fs.writeFileSync`. -/
def write (p : BackupPath) (c : Content) (disk : Disk) : Disk :=
  KeyedList.upsert StoredFile.path ⟨p, c⟩ disk

inductive ResultKind
  | dedup
  | gzipDiff
  | gzipFull
  | metadataOnly
  deriving DecidableEq, Repr

/-- store.ts:66. -/
structure BackupResult where
  backupPath : Option BackupPath
  existingPath : Option BackupPath
  kind : ResultKind
  revertible : Bool
  deriving DecidableEq

/-- A version with content: the blob and the sidecar that points to it. -/
def writeVersion (key : Str) (now : Instant) (blob : Bytes) (m : Meta) (disk : Disk) : Disk :=
  write ⟨key, stamp now, .sidecar⟩ (.sidecar { m with blobPath := some ⟨key, stamp now, .gz⟩ })
    (write ⟨key, stamp now, .gz⟩ (.blob blob) disk)

/-- store.ts:176. -/
def storeBackup (rt : Runtime) (cfg : BackupConfig) (target : BackupTarget) (kind : BackupKind)
    (newHash : Str) (now : Instant) (disk : Disk) : BackupResult × Disk :=
  let disk := runEviction cfg disk
  let key := fileKey rt.sha256 target
  let blobPath : BackupPath := ⟨key, stamp now, .gz⟩
  match kind with
  | .dedup existingPath => (⟨none, some existingPath, .dedup, true⟩, disk)
  | .metadataOnly =>
    (⟨some (blobPath.withExt .sidecar), none, .metadataOnly, false⟩,
      write (blobPath.withExt .sidecar)
        (.sidecar ⟨target, none, newHash, .metadataOnly, none, none, some false⟩) disk)
  | .gzipDiff blob requiresBaseHash =>
    (⟨some blobPath, none, .gzipDiff, true⟩,
      writeVersion key now blob
        ⟨target, none, newHash, .gzipDiff, some requiresBaseHash, some false, none⟩ disk)
  | .gzipFull blob reanchored =>
    (⟨some blobPath, none, .gzipFull, true⟩,
      writeVersion key now blob
        ⟨target, none, newHash, .gzipFull, some none, some reanchored, none⟩ disk)

/-! ## What a call stores -/

/-- The files a call writes. -/
def storedFiles (rt : Runtime) (target : BackupTarget) (kind : BackupKind) (newHash : Str)
    (now : Instant) : Disk :=
  let key := fileKey rt.sha256 target
  let blobPath : BackupPath := ⟨key, stamp now, .gz⟩
  let sidecar (m : Meta) : StoredFile := ⟨⟨key, stamp now, .sidecar⟩, .sidecar m⟩
  match kind with
  | .dedup _ => []
  | .metadataOnly => [sidecar ⟨target, none, newHash, .metadataOnly, none, none, some false⟩]
  | .gzipDiff blob requiresBaseHash =>
    [⟨blobPath, .blob blob⟩,
      sidecar ⟨target, some blobPath, newHash, .gzipDiff, some requiresBaseHash, some false, none⟩]
  | .gzipFull blob reanchored =>
    [⟨blobPath, .blob blob⟩,
      sidecar ⟨target, some blobPath, newHash, .gzipFull, some none, some reanchored, none⟩]

theorem storedFiles_path {rt : Runtime} {target : BackupTarget} {kind : BackupKind} {newHash : Str}
    {now : Instant} {f : StoredFile} (hf : f ∈ storedFiles rt target kind newHash now) :
    f.path.key = fileKey rt.sha256 target ∧ f.path.stamp = stamp now := by
  cases kind <;> simp [storedFiles] at hf
  case metadataOnly => simp [hf]
  all_goals rcases hf with rfl | rfl <;> exact ⟨rfl, rfl⟩

theorem write_of_fresh {p : BackupPath} (c : Content) {disk : Disk}
    (h : ∀ f ∈ disk, f.path ≠ p) : write p c disk = disk ++ [⟨p, c⟩] := by
  unfold write
  refine KeyedList.upsert_of_notMem fun hmem => ?_
  obtain ⟨f, hf, hp⟩ := List.mem_map.mp hmem
  exact h f hf hp

/-- No file of the target has the stamp of this millisecond. -/
def Fresh (rt : Runtime) (target : BackupTarget) (now : Instant) (disk : Disk) : Prop :=
  ∀ f ∈ disk, f.path.key = fileKey rt.sha256 target → f.path.stamp ≠ stamp now

/-- A call under a fresh stamp only adds its files to what eviction leaves. -/
theorem storeBackup_of_fresh {rt : Runtime} {cfg : BackupConfig} {target : BackupTarget}
    {now : Instant} {disk : Disk} (h : Fresh rt target now (runEviction cfg disk))
    (kind : BackupKind) (newHash : Str) :
    (storeBackup rt cfg target kind newHash now disk).2 =
      runEviction cfg disk ++ storedFiles rt target kind newHash now := by
  have hfree : ∀ ext, ∀ f ∈ runEviction cfg disk,
      f.path ≠ ⟨fileKey rt.sha256 target, stamp now, ext⟩ := by
    intro ext f hf hpath
    exact h f hf (by rw [hpath]) (by rw [hpath])
  have hboth : ∀ blob m, writeVersion (fileKey rt.sha256 target) now blob m
      (runEviction cfg disk) = runEviction cfg disk ++
        [⟨⟨fileKey rt.sha256 target, stamp now, .gz⟩, .blob blob⟩,
          ⟨⟨fileKey rt.sha256 target, stamp now, .sidecar⟩,
            .sidecar { m with blobPath := some ⟨fileKey rt.sha256 target, stamp now, .gz⟩ }⟩] := by
    intro blob m
    rw [writeVersion, write_of_fresh _ (hfree .gz), write_of_fresh, List.append_assoc]
    · rfl
    · intro f hf
      rw [List.mem_append, List.mem_singleton] at hf
      rcases hf with hf | rfl
      · exact hfree .sidecar f hf
      · simp
  cases kind with
  | dedup existingPath => simp [storeBackup, storedFiles]
  | metadataOnly => exact write_of_fresh _ (hfree .sidecar)
  | gzipDiff blob requiresBaseHash => exact hboth _ _
  | gzipFull blob reanchored => exact hboth _ _

/-- A call writes its files over what eviction leaves. -/
theorem storeBackup_disk (rt : Runtime) (cfg : BackupConfig) (target : BackupTarget)
    (kind : BackupKind) (newHash : Str) (now : Instant) (disk : Disk) :
    (storeBackup rt cfg target kind newHash now disk).2 =
      KeyedList.upsertAll StoredFile.path (storedFiles rt target kind newHash now)
        (runEviction cfg disk) := by
  cases kind <;> rfl

theorem nodup_storedFiles (rt : Runtime) (target : BackupTarget) (kind : BackupKind)
    (newHash : Str) (now : Instant) :
    ((storedFiles rt target kind newHash now).map StoredFile.path).Nodup := by
  cases kind <;> simp [storedFiles]

/-- After a call a name answers with the file the call wrote, or else as eviction
left it. -/
theorem read_storeBackup (rt : Runtime) (cfg : BackupConfig) (target : BackupTarget)
    (kind : BackupKind) (newHash : Str) (now : Instant) (disk : Disk) (p : BackupPath) :
    read (storeBackup rt cfg target kind newHash now disk).2 p =
      (read (storedFiles rt target kind newHash now) p).or (read (runEviction cfg disk) p) := by
  unfold read
  rw [storeBackup_disk, KeyedList.lookup_upsertAll (nodup_storedFiles rt target kind newHash now)]
  cases KeyedList.lookup StoredFile.path p (storedFiles rt target kind newHash now) <;> rfl

end HomelabMcp.Backup
