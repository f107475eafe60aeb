import HomelabMcp.Backup.Versions

/-!
# Backups that the tools take

The write tools hand what they know of a file to `selectBackupKind` and store
the result; a revert stores the current bytes as they are. `ManagedCall` is one
such step of the store, whatever tool and target it comes from.

- `storesSafely_iff`: when a write's backup is there afterwards and has destroyed
  no other.
-/

namespace HomelabMcp.Backup

open SlashPath SortKey Text Iso

/-- What a write pipeline hands to `selectBackupKind` (writeFile.ts:177). -/
def policyInput (rt : Runtime) (cfg : BackupConfig) (disk : Disk) (target : BackupTarget)
    (newContent : Bytes) (prevContent : Option Bytes) : BackupPolicyInput where
  newContent := newContent
  prevContent := prevContent
  prevHash := prevContent.map (contentHash rt)
  isText := isTextContent newContent
  largeFileBytesThreshold := cfg.largeFileBytesThreshold
  largeFilePolicy := cfg.largeFilePolicy
  existingHashToPaths := buildExistingHashMap disk
  chainBaseHash := latestBaseHash rt disk target

inductive ManagedAction
  /-- A write over the previous content, if there was one. -/
  | write (prevContent : Option Bytes)
  /-- The snapshot that a revert takes of the current content. -/
  | snapshot
  deriving DecidableEq

/-- A backup taken by a tool: `content` is what a write is about to write, or
what a revert is about to replace. -/
structure ManagedCall where
  target : BackupTarget
  content : Bytes
  action : ManagedAction
  now : Instant

/-- The kind the tool asks for (writeFile.ts:177, revertFile.ts:251). -/
def ManagedCall.kind (rt : Runtime) (cfg : BackupConfig) (c : ManagedCall) (disk : Disk) :
    BackupKind :=
  match c.action with
  | .write prevContent =>
    selectBackupKind rt (policyInput rt cfg disk c.target c.content prevContent)
  | .snapshot => .gzipFull (rt.gzip c.content) false

/-- One managed backup. -/
def backUp (rt : Runtime) (cfg : BackupConfig) (c : ManagedCall) (disk : Disk) :
    BackupResult × Disk :=
  storeBackup rt cfg c.target (c.kind rt cfg disk) (contentHash rt c.content) c.now disk

/-- The store after some managed backups. -/
def managedStore (rt : Runtime) (cfg : BackupConfig) (calls : List ManagedCall) : Disk :=
  calls.foldl (fun disk c => (backUp rt cfg c disk).2) []

theorem managedStore_append (rt : Runtime) (cfg : BackupConfig) (calls : List ManagedCall)
    (c : ManagedCall) :
    managedStore rt cfg (calls ++ [c]) = (backUp rt cfg c (managedStore rt cfg calls)).2 := by
  rw [managedStore, List.foldl_append]
  rfl

/-! ## Names -/

theorem nodup_storeBackup {rt : Runtime} {cfg : BackupConfig} {target : BackupTarget}
    {kind : BackupKind} {newHash : Str} {now : Instant} {disk : Disk}
    (hd : (disk.map StoredFile.path).Nodup) :
    ((storeBackup rt cfg target kind newHash now disk).2.map StoredFile.path).Nodup := by
  rw [storeBackup_disk]
  exact KeyedList.nodup_upsertAll _ (hd.sublist ((runEviction_sublist cfg disk).map _))

theorem nodup_managedStore (rt : Runtime) (cfg : BackupConfig) (calls : List ManagedCall) :
    ((managedStore rt cfg calls).map StoredFile.path).Nodup := by
  induction calls using List.reverseRecOn with
  | nil => exact List.nodup_nil
  | append_singleton calls c ih =>
    rw [managedStore_append]
    exact nodup_storeBackup ih

/-! ## Safe backups -/

/-- What a write may rely on once its backup is taken: a reported backup exists,
and every file that the planner did not choose to delete is as it was. -/
structure StoresSafely (rt : Runtime) (cfg : BackupConfig) (c : ManagedCall) (disk : Disk) :
    Prop where
  reported : (backUp rt cfg c disk).1.revertible = true →
    ∃ p, (backUp rt cfg c disk).1.backupPath.or (backUp rt cfg c disk).1.existingPath = some p ∧
      (read (backUp rt cfg c disk).2 p).isSome
  others : ∀ f ∈ disk, f.path ∉ evicted cfg disk →
    read (backUp rt cfg c disk).2 f.path = some f.content

/-- The blob that a dedup refers to is not among the files to delete now, and no
file that stays has the name of one the call writes, unless it holds the same
bytes. -/
structure Harmless (rt : Runtime) (cfg : BackupConfig) (c : ManagedCall) (disk : Disk) :
    Prop where
  keepsBlob : ∀ p, c.kind rt cfg disk = .dedup p → p ∉ evicted cfg disk
  keepsFiles : ∀ f ∈ disk, f.path ∉ evicted cfg disk →
    ∀ g ∈ storedFiles rt c.target (c.kind rt cfg disk) (contentHash rt c.content) c.now,
      g.path = f.path → g.content = f.content

theorem isSome_read_runEviction {cfg : BackupConfig} {disk : Disk} {p : BackupPath}
    (h : (read disk p).isSome) :
    (read (runEviction cfg disk) p).isSome ↔ p ∉ evicted cfg disk := by
  rw [isSome_read] at h ⊢
  constructor
  · rintro ⟨f, hf, rfl⟩
    exact of_decide_eq_true (List.mem_filter.mp hf).2
  · intro hstays
    obtain ⟨f, hf, rfl⟩ := h
    exact ⟨f, List.mem_filter.mpr ⟨hf, decide_eq_true hstays⟩, rfl⟩

theorem dedup_of_selectBackupKind {rt : Runtime} {input : BackupPolicyInput} {p : BackupPath}
    (h : selectBackupKind rt input = .dedup p) :
    (contentHash rt input.newContent, p) ∈ input.existingHashToPaths := by
  rcases selectBackupKind_cases rt input with ⟨q, hq, hkind⟩ | ⟨-, hkind⟩
  · rw [h] at hkind
    injection hkind with hkind
    exact hkind ▸ hq
  · rcases hkind with hkind | hkind | ⟨prev, -, hkind⟩
    · rw [h] at hkind
      cases hkind
    · rw [h] at hkind
      cases hkind
    · rw [h] at hkind
      rcases diffAgainst_cases rt input.newContent prev
        (driftedSinceLastWrite input.prevHash input.chainBaseHash) with ⟨-, hdiff⟩ | ⟨-, hdiff⟩
      · rw [hdiff] at hkind
        cases hkind
      · rw [hdiff] at hkind
        cases hkind

/-- A dedup refers to a blob of the store. -/
theorem isSome_read_of_dedup {rt : Runtime} {cfg : BackupConfig} {c : ManagedCall} {disk : Disk}
    {p : BackupPath} (h : c.kind rt cfg disk = .dedup p) : (read disk p).isSome := by
  unfold ManagedCall.kind at h
  cases haction : c.action with
  | snapshot =>
    rw [haction] at h
    cases h
  | write prevContent =>
    rw [haction] at h
    obtain ⟨f, -, m, -, -, -, hblob⟩ := mem_buildExistingHashMap (dedup_of_selectBackupKind h)
    exact isSome_of_blobOf hblob

/-- The backup of a write is there afterwards and has destroyed no other exactly
when the eviction that it starts with spares the blob it refers to and the
clock names no file that stays. -/
theorem storesSafely_iff (rt : Runtime) (cfg : BackupConfig) (past : List ManagedCall)
    (c : ManagedCall) :
    StoresSafely rt cfg c (managedStore rt cfg past) ↔
      Harmless rt cfg c (managedStore rt cfg past) := by
  have hd := nodup_managedStore rt cfg past
  generalize managedStore rt cfg past = disk at *
  have hevict : ((runEviction cfg disk).map StoredFile.path).Nodup :=
    hd.sublist ((runEviction_sublist cfg disk).map _)
  have hstored := nodup_storedFiles rt c.target (c.kind rt cfg disk) (contentHash rt c.content)
    c.now
  constructor
  · rintro ⟨hreported, hothers⟩
    constructor
    · intro p hp
      rw [backUp, hp] at hreported
      obtain ⟨q, hq, hread⟩ := hreported rfl
      injection hq with hq
      subst hq
      exact (isSome_read_runEviction (isSome_read_of_dedup hp)).mp hread
    · intro f hf hstays g hg hpath
      have hread := hothers f hf hstays
      rw [backUp, read_storeBackup, ← hpath, read_path_of_mem hstored hg] at hread
      exact Option.some.inj hread
  · rintro ⟨hblob, hfiles⟩
    constructor
    · intro hrev
      have hwritten : ∀ f ∈ storedFiles rt c.target (c.kind rt cfg disk)
          (contentHash rt c.content) c.now, (read (backUp rt cfg c disk).2 f.path).isSome := by
        intro f hf
        rw [backUp, read_storeBackup, read_path_of_mem hstored hf]
        rfl
      cases hkind : c.kind rt cfg disk with
      | dedup p =>
        rw [backUp, hkind]
        exact ⟨p, rfl, (isSome_read_runEviction (isSome_read_of_dedup hkind)).mpr (hblob p hkind)⟩
      | metadataOnly =>
        rw [backUp, hkind] at hrev
        cases hrev
      | gzipDiff blob requiresBaseHash =>
        rw [hkind] at hwritten
        refine ⟨_, ?_, hwritten _ List.mem_cons_self⟩
        rw [backUp, hkind]
        rfl
      | gzipFull blob reanchored =>
        rw [hkind] at hwritten
        refine ⟨_, ?_, hwritten _ List.mem_cons_self⟩
        rw [backUp, hkind]
        rfl
    · intro f hf hstays
      rw [backUp, read_storeBackup]
      cases hread : read (storedFiles rt c.target (c.kind rt cfg disk)
          (contentHash rt c.content) c.now) f.path with
      | some content =>
        have hg := mem_of_read hread
        exact congrArg some (hfiles f hf hstays _ hg rfl)
      | none =>
        refine read_path_of_mem hevict (List.mem_filter.mpr ⟨hf, ?_⟩)
        exact decide_eq_true hstays

/-- A write to `/etc/motd`. -/
def writeMotd (content : Bytes) (prevContent : Option Bytes) (now : Instant) : ManagedCall :=
  ⟨motd, content, .write prevContent, now⟩

/-- Two writes that change the bytes. -/
def twoWrites : List ManagedCall :=
  [writeMotd [104] none (atSecond 1), writeMotd [105] (some [104]) (atSecond 2)]

/-- The third write repeats the bytes of the first, whose backup the cap of two
files evicts in the same call. -/
theorem not_storesSafely : ¬ ∀ (rt : Runtime) (cfg : BackupConfig) (past : List ManagedCall)
    (c : ManagedCall), (past ++ [c]).Pairwise (fun c d => ¬ d.now.before c.now) →
      StoresSafely rt cfg c (managedStore rt cfg past) := by
  intro hall
  have hsafe := hall plainRuntime (withCaps 2 1000) twoWrites
    (writeMotd [104] (some [105]) (atSecond 3)) (by decide)
  obtain ⟨p, hp, hread⟩ := hsafe.reported (by decide +kernel)
  have hblob : (backUp plainRuntime (withCaps 2 1000)
      (writeMotd [104] (some [105]) (atSecond 3))
      (managedStore plainRuntime (withCaps 2 1000) twoWrites)).1 =
        ⟨none, some ⟨fileKey plainRuntime.sha256 motd, stamp (atSecond 1), .gz⟩, .dedup, true⟩ := by
    decide +kernel
  rw [hblob] at hp
  injection hp with hp
  subst hp
  revert hread
  decide +kernel

end HomelabMcp.Backup
