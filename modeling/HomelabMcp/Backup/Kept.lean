import HomelabMcp.Backup.Revertible
import HomelabMcp.Backup.TargetKeys

/-!
# What is kept of a backup

A managed call puts a version into the store that later calls at other times leave as it
is, unless they evict it: where it is still there, it restores what it did at first.

- `read_kept`: a file of a version that is still there is the one that was stored.
- `write_restores`: what the version of a text write gives back over the written text.
- `snapshot_restores`: what the version of a revert gives back over anything.
-/

namespace HomelabMcp.Backup

open SlashPath Text Integrity Iso

/-! ## Names -/

theorem slash_notMem_fileKey (sha256 : Bytes → Bytes) (target : BackupTarget) :
    '/' ∉ fileKey sha256 target := by
  intro h
  obtain ⟨n, hn, hslash⟩ := mem_hashHex (List.mem_of_mem_take h)
  have hne : ∀ n < 16, '/' ≠ Nat.digitChar n := by decide
  exact hne n hn hslash

/-- Two names of one text. -/
theorem BackupPath.eq_of_text {baseDir : Str} {p q : BackupPath} (hp : '/' ∉ p.key)
    (hq : '/' ∉ q.key) (h : p.text baseDir = q.text baseDir) : p = q := by
  obtain ⟨key, stamp, ext⟩ := p
  obtain ⟨key', stamp', ext'⟩ := q
  unfold BackupPath.text at h
  have hnames := (List.cons.inj (List.append_cancel_left h)).2
  obtain ⟨rfl, hfile⟩ := append_cons_inj hp hq hnames
  have hext : ext = ext' := by
    -- the extensions differ in their last characters
    have hlast := congrArg List.getLast? hfile
    cases ext <;> cases ext' <;> simp [Ext.text] at hlast <;> rfl
  subst hext
  obtain rfl : stamp = stamp' := List.append_cancel_right hfile
  rfl

/-! ## Stores -/

/-- The names of a store are told apart by their texts. -/
structure Tidy (disk : Disk) : Prop where
  nodup : (disk.map StoredFile.path).Nodup
  keys : ∀ f ∈ disk, '/' ∉ f.path.key

theorem tidy_nil : Tidy [] := ⟨List.nodup_nil, fun _ hf => absurd hf List.not_mem_nil⟩

theorem Tidy.backUp {rt : Runtime} {cfg : BackupConfig} {disk : Disk} (h : Tidy disk)
    (c : ManagedCall) : Tidy (backUp rt cfg c disk).2 := by
  refine ⟨nodup_storeBackup h.nodup, fun f hf => ?_⟩
  rw [Backup.backUp, storeBackup_disk] at hf
  rcases KeyedList.mem_upsertAll hf with hf | hf
  · rw [(storedFiles_path hf).1]
    exact slash_notMem_fileKey _ _
  · exact h.keys f ((runEviction_sublist cfg disk).subset hf)

/-- The store after some managed calls. -/
def backUpAll (rt : Runtime) (cfg : BackupConfig) (disk : Disk) (calls : List ManagedCall) : Disk :=
  calls.foldl (fun disk c => (backUp rt cfg c disk).2) disk

theorem Tidy.backUpAll {rt : Runtime} {cfg : BackupConfig} {disk : Disk} (h : Tidy disk)
    (calls : List ManagedCall) : Tidy (backUpAll rt cfg disk calls) := by
  induction calls generalizing disk with
  | nil => exact h
  | cons c calls ih => exact ih (h.backUp c)

/-- A call at another time leaves a version as it is, or evicts it. -/
theorem read_of_backUp {rt : Runtime} {cfg : BackupConfig} {disk : Disk} (h : Tidy disk)
    {c : ManagedCall} {key : Str} {now : Instant} (hnow : c.now ≠ now) {ext : Ext}
    {content : Content} (hread : read (backUp rt cfg c disk).2 ⟨key, stamp now, ext⟩ = some content) :
    read disk ⟨key, stamp now, ext⟩ = some content := by
  rw [backUp, read_storeBackup, read_storedFiles_other fun hpath =>
    hnow (stamp_injective hpath.2.symm), Option.none_or] at hread
  exact read_of_runEviction h.nodup hread

/-- What is still there of a version, after calls at other times, is what was stored. -/
theorem read_kept {rt : Runtime} {cfg : BackupConfig} {disk : Disk} (h : Tidy disk)
    {calls : List ManagedCall} {key : Str} {now : Instant} (hnow : ∀ c ∈ calls, c.now ≠ now)
    {ext : Ext} {content : Content}
    (hread : read (backUpAll rt cfg disk calls) ⟨key, stamp now, ext⟩ = some content) :
    read disk ⟨key, stamp now, ext⟩ = some content := by
  induction calls generalizing disk with
  | nil => exact hread
  | cons c calls ih =>
    have hlater := ih (h.backUp c) (fun d hd => hnow d (List.mem_cons_of_mem _ hd)) hread
    exact read_of_backUp h (hnow c List.mem_cons_self) hlater

/-! ## What a version gives back -/

section
variable {rt : Runtime} {cfg : BackupConfig} {disk : Disk} {c : ManagedCall}

/-- A version with this blob is in the store, for this target. -/
structure Stores (rt : Runtime) (disk : Disk) (target : BackupTarget) (now : Instant) (blob : Bytes) :
    Prop where
  blob : read disk ⟨fileKey rt.sha256 target, stamp now, .gz⟩ = some (.blob blob)
  sidecar : ∃ m, read disk ⟨fileKey rt.sha256 target, stamp now, .sidecar⟩ = some (.sidecar m) ∧
    m.target = target

theorem read_storedFiles_now {f : StoredFile}
    (hf : f ∈ storedFiles rt c.target (c.kind rt cfg disk) (contentHash rt c.content) c.now) :
    read (backUp rt cfg c disk).2 f.path = some f.content := by
  rw [backUp, read_storeBackup, read_path_of_mem (nodup_storedFiles _ _ _ _ _) hf]
  rfl

theorem stores_gzipFull {blob : Bytes} {reanchored : Bool}
    (hkind : c.kind rt cfg disk = .gzipFull blob reanchored) :
    Stores rt (backUp rt cfg c disk).2 c.target c.now blob := by
  have hstored := @read_storedFiles_now rt cfg disk c
  rw [hkind] at hstored
  exact ⟨hstored List.mem_cons_self, _, hstored (List.mem_cons_of_mem _ List.mem_cons_self), rfl⟩

theorem stores_gzipDiff {blob : Bytes} {requiresBaseHash : Option Str}
    (hkind : c.kind rt cfg disk = .gzipDiff blob requiresBaseHash) :
    Stores rt (backUp rt cfg c disk).2 c.target c.now blob := by
  have hstored := @read_storedFiles_now rt cfg disk c
  rw [hkind] at hstored
  exact ⟨hstored List.mem_cons_self, _, hstored (List.mem_cons_of_mem _ List.mem_cons_self), rfl⟩

/-- The snapshot of a content gives it back over any other. -/
theorem snapshot_restores {content : Bytes} (haction : c.action = .snapshot)
    (hcontent : c.content = content) (hplain : readEnvelope content = none) :
    ∃ blob, Stores rt (backUp rt cfg c disk).2 c.target c.now blob ∧
      ∀ live, applyReverseDiff rt blob live = .ok content := by
  have hkind : c.kind rt cfg disk = .gzipFull (rt.gzip content) false := by
    unfold ManagedCall.kind
    rw [haction, hcontent]
  exact ⟨rt.gzip content, stores_gzipFull hkind, applyReverseDiff_whole hplain⟩

/-- The content of a text write is unlike any whose version is in the store. -/
structure Unseen (rt : Runtime) (disk : Disk) (content : Bytes) : Prop where
  text : isTextContent content = true
  new : ∀ entry ∈ buildExistingHashMap disk, entry.1 ≠ contentHash rt content

/-- The kinds of a text write whose content is not in the store yet. -/
theorem selectBackupKind_text (rt : Runtime) {cfg : BackupConfig} {disk : Disk}
    {target : BackupTarget} {content prev : Bytes} (hnew : Unseen rt disk content) :
    selectBackupKind rt (policyInput rt cfg disk target content (some prev)) = .metadataOnly ∨
      selectBackupKind rt (policyInput rt cfg disk target content (some prev)) =
        diffAgainst rt content prev (driftedSinceLastWrite (some (contentHash rt prev))
          (latestBaseHash rt disk target)) := by
  have hlookup : KeyedList.lookup Prod.fst (contentHash rt content) (buildExistingHashMap disk) =
      none := by
    exact KeyedList.lookup_eq_none_iff.mpr hnew.new
  unfold selectBackupKind
  simp only [policyInput, hlookup, hnew.text]
  split
  · split
    · exact Or.inl rfl
    · exact Or.inr rfl
  · exact Or.inr rfl

/-- What a delta, a line at a time, and a whole copy both give back. -/
structure PlainText (content : Bytes) : Prop where
  utf8 : Utf8.encode (Utf8.decode content) = content
  plain : readEnvelope content = none

theorem joinLines_lines (s : Str) : joinLines (lines s) = s :=
  List.intercalate_splitOn newline

/-- A text write, over text, for which content was stored: its version gives back the old
text over the new one. -/
theorem write_restores (hsha : Digest.CollisionFree rt.sha256) (cfg : BackupConfig) {prev : Bytes}
    (haction : c.action = .write (some prev)) (hnew : Unseen rt disk c.content)
    (hprev : PlainText prev) (hrevertible : (backUp rt cfg c disk).1.revertible = true) :
    (backUp rt cfg c disk).1.backupPath = some ⟨fileKey rt.sha256 c.target, stamp c.now, .gz⟩ ∧
      ∃ blob, Stores rt (backUp rt cfg c disk).2 c.target c.now blob ∧
        applyReverseDiff rt blob (some c.content) = .ok prev := by
  have hkind : c.kind rt cfg disk = selectBackupKind rt
      (policyInput rt cfg disk c.target c.content (some prev)) := by
    unfold ManagedCall.kind
    rw [haction]
  have hpath {blob : Bytes} (hblob : (∃ reanchored, c.kind rt cfg disk = .gzipFull blob reanchored) ∨
      ∃ base, c.kind rt cfg disk = .gzipDiff blob base) :
      (backUp rt cfg c disk).1.backupPath =
        some ⟨fileKey rt.sha256 c.target, stamp c.now, .gz⟩ := by
    unfold backUp
    rcases hblob with ⟨_, hblob⟩ | ⟨_, hblob⟩ <;> rw [hblob] <;> rfl
  have hwhole : applyReverseDiff rt (rt.gzip prev) (some c.content) = .ok prev :=
    applyReverseDiff_whole hprev.plain _
  have hcases := @selectBackupKind_text rt cfg disk c.target c.content prev hnew
  rw [← hkind] at hcases
  rcases hcases with hbare | hdiff
  · -- a version without content is not revertible
    rw [backUp, hbare] at hrevertible
    cases hrevertible
  · rcases diffAgainst_cases rt c.content prev (driftedSinceLastWrite (some (contentHash rt prev))
      (latestBaseHash rt disk c.target)) with ⟨-, hcase⟩ | ⟨-, hcase⟩
    · rw [hcase] at hdiff
      exact ⟨hpath (Or.inl ⟨_, hdiff⟩), _, stores_gzipFull hdiff, hwhole⟩
    · rw [hcase] at hdiff
      refine ⟨hpath (Or.inr ⟨_, hdiff⟩), _, stores_gzipDiff hdiff, ?_⟩
      rcases computeReverseDiff_cases rt c.content prev with hsame | ⟨hblob, -⟩
      · rw [hsame]
        exact hwhole
      · rw [hblob]
        rcases applyReverseDiff_delta hsha c.content prev (some c.content) with
          ⟨-, hdelta⟩ | ⟨hother, -⟩
        · rw [hdelta, joinLines_lines, hprev.utf8]
        · exact absurd rfl hother

end

end HomelabMcp.Backup
