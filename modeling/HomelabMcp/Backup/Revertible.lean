import HomelabMcp.Backup.Managed
import HomelabMcp.Backup.ReverseDiff

/-!
# The revertibility verdict and what restoring does

`classifyRevertibility` reads the sidecar of a version, `restore` looks at the
blob itself. They agree as long as no content that is stored whole looks like
an envelope, and no sidecar without content is written beside a blob.

- `run_verdictAgrees`: every version of every store that managed calls reach.
-/

namespace HomelabMcp.Backup

open SlashPath Text Integrity

/-! ## Restoring -/

section

variable {rt : Runtime}

theorem contentHash_injective (hsha : Digest.CollisionFree rt.sha256) :
    Function.Injective (contentHash rt) := fun _ _ h =>
  hsha.injective (hashHex_injective h)

theorem gzip_injective : Function.Injective rt.gzip := by
  intro a b h
  have ha := rt.gunzip_gzip a
  rw [h, rt.gunzip_gzip b] at ha
  injection ha with ha
  exact ha.symm

/-- A content that is not an envelope is given back as it is. -/
theorem applyReverseDiff_whole {b : Bytes} (h : readEnvelope b = none) (live : Option Bytes) :
    applyReverseDiff rt (rt.gzip b) live = .ok b := by
  simp only [applyReverseDiff, rt.gunzip_gzip, bind, Except.bind, h]

theorem get?_baseHash (baseHash : Str) (hunks : List DiffHunk) :
    (envelopeJson baseHash hunks).get? "baseHash".toList = some (.str baseHash) := rfl

theorem get?_hunks (baseHash : Str) (hunks : List DiffHunk) :
    (envelopeJson baseHash hunks).get? "hunks".toList =
      some (.arr (hunks.map DiffHunk.json)) := rfl

/-- The blob of a delta. -/
def deltaBlob (rt : Runtime) (newContent prevContent : Bytes) : Bytes :=
  rt.gzip (Utf8.encode (envelopeJson (contentHash rt newContent)
    (buildHunks (lines (Utf8.decode newContent)) (lines (Utf8.decode prevContent)))).stringify)

/-- A delta gives back the previous text on the content it was made for, and
nothing on any other. -/
theorem applyReverseDiff_delta (hsha : Digest.CollisionFree rt.sha256)
    (newContent prevContent : Bytes) (live : Option Bytes) :
    (live = some newContent ∧ applyReverseDiff rt (deltaBlob rt newContent prevContent) live =
      .ok (Utf8.encode (joinLines (lines (Utf8.decode prevContent))))) ∨
    (live ≠ some newContent ∧
      ∃ e, applyReverseDiff rt (deltaBlob rt newContent prevContent) live = .error e) := by
  have henvelope := readEnvelope_envelope (contentHash rt newContent)
    (buildHunks (lines (Utf8.decode newContent)) (lines (Utf8.decode prevContent)))
  simp only [applyReverseDiff, deltaBlob, rt.gunzip_gzip, bind, Except.bind, henvelope,
    get?_baseHash, get?_hunks, Option.bind_some, readHunks_json]
  cases live with
  | none => exact Or.inr ⟨nofun, _, rfl⟩
  | some current =>
    by_cases hcur : current = newContent
    · subst hcur
      dsimp only
      rw [if_neg (fun h => h rfl), applyHunks_buildHunks]
      exact Or.inl ⟨rfl, rfl⟩
    · have hhash : contentHash rt current ≠ contentHash rt newContent := fun h =>
        hcur (contentHash_injective hsha h)
      dsimp only
      rw [if_pos hhash]
      exact Or.inr ⟨fun h => hcur (Option.some.inj h), _, rfl⟩

variable (rt) in
/-- The two results of `computeReverseDiff`. -/
theorem computeReverseDiff_cases (newContent prevContent : Bytes) :
    computeReverseDiff rt newContent prevContent = (prevContent, none) ∨
      (rt.gzip (computeReverseDiff rt newContent prevContent).1 =
          deltaBlob rt newContent prevContent ∧
        (computeReverseDiff rt newContent prevContent).2 = some (contentHash rt newContent)) := by
  unfold computeReverseDiff
  by_cases h : (lines (Utf8.decode newContent)).length > MAX_DIFF_LINES ∨
      (lines (Utf8.decode prevContent)).length > MAX_DIFF_LINES
  · exact Or.inl (if_pos h)
  · right
    simp only [if_neg h]
    exact ⟨rfl, trivial⟩

/-! ## Blobs and their sidecars -/

/-- A blob and the sidecar that describes it. -/
inductive Describes (rt : Runtime) : Bytes → Meta → Prop
  | whole {b : Bytes} {m : Meta} (hkind : m.kind ≠ .metadataOnly)
      (hrequires : m.requiresBaseHash = some none) (hplain : readEnvelope b = none) :
      Describes rt (rt.gzip b) m
  | delta {newContent prevContent : Bytes} {m : Meta} (hkind : m.kind = .gzipDiff)
      (hrequires : m.requiresBaseHash = some (some (contentHash rt newContent))) :
      Describes rt (deltaBlob rt newContent prevContent) m

/-- Each blob of the store is described by its sidecar, where it has one. -/
def Described (rt : Runtime) (disk : Disk) : Prop :=
  ∀ key stamp b m, read disk ⟨key, stamp, .gz⟩ = some (.blob b) →
    readMeta disk ⟨key, stamp, .sidecar⟩ = some m → Describes rt b m

/-- What a call stores whole is not an envelope, and a sidecar without content
is not put beside a blob. -/
structure StoresPlainly (rt : Runtime) (cfg : BackupConfig) (c : ManagedCall) (disk : Disk) :
    Prop where
  whole : ∀ b, (∃ reanchored, c.kind rt cfg disk = .gzipFull (rt.gzip b) reanchored) ∨
    c.kind rt cfg disk = .gzipDiff (rt.gzip b) none → readEnvelope b = none
  bare : c.kind rt cfg disk = .metadataOnly →
    read (runEviction cfg disk) ⟨fileKey rt.sha256 c.target, stamp c.now, .gz⟩ = none

/-- A call asks for a blob that holds some bytes whole, or for a delta. -/
theorem kind_cases (cfg : BackupConfig) (c : ManagedCall) (disk : Disk) :
    (∃ p, c.kind rt cfg disk = .dedup p) ∨ c.kind rt cfg disk = .metadataOnly ∨
      (∃ b reanchored, c.kind rt cfg disk = .gzipFull (rt.gzip b) reanchored) ∨
      (∃ b, c.kind rt cfg disk = .gzipDiff (rt.gzip b) none) ∨
      ∃ prev, c.kind rt cfg disk =
        .gzipDiff (deltaBlob rt c.content prev) (some (contentHash rt c.content)) := by
  unfold ManagedCall.kind
  cases c.action with
  | snapshot => exact Or.inr (Or.inr (Or.inl ⟨c.content, false, rfl⟩))
  | write prevContent =>
    dsimp only
    rcases selectBackupKind_cases rt (policyInput rt cfg disk c.target c.content prevContent) with
      ⟨p, -, hkind⟩ | ⟨-, hkind | hkind | ⟨prev, -, hkind⟩⟩
    · exact Or.inl ⟨p, hkind⟩
    · exact Or.inr (Or.inl hkind)
    · exact Or.inr (Or.inr (Or.inl ⟨_, _, hkind⟩))
    · rw [hkind]
      rcases diffAgainst_cases rt c.content prev (driftedSinceLastWrite
        (prevContent.map (contentHash rt)) (latestBaseHash rt disk c.target)) with
        ⟨-, hdiff⟩ | ⟨-, hdiff⟩
      · exact Or.inr (Or.inr (Or.inl ⟨prev, true, hdiff⟩))
      · rcases computeReverseDiff_cases rt c.content prev with hwhole | ⟨hblob, hbase⟩
        · rw [hwhole] at hdiff
          exact Or.inr (Or.inr (Or.inr (Or.inl ⟨prev, hdiff⟩)))
        · rw [hblob, hbase] at hdiff
          exact Or.inr (Or.inr (Or.inr (Or.inr ⟨prev, hdiff⟩)))

theorem read_of_runEviction {cfg : BackupConfig} {disk : Disk}
    (hd : (disk.map StoredFile.path).Nodup) {p : BackupPath} {content : Content}
    (h : read (runEviction cfg disk) p = some content) : read disk p = some content :=
  read_path_of_mem hd ((runEviction_sublist cfg disk).subset (mem_of_read h))

/-- Other names than the ones a call writes stay as eviction leaves them. -/
theorem read_storedFiles_other {target : BackupTarget} {kind : BackupKind} {newHash : Str}
    {now : Instant} {p : BackupPath}
    (h : ¬ (p.key = fileKey rt.sha256 target ∧ p.stamp = stamp now)) :
    read (storedFiles rt target kind newHash now) p = none := by
  cases hread : read (storedFiles rt target kind newHash now) p with
  | none => rfl
  | some content => exact absurd (storedFiles_path (mem_of_read hread)) h

/-- One managed call. -/
theorem Described.step {cfg : BackupConfig} {c : ManagedCall} {disk : Disk}
    (hd : (disk.map StoredFile.path).Nodup) (h : Described rt disk)
    (hc : StoresPlainly rt cfg c disk) : Described rt (backUp rt cfg c disk).2 := by
  intro key s b m hblob hmeta
  rw [readMeta_eq_some] at hmeta
  rw [backUp, read_storeBackup] at hblob hmeta
  -- a version that was there before
  have hold : read (storedFiles rt c.target (c.kind rt cfg disk) (contentHash rt c.content) c.now)
        ⟨key, s, .gz⟩ = none →
      read (storedFiles rt c.target (c.kind rt cfg disk) (contentHash rt c.content) c.now)
        ⟨key, s, .sidecar⟩ = none → Describes rt b m := by
    intro hgz hsidecar
    rw [hgz, Option.none_or] at hblob
    rw [hsidecar, Option.none_or] at hmeta
    exact h key s b m (read_of_runEviction hd hblob)
      (readMeta_eq_some.mpr (read_of_runEviction hd hmeta))
  by_cases hnow : key = fileKey rt.sha256 c.target ∧ s = stamp c.now
  · obtain ⟨rfl, rfl⟩ := hnow
    have hstored : ∀ f ∈ storedFiles rt c.target (c.kind rt cfg disk) (contentHash rt c.content)
        c.now, read (storedFiles rt c.target (c.kind rt cfg disk) (contentHash rt c.content) c.now)
          f.path = some f.content := fun f hf => read_path_of_mem (nodup_storedFiles _ _ _ _ _) hf
    rcases kind_cases cfg c disk with
      ⟨p, hkind⟩ | hkind | ⟨w, reanchored, hkind⟩ | ⟨w, hkind⟩ | ⟨prev, hkind⟩
    · rw [hkind] at hold
      exact hold rfl rfl
    · -- a sidecar alone, and no blob to put it beside
      have hgz : read (storedFiles rt c.target (c.kind rt cfg disk) (contentHash rt c.content)
          c.now) ⟨fileKey rt.sha256 c.target, stamp c.now, .gz⟩ = none := by
        rw [hkind, storedFiles, read, KeyedList.lookup_cons, if_neg (by simp)]
        rfl
      rw [hgz, Option.none_or, hc.bare hkind] at hblob
      cases hblob
    · rw [hkind] at hstored hblob hmeta
      have hgz := hstored _ List.mem_cons_self
      have hsidecar := hstored _ (List.mem_cons_of_mem _ List.mem_cons_self)
      rw [hgz] at hblob
      rw [hsidecar] at hmeta
      obtain rfl : rt.gzip w = b := by simpa using hblob
      obtain rfl : _ = m := by simpa using hmeta
      exact Describes.whole (by simp) rfl (hc.whole w (Or.inl ⟨reanchored, hkind⟩))
    · rw [hkind] at hstored hblob hmeta
      have hgz := hstored _ List.mem_cons_self
      have hsidecar := hstored _ (List.mem_cons_of_mem _ List.mem_cons_self)
      rw [hgz] at hblob
      rw [hsidecar] at hmeta
      obtain rfl : rt.gzip w = b := by simpa using hblob
      obtain rfl : _ = m := by simpa using hmeta
      exact Describes.whole (by simp) rfl (hc.whole w (Or.inr hkind))
    · rw [hkind] at hstored hblob hmeta
      have hgz := hstored _ List.mem_cons_self
      have hsidecar := hstored _ (List.mem_cons_of_mem _ List.mem_cons_self)
      rw [hgz] at hblob
      rw [hsidecar] at hmeta
      obtain rfl : deltaBlob rt c.content prev = b := by simpa using hblob
      obtain rfl : _ = m := by simpa using hmeta
      exact Describes.delta rfl rfl
  · exact hold (read_storedFiles_other hnow) (read_storedFiles_other hnow)

/-! ## Verdicts -/

/-- What `list_backups` hands to the classifier. -/
def BackupVersionInfo.view (v : BackupVersionInfo) : RevertibilityView :=
  ⟨v.kind, v.requiresBaseHash, v.hash⟩

/-- For each listed version with blob and sidecar, the verdict on a live content
says whether restoring gives bytes back, and what is stored whole comes back as
it is. -/
def VerdictAgrees (rt : Runtime) (cfg : BackupConfig) (disk : Disk) : Prop :=
  ∀ target, ∀ v ∈ listBackupsForPath rt cfg disk target,
    (∃ b, read disk (v.backupPath.withExt .gz) = some (.blob b)) →
    (∃ m, readMeta disk (v.backupPath.withExt .sidecar) = some m) →
    ∀ live : Option Bytes,
      ((classifyRevertibility v.view (live.map (contentHash rt))).revertible = true ↔
        ∃ b, restore rt disk v.backupPath live = .ok (some b)) ∧
      ∀ b, v.requiresBaseHash = some none → read disk v.backupPath = some (.blob (rt.gzip b)) →
        restore rt disk v.backupPath live = .ok (some b)

/-- The verdict on a version and the result of restoring it. -/
theorem Describes.agrees (hsha : Digest.CollisionFree rt.sha256) {b : Bytes} {m : Meta}
    (h : Describes rt b m) (live : Option Bytes) :
    ((classifyRevertibility ⟨m.kind, m.requiresBaseHash, some m.hash⟩
        (live.map (contentHash rt))).revertible = true ↔
      ∃ restored, applyReverseDiff rt b live = .ok restored) ∧
    ∀ w, m.requiresBaseHash = some none → b = rt.gzip w → applyReverseDiff rt b live = .ok w := by
  cases h with
  | @whole w _ hkind hrequires hplain =>
    have hrestore : applyReverseDiff rt (rt.gzip w) live = .ok w := applyReverseDiff_whole hplain live
    refine ⟨iff_of_true ?_ ⟨w, hrestore⟩, fun v _ hv => ?_⟩
    · simp [classifyRevertibility, hkind, hrequires]
    · rw [hrestore, gzip_injective hv]
  | @delta newContent prevContent _ hkind hrequires =>
    constructor
    · have hbare : m.kind ≠ .metadataOnly := by
        rw [hkind]
        nofun
      rcases applyReverseDiff_delta hsha newContent prevContent live with
        ⟨rfl, hrestore⟩ | ⟨hlive, e, hrestore⟩
      · refine iff_of_true ?_ ⟨_, hrestore⟩
        simp [classifyRevertibility, hkind, hrequires]
      · refine iff_of_false ?_ ?_
        · cases live with
          | none => simp [classifyRevertibility, hkind, hrequires]
          | some current =>
            have hhash : contentHash rt current ≠ contentHash rt newContent := fun heq =>
              hlive (congrArg some (contentHash_injective hsha heq))
            simp [classifyRevertibility, hkind, hrequires, hhash]
        · rintro ⟨restored, hok⟩
          rw [hrestore] at hok
          cases hok
    · intro w hnone
      rw [hrequires] at hnone
      cases hnone

/-- How a version with blob and sidecar is listed. -/
theorem versionAt_of_pair {cfg : BackupConfig} {disk : Disk} {target : BackupTarget} {ts : Str}
    {v : BackupVersionInfo} (hv : versionAt rt cfg disk target ts = some v) {b : Bytes} {m : Meta}
    (hb : read disk (v.backupPath.withExt .gz) = some (.blob b))
    (hm : readMeta disk (v.backupPath.withExt .sidecar) = some m) :
    v.backupPath = ⟨fileKey rt.sha256 target, ts, .gz⟩ ∧ v.kind = m.kind ∧
      v.hash = some m.hash ∧ v.requiresBaseHash = m.requiresBaseHash := by
  rw [readMeta_eq_some] at hm
  unfold versionAt at hv
  dsimp only at hv
  cases hgz : read disk ⟨fileKey rt.sha256 target, ts, .gz⟩ with
  | some content =>
    cases hsidecar : read disk ⟨fileKey rt.sha256 target, ts, .sidecar⟩ with
    | some sidecar =>
      simp only [hgz, BackupPath.withExt, hsidecar] at hv
      cases sidecar with
      | sidecar n =>
        obtain rfl := Option.some.inj hv
        rw [BackupPath.withExt, hsidecar] at hm
        obtain rfl : n = m := by simpa using hm
        exact ⟨rfl, rfl, rfl, rfl⟩
      | blob c =>
        obtain rfl := Option.some.inj hv
        rw [BackupPath.withExt, hsidecar] at hm
        cases hm
    | none =>
      simp only [hgz, BackupPath.withExt, hsidecar] at hv
      obtain rfl := Option.some.inj hv
      rw [BackupPath.withExt, hsidecar] at hm
      cases hm
  | none =>
    cases hsidecar : read disk ⟨fileKey rt.sha256 target, ts, .sidecar⟩ with
    | some sidecar =>
      simp only [hgz, BackupPath.withExt, hsidecar] at hv
      obtain rfl := Option.some.inj hv
      rw [BackupPath.withExt, hgz] at hb
      cases hb
    | none =>
      simp only [hgz, BackupPath.withExt, hsidecar] at hv
      cases hv

/-- In a store whose sidecars describe their blobs, verdicts and results agree. -/
theorem verdictAgrees_of_described (hsha : Digest.CollisionFree rt.sha256) {cfg : BackupConfig}
    {disk : Disk} (h : Described rt disk) : VerdictAgrees rt cfg disk := by
  intro target v hv hblob hmeta live
  obtain ⟨b, hb⟩ := hblob
  obtain ⟨m, hm⟩ := hmeta
  obtain ⟨ts, -, hts⟩ := List.mem_filterMap.mp hv
  obtain ⟨hpath, hkind, hhash, hrequires⟩ := versionAt_of_pair hts hb hm
  rw [hpath] at hb hm
  have hagrees := (h _ _ b m hb hm).agrees hsha live
  have hrestore : restore rt disk v.backupPath live = (applyReverseDiff rt b live).map some := by
    have hread : read disk ⟨fileKey rt.sha256 target, ts, .gz⟩ = some (.blob b) := hb
    simp only [restore, hpath, hread]
  have hview : v.view = ⟨m.kind, m.requiresBaseHash, some m.hash⟩ := by
    rw [BackupVersionInfo.view, hkind, hhash, hrequires]
  rw [hrestore, hview, hagrees.1]
  constructor
  · constructor
    · rintro ⟨restored, hok⟩
      exact ⟨restored, by rw [hok]; rfl⟩
    · rintro ⟨restored, hok⟩
      cases happly : applyReverseDiff rt b live with
      | ok w => exact ⟨w, rfl⟩
      | error e =>
        rw [happly] at hok
        cases hok
  · intro w hnone hw
    rw [hpath] at hw
    have hbw : b = rt.gzip w := by
      have hread : read disk ⟨fileKey rt.sha256 target, ts, .gz⟩ = some (.blob b) := hb
      rw [hread] at hw
      simpa using hw
    rw [hagrees.2 w (hrequires ▸ hnone) hbw]
    rfl

end

/-- Each call of a run stores plainly. -/
def AlwaysPlainly (rt : Runtime) (cfg : BackupConfig) (calls : List ManagedCall) : Prop :=
  ∀ past c, past ++ [c] <+: calls → StoresPlainly rt cfg c (managedStore rt cfg past)

theorem described_managedStore {rt : Runtime} {cfg : BackupConfig} {calls : List ManagedCall}
    (h : AlwaysPlainly rt cfg calls) : Described rt (managedStore rt cfg calls) := by
  induction calls using List.reverseRecOn with
  | nil =>
    intro key s b m hb
    cases hb
  | append_singleton past c ih =>
    have hpast : Described rt (managedStore rt cfg past) :=
      ih fun p d hp => h p d (hp.trans (List.prefix_append past [c]))
    rw [managedStore_append]
    exact hpast.step (nodup_managedStore rt cfg past) (h past c (List.prefix_refl (past ++ [c])))

/-- In every store that managed calls reach, when none of them stores an envelope
whole or puts a sidecar without content beside a blob, verdicts and results
agree. -/
theorem run_verdictAgrees (rt : Runtime) (hsha : Digest.CollisionFree rt.sha256)
    (cfg : BackupConfig) (calls : List ManagedCall) (h : AlwaysPlainly rt cfg calls) :
    VerdictAgrees rt cfg (managedStore rt cfg calls) :=
  verdictAgrees_of_described hsha (described_managedStore h)

/-- A write and a revert. -/
def writeAndRevert : List ManagedCall :=
  [writeMotd [104] none (atSecond 1), ⟨motd, [105], .snapshot, atSecond 2⟩]

theorem run_verdictAgrees_motd :
    VerdictAgrees plainRuntime (withCaps 10 1000)
      (managedStore plainRuntime (withCaps 10 1000) writeAndRevert) := by
  refine run_verdictAgrees plainRuntime Digest.lengthPrefixed_collisionFree _ _ ?_
  have hwhole : ∀ {disk : Disk} {c : ManagedCall} {w : Bytes},
      c.kind plainRuntime (withCaps 10 1000) disk = .gzipFull (plainRuntime.gzip w) false →
        readEnvelope w = none → StoresPlainly plainRuntime (withCaps 10 1000) c disk := by
    intro disk c w hkind hplain
    constructor
    · rintro b (⟨reanchored, hb⟩ | hb)
      · rw [hkind] at hb
        injection hb with hb _
        exact gzip_injective hb ▸ hplain
      · rw [hkind] at hb
        cases hb
    · intro hbare
      rw [hkind] at hbare
      cases hbare
  intro past c hpast
  match past, hpast with
  | [], hpast =>
    obtain ⟨rfl, -⟩ := List.cons_prefix_cons.mp hpast
    exact hwhole (w := [104]) (by decide +kernel) (by decide +kernel)
  | [_], hpast =>
    obtain ⟨rfl, hrest⟩ := List.cons_prefix_cons.mp hpast
    obtain ⟨rfl, -⟩ := List.cons_prefix_cons.mp hrest
    exact hwhole (w := [105]) rfl (by decide +kernel)
  | _ :: _ :: past, hpast =>
    have hlen := hpast.length_le
    simp [writeAndRevert] at hlen

/-- A file whose content is an envelope without hunks. -/
def envelopeBytes : Bytes :=
  Utf8.encode (envelopeJson [] []).stringify

/-- The backup of such a file is listed as revertible, and restoring it without
the live file throws. -/
theorem not_run_verdictAgrees : ¬ ∀ (rt : Runtime), Digest.CollisionFree rt.sha256 →
    ∀ (cfg : BackupConfig) (calls : List ManagedCall),
      VerdictAgrees rt cfg (managedStore rt cfg calls) := by
  intro hall
  have h := hall plainRuntime Digest.lengthPrefixed_collisionFree (withCaps 10 1000)
    [writeMotd envelopeBytes none (atSecond 1)] motd
    ⟨⟨fileKey plainRuntime.sha256 motd, stamp (atSecond 1), .gz⟩, stamp (atSecond 1), .gzipFull,
      2 + envelopeBytes.length, true, some (contentHash plainRuntime envelopeBytes), some none,
      some false⟩ (by decide +kernel) ⟨plainRuntime.gzip envelopeBytes, by decide +kernel⟩
    ⟨⟨motd, some ⟨fileKey plainRuntime.sha256 motd, stamp (atSecond 1), .gz⟩,
      contentHash plainRuntime envelopeBytes, .gzipFull, some none, some false, none⟩,
      by decide +kernel⟩ none
  obtain ⟨b, hb⟩ := h.1.mp rfl
  have hthrows : (restore plainRuntime (managedStore plainRuntime (withCaps 10 1000)
      [writeMotd envelopeBytes none (atSecond 1)])
        ⟨fileKey plainRuntime.sha256 motd, stamp (atSecond 1), .gz⟩ none).toBool = false := by
    decide +kernel
  rw [hb] at hthrows
  cases hthrows

end HomelabMcp.Backup
