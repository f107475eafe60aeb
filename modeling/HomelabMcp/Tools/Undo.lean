import HomelabMcp.Tools.FileRuns

/-!
# A revert takes a write back

- `write_undone`: a revert to the backup that a text write reported puts the old text back,
  after whatever other calls, while the file holds what was written and the backup has not
  been evicted.
- `revert_undone`: a revert can be taken back in turn, whatever the file holds by then.
-/

namespace HomelabMcp.Tools

open SlashPath Text Backup Integrity Audit Guardrails Program Iso

/-! ## A revert in which nothing fails -/

section
variable {rt : Runtime} {cfg : BackupConfig} {verdict : BreakerVerdict} {now : Instant}
  {w w' : World} {target : BackupTarget} {backupPath : Str} {content : Bytes}

theorem play_revertOp {c : RevertCall} {a : RevertResult c}
    (h : revertAnswer rt cfg now w c = (.ok a, w')) :
    play (answerRevert rt cfg (.calm verdict) now) w (revertOp c) = (.returned a, w') := by
  have hanswer : answerRevert rt cfg (.calm verdict) now w (.op c) = (.ok a, w') := h
  unfold revertOp perform
  rw [play_ask_bind, hanswer]
  rfl

variable (rt cfg verdict now w) in
/-- The target is found, with what it holds. -/
theorem play_readTarget (hplace : Place target) (hcontainer : target.container ≠ some []) :
    ∃ located, located.site target.remotePath = target ∧
      play (answerRevert rt cfg (.calm verdict) now) w (readTarget target) =
        (.returned (located, w.files target), w) := by
  cases hplace with
  | host path =>
    refine ⟨.host, rfl, ?_⟩
    have hanswer : answerRevert rt cfg (.calm verdict) now w (.op (.readFile path)) =
        ((w.files (.onHost path)).elim (.error failure) .ok, w) := rfl
    unfold readTarget
    dsimp only [BackupTarget.onHost]
    rw [play_ask_bind, hanswer]
    show _ = (Outcome.returned (Located.host, w.files (.onHost path)), w)
    cases w.files (.onHost path) <;> rfl
  | pct vmid path => exact ⟨.pct vmid, rfl, rfl⟩
  | qm vmid path => exact ⟨.qm vmid "pve".toList, rfl, rfl⟩
  | docker vmid container path =>
    cases container with
    | nil => exact absurd rfl hcontainer
    | cons c cs => exact ⟨.docker vmid (c :: cs) ⟨c :: cs, []⟩, rfl, rfl⟩

/-- The world once what is replaced has been stored. -/
def World.snapshot (rt : Runtime) (cfg : BackupConfig) (target : BackupTarget) (now : Instant)
    (w : World) : Option Bytes → World
  | none => w
  | some old => { w with disk := (backUp rt cfg (snapshotCall target now old) w.disk).2 }

theorem play_restoredContent {current : Option Bytes}
    (hrestore : restoreFrom rt cfg w.disk backupPath current = .ok (some content)) :
    play (answerRevert rt cfg (.calm verdict) now) w (restoredContent backupPath target current) =
      (.returned content, w.snapshot rt cfg target now current) := by
  have hop : revertAnswer rt cfg now w (.restore backupPath current) = (.ok (some content), w) := by
    show (restoreFrom rt cfg w.disk backupPath current, w) = _
    rw [hrestore]
  unfold restoredContent
  rw [play_bind_returned (play_revertOp hop)]
  cases current <;> rfl

theorem play_writeTarget {revert : RevertConfig} {located : Located}
    (hlocated : located.site target.remotePath = target) :
    play (answerRevert rt cfg (.calm verdict) now) w
      (writeTarget revert target.remotePath content located) =
        (.returned (), w.hold target content) := by
  rw [← hlocated]
  cases located with
  | host => rfl
  | pct vmid => rfl
  | qm vmid node => rfl
  | docker vmid container inspect =>
    unfold writeTarget
    dsimp only
    split <;> rfl

/-- The world once the content is restored. -/
def World.reverted (rt : Runtime) (cfg : BackupConfig) (target : BackupTarget) (now : Instant)
    (w : World) (content : Bytes) : World :=
  (w.snapshot rt cfg target now (w.files target)).hold target content

theorem play_revertTarget (revert : RevertConfig) (hasHistory : Bool) (hplace : Place target)
    (hcontainer : target.container ≠ some [])
    (hrestore : restoreFrom rt cfg w.disk backupPath (w.files target) = .ok (some content)) :
    ∃ located committed, play (answerRevert rt cfg (.calm verdict) now) w
      (revertTarget revert hasHistory backupPath target) =
        (.returned (located, w.files target, content, committed),
          w.reverted rt cfg target now content) := by
  obtain ⟨located, hlocated, hread⟩ := play_readTarget rt cfg verdict now w hplace hcontainer
  unfold revertTarget
  rw [play_bind_returned hread]
  dsimp only
  rw [play_bind_returned (play_restoredContent hrestore),
    play_bind_returned (play_writeTarget hlocated)]
  cases hasHistory with
  | false => exact ⟨located, none, rfl⟩
  | true => exact ⟨located, some true, rfl⟩

/-- The backup is found, with the target that its sidecar names. -/
theorem play_resolveBackup_of_path {input : RevertFileInput} {p : BackupPath}
    (hbackup : input.backupPath = some backupPath)
    (hpath : ∀ path, input.path = some path → path = target.remotePath)
    (hlocate : locate cfg w.disk backupPath = some p)
    (htarget : readBackupTarget w.disk p = some target) :
    play (answerRevert rt cfg (.calm verdict) now) w (resolveBackup input) =
      (.returned (backupPath, target), w) := by
  have hanswer : answerRevert rt cfg (.calm verdict) now w (.op (.readBackupTarget backupPath)) =
      (.ok target, w) := by
    show (((locate cfg w.disk backupPath).bind (readBackupTarget w.disk)).elim
      (Except.error failure) Except.ok, w) = _
    rw [hlocate, Option.bind_some, htarget]
    rfl
  have htargetOf : play (answerRevert rt cfg (.calm verdict) now) w
      (targetOfBackup backupPath input.path) = (.returned target, w) := by
    unfold targetOfBackup
    rw [play_ask_bind, hanswer]
    cases hp : input.path with
    | none => rfl
    | some path =>
      obtain rfl := hpath path hp
      show play _ w (if target.remotePath ≠ target.remotePath then _ else _) = _
      rw [if_neg fun h => h rfl]
      rfl
  unfold resolveBackup
  rw [hbackup]
  exact play_bind_returned htargetOf

/-- The breaker does not stand in the way of a revert. -/
def LetsThrough (hasBreaker : Bool) (input : RevertFileInput) (verdict : BreakerVerdict) : Prop :=
  hasBreaker = true → input.overrideCircuitBreaker = false → verdict.tripped = false

theorem play_breakerGate {hasBreaker : Bool} {input : RevertFileInput}
    (hthrough : LetsThrough hasBreaker input verdict) (key : Str) (base : AuditFields) :
    play (answerRevert rt cfg (.calm verdict) now) w
      (breakerGate (hasBreaker && !input.overrideCircuitBreaker) key base) = (.returned (), w) := by
  unfold breakerGate
  split
  · next hused =>
    obtain ⟨hbreaker, hoverride⟩ := Bool.and_eq_true _ _ ▸ hused
    have huntripped := hthrough hbreaker (Bool.not_eq_true' _ ▸ hoverride)
    have hanswer : answerRevert rt cfg (.calm verdict) now w (.check key) = (verdict, w) := rfl
    unfold check refuseTripped
    rw [play_ask_bind, hanswer]
    dsimp only
    rw [huntripped]
    rfl
  · rfl

/-- A revert to a backup that can be restored goes through, where nothing fails. -/
theorem play_revert (now : Instant) {revert : RevertConfig} (hasHistory hasBreaker : Bool)
    {input : RevertFileInput} {p : BackupPath} (hthrough : LetsThrough hasBreaker input verdict)
    (hplace : Place target) (hcontainer : target.container ≠ some []) (hbackup : input.backupPath = some backupPath)
    (hpath : ∀ path, input.path = some path → path = target.remotePath)
    (hvalid : validatePath target.remotePath revert.pathAllowlist (some revert.pathDenylist) = none)
    (hlocate : locate cfg w.disk backupPath = some p)
    (htarget : readBackupTarget w.disk p = some target)
    (hrestore : restoreFrom rt cfg w.disk backupPath (w.files target) = .ok (some content)) :
    ∃ result record, play (answerRevert rt cfg (.calm verdict) now) w
      (revertFileHandler rt.sha256 revert hasHistory hasBreaker input) =
        (.returned result, { w.reverted rt cfg target now content with
          log := (w.reverted rt cfg target now content).log ++ [record] }) := by
  obtain ⟨located, committed, hrevert⟩ := @play_revertTarget rt cfg verdict now w target
    backupPath content revert hasHistory hplace hcontainer hrestore
  unfold revertFileHandler
  rw [play_bind_returned (play_resolveBackup_of_path hbackup hpath hlocate htarget)]
  dsimp only
  rw [hvalid]
  dsimp only
  rw [play_bind_returned (play_breakerGate hthrough _ _)]
  refine ⟨⟨backupPath, content.length, recordedVmid target⟩,
    revertRecord rt.sha256 revert input backupPath target located (w.files target) content committed,
    play_tryCatch_returned ?_⟩
  rw [play_bind_returned hrevert]
  rfl

end

/-! ## Back to the old text -/

/-- A version of the store is found by the text of its name. -/
theorem locate_text (cfg : BackupConfig) {disk : Disk} (h : Tidy disk) {p : BackupPath}
    (hp : (read disk p).isSome) : locate cfg disk (p.text cfg.baseDir) = some p := by
  obtain ⟨f, hf, rfl⟩ := isSome_read.mp hp
  unfold locate
  cases hfind : disk.find? fun g => decide (g.path.text cfg.baseDir = f.path.text cfg.baseDir) with
  | none =>
    have hnone := List.find?_eq_none.mp hfind f hf
    exact absurd (decide_eq_true rfl) hnone
  | some g =>
    have htext : g.path.text cfg.baseDir = f.path.text cfg.baseDir := by
      simpa using List.find?_some hfind
    have hg := List.mem_of_find?_eq_some hfind
    exact congrArg some (BackupPath.eq_of_text (h.keys g hg) (h.keys f hf) htext)

/-- A write of text over text, of a content of which there is no version yet. -/
structure Undoable (e : Setup) (w : World) (r : WriteRequest) (prev content : Bytes) : Prop where
  before : w.files r.target = some prev
  asked : r.content (some prev) = .ok content
  unseen : Unseen e.rt w.disk content
  plain : PlainText prev

/-- A version that was stored, and is still there after other turns. -/
theorem stores_later {e : Setup} {w : World} {target : BackupTarget} {now : Instant} {blob : Bytes}
    (h : Stores e.rt w.disk target now blob) (htidy : Tidy w.disk) {later : List Turn}
    (hlater : ∀ turn ∈ later, turn.now ≠ now)
    (hkept : ∀ ext, (read (w.after e later).disk
      ⟨fileKey e.rt.sha256 target, stamp now, ext⟩).isSome) :
    Stores e.rt (w.after e later).disk target now blob := by
  obtain ⟨calls, htimes, hdisk⟩ := w.after_backups e later
  have hsame (ext : Ext) : read (w.after e later).disk ⟨fileKey e.rt.sha256 target, stamp now, ext⟩ =
      read w.disk ⟨fileKey e.rt.sha256 target, stamp now, ext⟩ := by
    obtain ⟨content, hcontent⟩ := Option.isSome_iff_exists.mp (hkept ext)
    rw [hcontent]
    rw [hdisk] at hcontent
    refine (read_kept htidy (fun c hc => ?_) hcontent).symm
    obtain ⟨turn, hturn, hnow⟩ := htimes c hc
    exact hnow ▸ hlater turn hturn
  obtain ⟨m, hm, htarget⟩ := h.sidecar
  exact ⟨(hsame .gz).trans h.blob, m, (hsame .sidecar).trans hm, htarget⟩

/-- What a revertible write leaves: a version that gives the old text back. -/
theorem Undoable.stores {e : Setup} (hsha : Digest.CollisionFree e.rt.sha256) {w : World}
    {r : WriteRequest} {prev content : Bytes} (h : Undoable e w r prev content)
    {trouble : Trouble WriteCall}
    (hreadable : ∀ path, r.target = .onHost path → trouble.fails (.readFile path) = false)
    {now : Instant} {result : WriteFileResult}
    (hwrite : (Program.play (answerWrite e.rt e.write.backup trouble now) w
      (r.handler e.rt e.write e.hasHistory)).1 = .returned (.written result))
    (hrevertible : result.revertible = true) :
    result.backupPath = some ⟨fileKey e.rt.sha256 r.target, stamp now, .gz⟩ ∧
      ∃ blob, Stores e.rt ((Turn.write r trouble now).play e w).disk r.target now blob ∧
        applyReverseDiff e.rt blob (some content) = .ok prev := by
  have hstep := write_refines e.rt e.write e.hasHistory trouble now r w
  rw [hwrite] at hstep
  obtain ⟨prev', content', backup, record, hseen, hcontent, hdisk, -, -, -, hpath, hrevert, -⟩ := hstep
  obtain rfl : prev' = some prev := (hseen.eq hreadable).trans h.before
  obtain rfl := Except.ok.inj (hcontent.symm.trans h.asked)
  have hbackup : backup = (backUp e.rt e.write.backup (r.call now (some prev) content') w.disk).1 :=
    congrArg Prod.fst hdisk
  have hstore : ((Turn.write r trouble now).play e w).disk =
      (backUp e.rt e.write.backup (r.call now (some prev) content') w.disk).2 :=
    congrArg Prod.snd hdisk
  obtain ⟨hname, blob, hstores, hback⟩ := @write_restores e.rt w.disk
    (r.call now (some prev) content') hsha e.write.backup prev rfl h.unseen h.plain
    (hbackup ▸ hrevert ▸ hrevertible)
  rw [hpath, hstore, hbackup, hname]
  exact ⟨rfl, blob, hstores, hback⟩

/-- A revert to a version that gives a content back goes through, where nothing fails. -/
theorem revert_of_stores (e : Setup) {w : World} (htidy : Tidy w.disk) {target : BackupTarget}
    (hplace : Place target) (hcontainer : target.container ≠ some []) {now : Instant}
    {blob content : Bytes} (hstores : Stores e.rt w.disk target now blob)
    (hback : applyReverseDiff e.rt blob (w.files target) = .ok content) {input : RevertFileInput}
    (hinput : input.backupPath = some (BackupPath.text e.write.backup.baseDir
      ⟨fileKey e.rt.sha256 target, stamp now, .gz⟩))
    (hpath : ∀ path, input.path = some path → path = target.remotePath)
    (hvalid : validatePath target.remotePath e.revert.pathAllowlist
      (some e.revert.pathDenylist) = none) {verdict : BreakerVerdict}
    (hthrough : LetsThrough e.hasBreaker input verdict) (again : Instant) :
    (∃ done, (Program.play (answerRevert e.rt e.write.backup (.calm verdict) again) w
      (revertFileHandler e.rt.sha256 e.revert e.hasHistory e.hasBreaker input)).1 =
        .returned done) ∧
      (w.after e [.revert input (.calm verdict) again]).files =
        Function.update w.files target (some content) := by
  have hgz : (read w.disk ⟨fileKey e.rt.sha256 target, stamp now, .gz⟩).isSome := by
    rw [hstores.blob]
    rfl
  have hlocate := locate_text e.write.backup htidy hgz
  obtain ⟨m, hm, htarget⟩ := hstores.sidecar
  have hfound : readBackupTarget w.disk ⟨fileKey e.rt.sha256 target, stamp now, .gz⟩ =
      some target := by
    have hmeta : readMeta w.disk (BackupPath.withExt ⟨fileKey e.rt.sha256 target, stamp now, .gz⟩
        .sidecar) = some m := readMeta_eq_some.mpr hm
    rw [readBackupTarget, hmeta]
    exact congrArg some htarget
  -- the version is a reverse diff against what the file holds now
  have hrestore : restoreFrom e.rt e.write.backup w.disk (BackupPath.text e.write.backup.baseDir
      ⟨fileKey e.rt.sha256 target, stamp now, .gz⟩) (w.files target) = .ok (some content) := by
    unfold restoreFrom
    rw [hlocate]
    show restore e.rt w.disk _ _ = _
    rw [restore, hstores.blob]
    show (applyReverseDiff e.rt blob (w.files target)).map some = _
    rw [hback]
    rfl
  obtain ⟨done, record, hplay⟩ := play_revert again e.hasHistory e.hasBreaker hthrough hplace
    hcontainer hinput hpath hvalid hlocate hfound hrestore
  refine ⟨⟨done, by rw [hplay]⟩, ?_⟩
  show (Turn.play e w (.revert input (.calm verdict) again)).files = _
  unfold Turn.play
  dsimp only
  rw [hplay]
  show Function.update (w.snapshot e.rt e.write.backup target again (w.files target)).files
    target (some content) = _
  cases w.files target <;> rfl

/-- A revert to the backup that a write of text reported: while the file holds what was
written, both files of the backup are still there and the breaker lets the revert through,
the old text comes back, if nothing fails in the revert, and no other file changes. -/
theorem write_undone (e : Setup) (hsha : Digest.CollisionFree e.rt.sha256) {start : World}
    (hempty : start.disk = []) (past later : List Turn) {r : WriteRequest} {prev content : Bytes}
    (hundoable : Undoable e (start.after e past) r prev content) {trouble : Trouble WriteCall}
    (hreadable : ∀ path, r.target = .onHost path → trouble.fails (.readFile path) = false)
    {now : Instant} {result : WriteFileResult}
    (hwrite : (Program.play (answerWrite e.rt e.write.backup trouble now) (start.after e past)
      (r.handler e.rt e.write e.hasHistory)).1 = .returned (.written result))
    (hrevertible : result.revertible = true) (hlater : ∀ turn ∈ later, turn.now ≠ now) {w : World}
    (hw : w = start.after e (past ++ .write r trouble now :: later))
    (hfile : w.files r.target = some content)
    (hkept : ∀ p, result.backupPath = some p → ∀ ext, (read w.disk (p.withExt ext)).isSome)
    {input : RevertFileInput}
    (hinput : input.backupPath = result.backupPath.map (BackupPath.text e.write.backup.baseDir))
    (hpath : ∀ path, input.path = some path → path = r.target.remotePath)
    (hvalid : validatePath r.target.remotePath e.revert.pathAllowlist
      (some e.revert.pathDenylist) = none)
    (hcontainer : r.target.container ≠ some []) {verdict : BreakerVerdict}
    (hthrough : LetsThrough e.hasBreaker input verdict) (again : Instant) :
    (∃ done, (Program.play (answerRevert e.rt e.write.backup (.calm verdict) again) w
      (revertFileHandler e.rt.sha256 e.revert e.hasHistory e.hasBreaker input)).1 =
        .returned done) ∧
      (w.after e [.revert input (.calm verdict) again]).files =
        Function.update w.files r.target (some prev) := by
  obtain ⟨hname, blob, hstores, hback⟩ := hundoable.stores hsha hreadable hwrite hrevertible
  have htidy : Tidy start.disk := hempty ▸ tidy_nil
  have hsplit : w = ((start.after e past).after e [.write r trouble now]).after e later := by
    rw [hw, ← World.after_append, ← World.after_append]
    rfl
  -- the version as the revert finds it
  have hnow : Stores e.rt w.disk r.target now blob := by
    have hkept' := hkept _ hname
    rw [hsplit] at hkept' ⊢
    exact stores_later hstores
      (World.tidy_after e (start.tidy_after e htidy past) [.write r trouble now]) hlater hkept'
  have htidyNow : Tidy w.disk := hw ▸ start.tidy_after e htidy _
  rw [hname] at hinput
  exact revert_of_stores e htidyNow r.place hcontainer hnow (hfile ▸ hback) hinput hpath hvalid
    hthrough again

/-- The file is written, then another one. -/
def toMotd : WriteRequest := .writeFile false ⟨"/etc/motd".toList, [105], false⟩

def twoFiles : List Turn :=
  [.write toMotd (.calm untripped) (atSecond 1), overwrite "/etc/issue".toList [106] (atSecond 2)]

/-- A revert to the backup of the first write. -/
def toFirst : RevertFileInput where
  backupPath := some (BackupPath.text "/backups".toList
    ⟨fileKey plainRuntime.sha256 motd, stamp (atSecond 1), .gz⟩)
  path := none
  vmid := none
  container := none
  overrideCircuitBreaker := false

theorem write_undone_motd :
    (∃ done, (Program.play (answerRevert plainRuntime (withCaps 10 1000000) (.calm untripped)
      (atSecond 3))
      (motdWorld.after plainSetup twoFiles)
      (revertFileHandler plainRuntime.sha256 plainSetup.revert true true toFirst)).1 =
        .returned done) ∧
      ((motdWorld.after plainSetup twoFiles).after plainSetup
        [.revert toFirst (.calm untripped) (atSecond 3)]).files =
        Function.update (motdWorld.after plainSetup twoFiles).files motd (some [104]) := by
  have hundoable : Undoable plainSetup (motdWorld.after plainSetup []) toMotd [104] [105] :=
    ⟨rfl, rfl, ⟨rfl, fun _ h => absurd h List.not_mem_nil⟩, ⟨by decide, by decide⟩⟩
  have htwo : motdWorld.after plainSetup twoFiles = motdWorld.after plainSetup
      ([] ++ .write toMotd (.calm untripped) (atSecond 1) ::
        [overwrite "/etc/issue".toList [106] (atSecond 2)]) := rfl
  have hfile : (motdWorld.after plainSetup twoFiles).files toMotd.target = some [105] := by decide +kernel
  have hkept (ext : Ext) : (read (motdWorld.after plainSetup twoFiles).disk
      ⟨fileKey plainRuntime.sha256 motd, stamp (atSecond 1), ext⟩).isSome := by
    cases ext <;> decide +kernel
  refine write_undone plainSetup Digest.lengthPrefixed_collisionFree rfl []
    [overwrite "/etc/issue".toList [106] (atSecond 2)] hundoable (fun _ _ => rfl) rfl rfl
    (fun turn hturn => ?_) htwo hfile (fun p hp ext => ?_) rfl (fun path h => ?_) rfl (fun h => ?_)
    (fun _ _ => rfl) (atSecond 3)
  · obtain rfl := List.mem_singleton.mp hturn
    decide
  · obtain rfl := Option.some.inj hp
    exact hkept ext
  · cases h
  · cases h

theorem place_eq_site {target : BackupTarget} (h : Place target) : site target = target := by
  cases h <;> rfl

/-- A revert to the version that another revert stored of what it replaced: while both files
of that version are still there and the breaker lets the revert through, what was replaced
comes back, if nothing fails in the revert. -/
theorem revert_undone (e : Setup) {start : World} (hempty : start.disk = []) (past later : List Turn)
    {first : RevertFileInput} {trouble : Trouble RevertCall} {now : Instant} {backupPath : Str}
    {target : BackupTarget}
    (hreadable : ∀ path, target = .onHost path → trouble.fails (.readFile path) = false)
    {done : RevertFileResult}
    (hfound : (Program.play (answerRevert e.rt e.write.backup trouble now) (start.after e past)
      (resolveBackup first)).1 = .returned (backupPath, target))
    (hrevert : (Program.play (answerRevert e.rt e.write.backup trouble now) (start.after e past)
      (revertFileHandler e.rt.sha256 e.revert e.hasHistory e.hasBreaker first)).1 = .returned done)
    {old : Bytes} (hold : (start.after e past).files target = some old)
    (hplain : readEnvelope old = none) (hpast : ∀ turn ∈ past, turn.now ≠ now)
    (hlater : ∀ turn ∈ later, turn.now ≠ now) {w : World}
    (hw : w = start.after e (past ++ .revert first trouble now :: later))
    (hkept : ∀ ext, (read w.disk ⟨fileKey e.rt.sha256 target, stamp now, ext⟩).isSome)
    {input : RevertFileInput}
    (hinput : input.backupPath = some (BackupPath.text e.write.backup.baseDir
      ⟨fileKey e.rt.sha256 target, stamp now, .gz⟩))
    (hpath : ∀ path, input.path = some path → path = target.remotePath)
    (hcontainer : target.container ≠ some []) {verdict : BreakerVerdict}
    (hthrough : LetsThrough e.hasBreaker input verdict) (again : Instant) :
    (∃ done, (Program.play (answerRevert e.rt e.write.backup (.calm verdict) again) w
      (revertFileHandler e.rt.sha256 e.revert e.hasHistory e.hasBreaker input)).1 =
        .returned done) ∧
      (w.after e [.revert input (.calm verdict) again]).files =
        Function.update w.files target (some old) := by
  have htidy : Tidy start.disk := hempty ▸ tidy_nil
  have hplace : Place target :=
    place_of_found (start.placed_after e (hempty ▸ placed_nil) past) hfound
  have hsplit : w = ((start.after e past).after e [.revert first trouble now]).after e later := by
    rw [hw, ← World.after_append, ← World.after_append]
    rfl
  have htidyAfter : Tidy ((start.after e past).after e [.revert first trouble now]).disk :=
    World.tidy_after e (start.tidy_after e htidy past) _
  have hstep := revert_refines e.rt e.write.backup e.revert e.hasHistory e.hasBreaker trouble now
    first (start.after e past)
  rw [hrevert] at hstep
  obtain ⟨⟨_, hthrown⟩, -⟩ | ⟨backupPath', target', hfound', hvalid, hdone⟩ := hstep
  · cases hthrown
  · cases Outcome.returned.inj (hfound.symm.trans hfound')
    obtain ⟨-, -, current, restored, record, hseen, -, -, hsnapshot, -⟩ := hdone
    obtain ⟨blob, hstores, hback⟩ : ∃ blob,
        Stores e.rt ((start.after e past).after e [.revert first trouble now]).disk target now blob ∧
          ∀ live, applyReverseDiff e.rt blob live = .ok old := by
      obtain hsame | ⟨replaced, hreplaced, hdisk⟩ := hsnapshot
      · -- without the snapshot no file could bear this time
        have hgone := start.unstamped_after e hempty hpast (fileKey e.rt.sha256 target) .gz
        obtain ⟨content, hcontent⟩ := Option.isSome_iff_exists.mp (hkept .gz)
        obtain ⟨calls, htimes, hlast⟩ := World.after_backups e
          ((start.after e past).after e [.revert first trouble now]) later
        rw [hsplit, hlast] at hcontent
        have hthen := read_kept htidyAfter (fun c hc => by
          obtain ⟨turn, hturn, heq⟩ := htimes c hc
          exact heq ▸ hlater turn hturn) hcontent
        rw [show ((start.after e past).after e [.revert first trouble now]).disk =
          (start.after e past).disk from hsame, hgone] at hthen
        cases hthen
      · -- what the first revert replaced is the content that its snapshot keeps
        have hreadable' (path : Str) (hpath : site target = .onHost path) :
            trouble.fails (.readFile path) = false :=
          hreadable path ((place_eq_site hplace).symm.trans hpath)
        have hreplaced := hreplaced.eq hreadable'
        rw [place_eq_site hplace, hold] at hreplaced
        obtain rfl := Option.some.inj hreplaced
        rw [show ((start.after e past).after e [.revert first trouble now]).disk =
          (backUp e.rt e.write.backup (snapshotCall target now replaced)
            (start.after e past).disk).2 from hdisk]
        exact snapshot_restores rfl rfl hplain
    have hnow : Stores e.rt w.disk target now blob := by
      rw [hsplit] at hkept ⊢
      exact stores_later hstores htidyAfter hlater hkept
    have htidyNow : Tidy w.disk := hw ▸ start.tidy_after e htidy _
    exact revert_of_stores e htidyNow hplace hcontainer hnow (hback _) hinput hpath hvalid hthrough
      again

/-- The write, and the revert of it. -/
def thereAndBack : List Turn :=
  [.write toMotd (.calm untripped) (atSecond 1), .revert toFirst (.calm untripped) (atSecond 2)]

/-- A revert to what the first revert replaced. -/
def toSecond : RevertFileInput where
  backupPath := some (BackupPath.text "/backups".toList
    ⟨fileKey plainRuntime.sha256 motd, stamp (atSecond 2), .gz⟩)
  path := some "/etc/motd".toList
  vmid := none
  container := none
  overrideCircuitBreaker := false

deriving instance DecidableEq for RevertFileResult

theorem revert_undone_motd :
    (∃ done, (Program.play (answerRevert plainRuntime (withCaps 10 1000000) (.calm untripped)
      (atSecond 3))
      (motdWorld.after plainSetup thereAndBack)
      (revertFileHandler plainRuntime.sha256 plainSetup.revert true true toSecond)).1 =
        .returned done) ∧
      ((motdWorld.after plainSetup thereAndBack).after plainSetup
        [.revert toSecond (.calm untripped) (atSecond 3)]).files =
        Function.update (motdWorld.after plainSetup thereAndBack).files motd (some [105]) := by
  have hsplit : motdWorld.after plainSetup thereAndBack = motdWorld.after plainSetup
      ([.write toMotd (.calm untripped) (atSecond 1)] ++
        .revert toFirst (.calm untripped) (atSecond 2) :: []) :=
    rfl
  have hold : (motdWorld.after plainSetup [.write toMotd (.calm untripped) (atSecond 1)]).files motd =
      some [105] := by decide +kernel
  have hkept (ext : Ext) : (read (motdWorld.after plainSetup thereAndBack).disk
      ⟨fileKey plainRuntime.sha256 motd, stamp (atSecond 2), ext⟩).isSome := by
    cases ext <;> decide +kernel
  have hfound : (Program.play (answerRevert plainRuntime (withCaps 10 1000000) (.calm untripped)
      (atSecond 2))
      (motdWorld.after plainSetup [.write toMotd (.calm untripped) (atSecond 1)])
      (resolveBackup toFirst)).1 = .returned (BackupPath.text "/backups".toList
        ⟨fileKey plainRuntime.sha256 motd, stamp (atSecond 1), .gz⟩, motd) := by
    decide +kernel
  have hrevert : (Program.play (answerRevert plainRuntime (withCaps 10 1000000) (.calm untripped)
      (atSecond 2))
      (motdWorld.after plainSetup [.write toMotd (.calm untripped) (atSecond 1)])
      (revertFileHandler plainRuntime.sha256 plainSetup.revert true true toFirst)).1 =
        .returned ⟨BackupPath.text "/backups".toList
          ⟨fileKey plainRuntime.sha256 motd, stamp (atSecond 1), .gz⟩, 1, none⟩ := by
    decide +kernel
  refine revert_undone plainSetup rfl [.write toMotd (.calm untripped) (atSecond 1)] []
    (fun _ _ => rfl) hfound hrevert hold (by decide) (fun turn hturn => ?_)
    (fun _ h => absurd h List.not_mem_nil) hsplit hkept rfl (fun path h => ?_) nofun
    (fun _ _ => rfl) (atSecond 3)
  · obtain rfl := List.mem_singleton.mp hturn
    decide
  · exact (Option.some.inj h).symm

end HomelabMcp.Tools
