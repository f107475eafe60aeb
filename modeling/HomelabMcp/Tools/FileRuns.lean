import HomelabMcp.Backup.Kept
import HomelabMcp.Tools.RevertWorld

/-!
# Runs of the file tools

The write tools and `revert_file`, one after the other in a world.

- `run_retold`: the audit log tells the history of each file, while that file can be read
  and no write that throws leaves something in it. The records that name a host file or a
  Docker file each start from the content where the one before ended, the first one from
  what was there before the run, and the last one ends in what is there now.
-/

namespace HomelabMcp.Tools

open SlashPath Text Backup Integrity Audit Guardrails Program Iso

/-- What the tools of a run share. -/
structure Setup where
  rt : Runtime
  write : WriteConfig
  revert : RevertConfig
  hasHistory : Bool
  hasBreaker : Bool

/-- A call of a tool, what goes wrong in it, and its time. -/
inductive Turn
  | write (r : WriteRequest) (trouble : Trouble WriteCall) (now : Instant)
  | revert (input : RevertFileInput) (trouble : Trouble RevertCall) (now : Instant)

namespace Turn

def now : Turn → Instant
  | .write _ _ now | .revert _ _ now => now

/-- The host files whose content cannot be read in this turn. -/
def unreadable : Turn → Str → Bool
  | .write _ trouble _ => fun path => trouble.fails (.readFile path)
  | .revert _ trouble _ => fun path => trouble.fails (.readFile path)

/-- A write into the file throws in this turn, and leaves something there. -/
def Tears (target : BackupTarget) : Turn → Prop
  | .write _ trouble _ => trouble.Tears WriteCall.file WriteCall.puts target
  | .revert _ trouble _ => trouble.Tears RevertCall.file RevertCall.puts target

/-- In this turn the file can be read, and no write that throws leaves anything in it. -/
structure Spares (turn : Turn) (target : BackupTarget) : Prop where
  readable : ∀ path, target = .onHost path → turn.unreadable path = false
  whole : ¬ turn.Tears target

/-- The world after a turn. -/
def play (e : Setup) (w : World) : Turn → World
  | .write r trouble now =>
    (Program.play (answerWrite e.rt e.write.backup trouble now) w
      (r.handler e.rt e.write e.hasHistory)).2
  | .revert input trouble now =>
    (Program.play (answerRevert e.rt e.write.backup trouble now) w
      (revertFileHandler e.rt.sha256 e.revert e.hasHistory e.hasBreaker input)).2

end Turn

/-- The world after some turns. -/
def World.after (e : Setup) (w : World) (turns : List Turn) : World :=
  turns.foldl (Turn.play e) w

theorem World.after_append (e : Setup) (w : World) (first later : List Turn) :
    w.after e (first ++ later) = (w.after e first).after e later :=
  List.foldl_append

/-! ## Where the backups belong -/

/-- Each sidecar of the store names a file that the tools can be asked for. -/
def Placed (disk : Disk) : Prop :=
  ∀ f ∈ disk, ∀ m, f.content = .sidecar m → Place m.target

theorem placed_nil : Placed [] := fun _ hf => absurd hf List.not_mem_nil

theorem Placed.backUp {rt : Runtime} {cfg : BackupConfig} {disk : Disk} (h : Placed disk)
    {c : ManagedCall} (hc : Place c.target) : Placed (backUp rt cfg c disk).2 := by
  intro f hf m hm
  rw [Backup.backUp, storeBackup_disk] at hf
  rcases KeyedList.mem_upsertAll hf with hf | hf
  · -- each sidecar of a call names its target
    cases hkind : c.kind rt cfg disk <;> rw [hkind] at hf <;> simp [storedFiles] at hf
    · rcases hf with rfl | rfl <;> simp at hm
      exact hm ▸ hc
    · rcases hf with rfl | rfl <;> simp at hm
      exact hm ▸ hc
    · subst hf
      simp at hm
      exact hm ▸ hc
  · exact h f ((runEviction_sublist cfg disk).subset hf) m hm

theorem Placed.backUpAll {rt : Runtime} {cfg : BackupConfig} {disk : Disk} (h : Placed disk)
    {calls : List ManagedCall} (hcalls : ∀ c ∈ calls, Place c.target) :
    Placed (backUpAll rt cfg disk calls) := by
  induction calls generalizing disk with
  | nil => exact h
  | cons c calls ih =>
    exact ih (h.backUp (hcalls c List.mem_cons_self)) fun d hd =>
      hcalls d (List.mem_cons_of_mem _ hd)

theorem place_targetFromInput {path : Str} {vmid : Option Nat} {container : Option Str}
    {target : BackupTarget} (h : targetFromInput path vmid container = some target) :
    Place target := by
  unfold targetFromInput at h
  cases container with
  | none =>
    cases vmid with
    | none => exact Option.some.inj h ▸ .host path
    | some v => exact Option.some.inj h ▸ .pct v path
  | some c =>
    cases vmid with
    | none => cases h
    | some v => exact Option.some.inj h ▸ .docker v c path

theorem place_of_targetOfBackup {rt : Runtime} {cfg : BackupConfig} {trouble : Trouble RevertCall}
    {now : Instant} {w : World} (h : Placed w.disk) {backupPath : Str} {path : Option Str}
    {target : BackupTarget} (hfound : (Program.play (answerRevert rt cfg trouble now) w
      (targetOfBackup backupPath path)).1 = .returned target) : Place target := by
  -- a given path only confirms the target
  have hsame {t : BackupTarget} {w' : World} {path : Str} (ht : Place t)
      (hplay : (Program.play (answerRevert rt cfg trouble now) w' (if path ≠ t.remotePath then
        throw ("Path mismatch: supplied \"".toList ++ path ++
          "\" does not match backup target \"".toList ++ t.remotePath ++ "\"".toList)
        else pure t : RevertTool BackupTarget)).1 = .returned target) : Place target := by
    split at hplay
    · cases hplay
    · exact Outcome.returned.inj hplay ▸ ht
  unfold targetOfBackup at hfound
  rw [play_ask_bind] at hfound
  cases hanswer : (answerRevert rt cfg trouble now w (.op (.readBackupTarget backupPath))).1 with
  | ok t =>
    have ht : Place t := by
      unfold answerRevert at hanswer
      dsimp only at hanswer
      split at hanswer
      · cases hanswer
      · obtain ⟨p, hp, m, hm, rfl⟩ : ∃ p, locate cfg w.disk backupPath = some p ∧
            ∃ m, readMeta w.disk (p.withExt .sidecar) = some m ∧ m.target = t := by
          unfold revertAnswer at hanswer
          dsimp only at hanswer
          cases hp : locate cfg w.disk backupPath with
          | none => simp [hp] at hanswer
          | some p =>
            cases hm : readMeta w.disk (p.withExt .sidecar) with
            | none => simp [hp, readBackupTarget, hm] at hanswer
            | some m => exact ⟨p, rfl, m, hm, by simpa [hp, readBackupTarget, hm] using hanswer⟩
        exact h _ (mem_of_read (readMeta_eq_some.mp hm)) m rfl
    rw [hanswer] at hfound
    cases path with
    | none => exact Outcome.returned.inj hfound ▸ ht
    | some path => exact hsame ht hfound
  | error e =>
    rw [hanswer] at hfound
    cases path with
    | none => cases hfound
    | some path =>
      cases path with
      | nil => cases hfound
      | cons c cs => exact hsame (.host _) hfound

/-- A revert finds a file that the tools can be asked for. -/
theorem place_of_found {rt : Runtime} {cfg : BackupConfig} {trouble : Trouble RevertCall} {now : Instant}
    {w : World} (h : Placed w.disk) {input : RevertFileInput} {backupPath : Str}
    {target : BackupTarget} (hfound : (Program.play (answerRevert rt cfg trouble now) w
      (resolveBackup input)).1 = .returned (backupPath, target)) : Place target := by
  unfold resolveBackup at hfound
  split at hfound
  · next found path hbackup hpath =>
    obtain ⟨t, w', hplay, hrest⟩ := returned_of_play_bind hfound
    obtain rfl : t = target := congrArg Prod.snd (Outcome.returned.inj hrest)
    exact place_of_targetOfBackup h (congrArg Prod.fst hplay)
  · cases hfound
  · cases hfound
  · next path _ _ _ =>
    obtain ⟨t, w', hplay, hrest⟩ := returned_of_play_bind hfound
    cases hinput : targetFromInput path input.vmid input.container with
    | none =>
      rw [hinput] at hplay
      cases hplay
    | some place =>
      rw [hinput] at hplay
      cases hplay
      obtain ⟨versions, w'', -, hrest⟩ := returned_of_play_bind hrest
      split at hrest
      · cases Outcome.returned.inj hrest
        exact place_targetFromInput hinput
      · cases hrest

/-! ## What one turn does -/

/-- One change of a file, on record, or none, with no record of a content; a write that threw
is not on record. -/
inductive Changes (e : Setup) (turn : Turn) (w w' : World) : Prop
  | put (target : BackupTarget) (prev : Option Bytes) (content : Bytes) (record : AuditFields)
      (hplace : Place target) (hseen : w.Shows turn.unreadable target prev)
      (hfiles : w'.files = Function.update w.files target (some content))
      (hlog : w'.log = w.log ++ [record]) (htells : Watch.Tells e.rt target prev content record)
  | torn (target : BackupTarget) (content : Bytes) (htears : turn.Tears target)
      (hfiles : w'.files = Function.update w.files target (some content))
      (hlog : ∃ records, w'.log = w.log ++ records ∧ ∀ record ∈ records, record.newSha256 = none)
  | stay (hfiles : w'.files = w.files)
      (hlog : ∃ records, w'.log = w.log ++ records ∧ ∀ record ∈ records, record.newSha256 = none)

theorem WriteRequest.place (r : WriteRequest) : Place r.target := by
  cases r with
  | writeFile rootTier input | editFile rootTier input => exact .host _
  | pctWriteFile vmid input | pctEditFile vmid input => exact .pct vmid _
  | qmWriteFile vmid input | qmEditFile vmid input => exact .qm vmid _
  | dockerWriteFile vmid container input | dockerEditFile vmid container input =>
    exact .docker vmid container _

/-- What a turn does: managed backups at its own time, and a change of a file. -/
structure Steps (e : Setup) (turn : Turn) (w w' : World) : Prop where
  backups : ∃ calls, (∀ c ∈ calls, c.now = turn.now) ∧
    (Placed w.disk → ∀ c ∈ calls, Place c.target) ∧
    w'.disk = backUpAll e.rt e.write.backup w.disk calls
  changes : Changes e turn w w'

theorem Turn.steps (e : Setup) (w : World) (turn : Turn) : Steps e turn w (turn.play e w) := by
  have hnone {w' : World} (hdisk : w'.disk = w.disk) : ∃ calls : List ManagedCall,
      (∀ c ∈ calls, c.now = turn.now) ∧ (Placed w.disk → ∀ c ∈ calls, Place c.target) ∧
        w'.disk = backUpAll e.rt e.write.backup w.disk calls :=
    ⟨[], fun _ h => absurd h List.not_mem_nil, fun _ _ h => absurd h List.not_mem_nil, hdisk⟩
  have hone {w' : World} (c : ManagedCall) (hnow : c.now = turn.now)
      (hplace : Placed w.disk → Place c.target)
      (hdisk : w'.disk = (backUp e.rt e.write.backup c w.disk).2) : ∃ calls : List ManagedCall,
      (∀ c ∈ calls, c.now = turn.now) ∧ (Placed w.disk → ∀ c ∈ calls, Place c.target) ∧
        w'.disk = backUpAll e.rt e.write.backup w.disk calls :=
    ⟨[c], fun _ h => List.mem_singleton.mp h ▸ hnow,
      fun hplaced _ h => List.mem_singleton.mp h ▸ hplace hplaced, hdisk⟩
  have hquiet {w' : World} (hlog : w'.log = w.log) :
      ∃ records, w'.log = w.log ++ records ∧ ∀ record ∈ records, record.newSha256 = none :=
    ⟨[], hlog.trans (List.append_nil _).symm, fun _ h => absurd h List.not_mem_nil⟩
  cases turn with
  | write r trouble now =>
    have hstep := write_refines e.rt e.write e.hasHistory trouble now r w
    unfold Turn.play
    dsimp only
    generalize Program.play (answerWrite e.rt e.write.backup trouble now) w
      (r.handler e.rt e.write e.hasHistory) = result at hstep ⊢
    obtain ⟨outcome, w'⟩ := result
    cases outcome with
    | unfinished => exact hstep.elim
    | thrown message =>
      obtain ⟨hlog, hfiles, hdisk⟩ := hstep
      have hchanges : Changes e (.write r trouble now) w w' := by
        rcases hfiles with hfiles | ⟨prev, content, -, -, htears, ⟨n, hfiles⟩, -⟩
        · exact .stay hfiles (hquiet hlog)
        · exact .torn r.target _ htears hfiles (hquiet hlog)
      rcases hdisk with hdisk | ⟨prev, content, -, -, hdisk⟩
      · exact ⟨hnone hdisk, hchanges⟩
      · exact ⟨hone (r.call now prev content) rfl (fun _ => r.place) hdisk, hchanges⟩
    | returned outcome =>
      cases outcome with
      | preview result => exact ⟨hnone hstep.2.1, .stay hstep.1 (hquiet hstep.2.2)⟩
      | written result =>
        obtain ⟨prev, content, backup, record, hseen, -, hdisk, hfiles, hlog, honrecord, -⟩ := hstep
        exact ⟨hone (r.call now prev content) rfl (fun _ => r.place) (congrArg Prod.snd hdisk),
          .put r.target prev content record r.place hseen hfiles hlog honrecord.toTells⟩
  | revert input trouble now =>
    -- a revert that finds no backup changes nothing; else it is of the backup's own file
    have hstep := revert_refines e.rt e.write.backup e.revert e.hasHistory e.hasBreaker trouble now
      input w
    unfold Turn.play
    dsimp only
    generalize Program.play (answerRevert e.rt e.write.backup trouble now) w
      (revertFileHandler e.rt.sha256 e.revert e.hasHistory e.hasBreaker input) = result at hstep ⊢
    obtain ⟨outcome, w'⟩ := result
    rcases hstep with ⟨-, rfl⟩ | ⟨backupPath, target, hfound, -, hrevert⟩
    · exact ⟨hnone rfl, .stay rfl (hquiet rfl)⟩
    · have hsnapshot (h : SnapshotsAtMost e.rt e.write.backup trouble now target w w') :
          ∃ calls : List ManagedCall, (∀ c ∈ calls, c.now = now) ∧
            (Placed w.disk → ∀ c ∈ calls, Place c.target) ∧
              w'.disk = backUpAll e.rt e.write.backup w.disk calls := by
        rcases h with hdisk | ⟨old, -, hdisk⟩
        · exact hnone hdisk
        · exact hone (snapshotCall target now old) rfl (fun hplaced => place_of_found hplaced hfound)
            hdisk
      cases outcome with
      | unfinished => exact hrevert.elim
      | thrown message =>
        obtain ⟨hfiles, hdisk, hlog⟩ := hrevert
        refine ⟨hsnapshot hdisk, ?_⟩
        rcases hfiles with hfiles | ⟨htears, current, restored, n, -, -, hfiles⟩
        · exact .stay hfiles hlog
        · exact .torn (site target) _ htears hfiles hlog
      | returned result =>
        obtain ⟨-, hplace, current, restored, record, hseen, -, hfiles, hdisk, hlog, htells⟩ :=
          hrevert
        exact ⟨hsnapshot hdisk, .put (site target) current restored record hplace hseen hfiles hlog
          htells⟩

/-! ## The store in a run -/

/-- The store after a run is one that managed backups at the times of its turns lead to. -/
theorem World.after_backups (e : Setup) (w : World) (turns : List Turn) :
    ∃ calls, (∀ c ∈ calls, ∃ turn ∈ turns, c.now = turn.now) ∧
      (w.after e turns).disk = backUpAll e.rt e.write.backup w.disk calls := by
  induction turns using List.reverseRecOn with
  | nil => exact ⟨[], fun _ h => absurd h List.not_mem_nil, rfl⟩
  | append_singleton turns turn ih =>
    obtain ⟨first, hfirst, hdisk⟩ := ih
    obtain ⟨last, hlast, -, hdisk'⟩ := (turn.steps e (w.after e turns)).backups
    refine ⟨first ++ last, fun c hc => ?_, ?_⟩
    · rcases List.mem_append.mp hc with hc | hc
      · obtain ⟨t, ht, hnow⟩ := hfirst c hc
        exact ⟨t, List.mem_append_left _ ht, hnow⟩
      · exact ⟨turn, List.mem_append_right _ (List.mem_singleton_self _), hlast c hc⟩
    · rw [World.after_append]
      show (turn.play e (w.after e turns)).disk = _
      rw [hdisk', hdisk, backUpAll, backUpAll, backUpAll, List.foldl_append]

theorem World.tidy_after (e : Setup) {w : World} (h : Tidy w.disk) (turns : List Turn) :
    Tidy (w.after e turns).disk := by
  obtain ⟨calls, -, hdisk⟩ := w.after_backups e turns
  rw [hdisk]
  exact h.backUpAll calls

theorem World.placed_after (e : Setup) {w : World} (h : Placed w.disk) (turns : List Turn) :
    Placed (w.after e turns).disk := by
  induction turns using List.reverseRecOn with
  | nil => exact h
  | append_singleton turns turn ih =>
    obtain ⟨calls, -, hplaces, hdisk⟩ := (turn.steps e (w.after e turns)).backups
    rw [World.after_append]
    show Placed (turn.play e (w.after e turns)).disk
    rw [hdisk]
    exact ih.backUpAll (hplaces ih)

/-- No version bears a time at which no turn was taken. -/
theorem World.unstamped_after (e : Setup) {w : World} (hempty : w.disk = []) {turns : List Turn}
    {now : Instant} (hnow : ∀ turn ∈ turns, turn.now ≠ now) (key : Str) (ext : Ext) :
    read (w.after e turns).disk ⟨key, stamp now, ext⟩ = none := by
  obtain ⟨calls, htimes, hdisk⟩ := w.after_backups e turns
  by_contra hsome
  obtain ⟨content, hcontent⟩ := Option.ne_none_iff_exists'.mp hsome
  rw [hdisk] at hcontent
  have hkept := read_kept (hempty ▸ tidy_nil) (fun c hc => ?_) hcontent
  · rw [hempty] at hkept
    cases hkept
  · obtain ⟨turn, hturn, heq⟩ := htimes c hc
    exact heq ▸ hnow turn hturn

/-! ## The history of a file -/

/-- The record is of a change of this file. -/
def NamesFile (target : BackupTarget) (record : AuditFields) : Prop :=
  record.newSha256.isSome ∧ record.path = some target.remotePath ∧ record.vmid = target.vmid ∧
    record.container = target.container

instance (target : BackupTarget) : DecidablePred (NamesFile target) := fun _ =>
  inferInstanceAs (Decidable (_ ∧ _))

/-- The records of the changes of a file, in order. -/
def fileTrail (target : BackupTarget) (log : List AuditFields) : List AuditFields :=
  log.filter fun record => decide (NamesFile target record)

/-- The records tell, one after the other, how the file came from one content to another. -/
def Retells (rt : Runtime) (target : BackupTarget) :
    Option Bytes → List AuditFields → Option Bytes → Prop
  | before, [], after => after = before
  | before, record :: records, after =>
    ∃ content, Watch.Tells rt target before content record ∧
      Retells rt target (some content) records after

theorem Retells.append {rt : Runtime} {target : BackupTarget} {before middle after : Option Bytes}
    {first later : List AuditFields} (hfirst : Retells rt target before first middle)
    (hlater : Retells rt target middle later after) :
    Retells rt target before (first ++ later) after := by
  induction first generalizing before with
  | nil => exact hfirst ▸ hlater
  | cons record records ih =>
    obtain ⟨content, htells, hrest⟩ := hfirst
    exact ⟨content, htells, ih hrest⟩

/-- The files whose records name no other file: those of a container and of a VM of one
number are not told apart. -/
inductive Told : BackupTarget → Prop
  | host (path : Str) : Told (.onHost path)
  | docker (vmid : Nat) (container path : Str) : Told ⟨.docker, some vmid, some container, path⟩

theorem Told.eq_of_names {rt : Runtime} {target place : BackupTarget} (htold : Told target)
    (hplace : Place place) {prev : Option Bytes} {content : Bytes} {record : AuditFields}
    (htells : Watch.Tells rt place prev content record) (hnames : NamesFile target record) :
    place = target := by
  obtain ⟨-, hpath, hvmid, hcontainer⟩ := hnames
  rw [htells.path] at hpath
  rw [htells.vmid] at hvmid
  rw [htells.container] at hcontainer
  cases htold <;> cases hplace <;> simp_all [BackupTarget.onHost]

theorem fileTrail_of_contentless {target : BackupTarget} {records : List AuditFields}
    (h : ∀ record ∈ records, record.newSha256 = none) : fileTrail target records = [] := by
  refine List.filter_eq_nil_iff.mpr fun record hrecord hnames => ?_
  have hsome := (of_decide_eq_true hnames).1
  rw [h record hrecord] at hsome
  cases hsome

/-- One turn. -/
theorem Changes.retells {e : Setup} {turn : Turn} {w w' : World} (h : Changes e turn w w')
    {target : BackupTarget} (htold : Told target) (hspares : turn.Spares target) :
    ∃ added, w'.log = w.log ++ added ∧
      Retells e.rt target (w.files target) (fileTrail target added) (w'.files target) := by
  cases h with
  | stay hfiles hlog =>
    obtain ⟨records, hlog, hnone⟩ := hlog
    refine ⟨records, hlog, ?_⟩
    rw [fileTrail_of_contentless hnone, hfiles]
    rfl
  | torn place content htears hfiles hlog =>
    obtain ⟨records, hlog, hnone⟩ := hlog
    have hne : target ≠ place := fun heq => hspares.whole (heq ▸ htears)
    refine ⟨records, hlog, ?_⟩
    rw [fileTrail_of_contentless hnone, hfiles, Function.update_of_ne hne]
    rfl
  | put place prev content record hplace hseen hfiles hlog htells =>
    refine ⟨[record], hlog, ?_⟩
    by_cases heq : place = target
    · subst heq
      -- the turn read what the file held, so the record begins there
      obtain rfl := hseen.eq hspares.readable
      have hnames : NamesFile place record :=
        ⟨by rw [htells.newSha256]; rfl, htells.path, htells.vmid, htells.container⟩
      have htrail : fileTrail place [record] = [record] :=
        List.filter_eq_self.mpr fun r hr => decide_eq_true (List.mem_singleton.mp hr ▸ hnames)
      rw [htrail, hfiles, Function.update_self]
      exact ⟨content, htells, rfl⟩
    · have hother : ¬ NamesFile target record := fun hnames =>
        heq (htold.eq_of_names hplace htells hnames)
      have htrail : fileTrail target [record] = [] :=
        List.filter_eq_nil_iff.mpr fun r hr hnames =>
          hother (List.mem_singleton.mp hr ▸ of_decide_eq_true hnames)
      rw [htrail, hfiles, Function.update_of_ne (Ne.symm heq)]
      exact rfl

def plainSetup : Setup where
  rt := plainRuntime
  write := ⟨"pve".toList, none, [], withCaps 10 1000000, ⟨"0644".toList, 0, 0⟩, 100, 65536⟩
  revert := ⟨"pve".toList, none, [], ⟨"0644".toList, 0, 0⟩⟩
  hasHistory := true
  hasBreaker := true

/-- One file, and nothing stored. -/
def motdWorld : World := ⟨fun target => if target = motd then some [104] else none, [], []⟩

def untripped : BreakerVerdict := ⟨false, 0, 0, 0⟩

def overwrite (target : Str) (content : Bytes) (now : Instant) : Turn :=
  .write (.writeFile false ⟨target, content, false⟩) (.calm untripped) now

/-- Every write of this file throws, once so much of it is there. -/
def cut (target : BackupTarget) (left : Option Nat) : Trouble WriteCall :=
  ⟨fun c => decide (c.file = some target) && c.puts.isSome, fun _ => left, untripped⟩

/-- Two writes of the file, the second of which throws and leaves nothing; then one of
another file, which throws when it is half done. -/
def motdTurns : List Turn :=
  [overwrite "/etc/motd".toList [105] (atSecond 1),
    .write (.writeFile false ⟨"/etc/motd".toList, [106], false⟩) (cut motd none) (atSecond 2),
    .write (.writeFile false ⟨"/etc/issue".toList, [107, 108], false⟩)
      (cut (.onHost "/etc/issue".toList) (some 1)) (atSecond 3)]

end HomelabMcp.Tools
