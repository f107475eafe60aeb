import HomelabMcp.Tools.WriteFile

/-!
# What a write does before and after it writes

Eight tools write files. Whatever the store, the transport and the guests answer, each of
them writes at most once, in the file it was asked for, and only over content that it has
read and for which a backup has been stored; it brings no marker of redacted text into it.
A write that went through is on record, once; a preview leaves nothing behind.

- `careful_writes`: the calls of a run follow the rules of `Watch.allowed`, and the run
  ends as `Watch.Ends` says.
-/

namespace HomelabMcp.Tools

open SlashPath Text Backup Integrity Audit Guardrails Program EditString

/-- A call of one of the tools. -/
inductive WriteRequest
  | writeFile (rootTier : Bool) (input : WriteFileInput)
  | editFile (rootTier : Bool) (input : EditInput)
  | pctWriteFile (vmid : Nat) (input : WriteFileInput)
  | pctEditFile (vmid : Nat) (input : EditInput)
  | qmWriteFile (vmid : Nat) (input : WriteFileInput)
  | qmEditFile (vmid : Nat) (input : EditInput)
  | dockerWriteFile (vmid : Nat) (container : Str) (input : WriteFileInput)
  | dockerEditFile (vmid : Nat) (container : Str) (input : EditInput)

namespace WriteRequest

def handler (rt : Runtime) (cfg : WriteConfig) (hasHistory : Bool) :
    WriteRequest → WriteTool WriteOutcome
  | .writeFile rootTier input => writeFileHandler rt cfg hasHistory rootTier input
  | .editFile rootTier input => editFileHandler rt cfg hasHistory rootTier input
  | .pctWriteFile vmid input => pctWriteFileHandler rt cfg hasHistory vmid input
  | .pctEditFile vmid input => pctEditFileHandler rt cfg hasHistory vmid input
  | .qmWriteFile vmid input => qmWriteFileHandler rt cfg vmid input
  | .qmEditFile vmid input => qmEditFileHandler rt cfg vmid input
  | .dockerWriteFile vmid container input => dockerWriteFileHandler rt cfg vmid container input
  | .dockerEditFile vmid container input => dockerEditFileHandler rt cfg vmid container input

/-- The file that is asked for. -/
def target : WriteRequest → BackupTarget
  | .writeFile _ input => .onHost input.path
  | .editFile _ input => .onHost input.path
  | .pctWriteFile vmid input => ⟨.pct, some vmid, none, input.path⟩
  | .pctEditFile vmid input => ⟨.pct, some vmid, none, input.path⟩
  | .qmWriteFile vmid input => ⟨.qm, some vmid, none, input.path⟩
  | .qmEditFile vmid input => ⟨.qm, some vmid, none, input.path⟩
  | .dockerWriteFile vmid container input => ⟨.docker, some vmid, some container, input.path⟩
  | .dockerEditFile vmid container input => ⟨.docker, some vmid, some container, input.path⟩

/-- What is to be written over some content. -/
def content : WriteRequest → Option Bytes → Except Str Bytes
  | .writeFile _ input | .pctWriteFile _ input | .qmWriteFile _ input
  | .dockerWriteFile _ _ input => fun _ => .ok input.content
  | .editFile _ input => editFileContent input.toEditFileInput
  | .pctEditFile vmid input => pctEditContent vmid input.toEditFileInput
  | .qmEditFile vmid input => qmEditContent vmid input.toEditFileInput
  | .dockerEditFile vmid container input => dockerEditContent vmid container input.toEditFileInput

def dryRun : WriteRequest → Bool
  | .writeFile _ input | .pctWriteFile _ input | .qmWriteFile _ input
  | .dockerWriteFile _ _ input => input.dryRun
  | .editFile _ input | .pctEditFile _ input | .qmEditFile _ input
  | .dockerEditFile _ _ input => input.dryRun

end WriteRequest

/-! ## The rules -/

namespace WriteCall

/-- The file that a call reads, looks up or writes. -/
def file : WriteCall → Option BackupTarget
  | .readFile path | .writeFile path _ => some (.onHost path)
  | .pullContainerFile vmid path | .statContainerPerms vmid path
  | .pushContainerFile vmid path _ _ => some ⟨.pct, some vmid, none, path⟩
  | .readVmFile _ vmid path | .writeVmFile _ vmid path _ => some ⟨.qm, some vmid, none, path⟩
  | .readDockerFile vmid container path _ | .statDockerPerms vmid container path
  | .writeDockerFile vmid container path _ _ _ _ => some ⟨.docker, some vmid, some container, path⟩
  | .latestBaseHash target | .storeBackup target _ _ | .recordMutation target _ => some target
  | _ => none

/-- What a call writes into a file. -/
def puts : WriteCall → Option Bytes
  | .writeFile _ content | .pushContainerFile _ _ content _ | .writeVmFile _ _ _ content
  | .writeDockerFile _ _ _ content _ _ _ => some content
  | _ => none

/-- What a call shows of a file. -/
def reads : WriteCall → Bool
  | .readFile _ | .pullContainerFile _ _ | .readVmFile _ _ _ | .readDockerFile _ _ _ _ => true
  | _ => false

/-- The calls that the choice of a backup rests on. -/
def consults : WriteCall → Bool
  | .latestBaseHash _ | .buildExistingHashMap => true
  | _ => false

end WriteCall

/-- What has happened so far in a run. -/
structure Watch where
  /-- What the file was read to hold. -/
  prev : Option (Option Bytes)
  chain : Option (Option Str)
  existing : Option (List (Str × BackupPath))
  backup : Option BackupResult
  attempted : Bool
  written : Bool
  records : List AuditFields

namespace Watch

def start : Watch := ⟨none, none, none, none, false, false, []⟩

/-- What a call and its answer add. -/
def next (s : Watch) : (c : ToolCall WriteCall) → ToolAnswer WriteResult c → Watch
  | .op (.readFile _), .ok content => { s with prev := some (some content) }
  | .op (.readFile _), .error _ => { s with prev := some none }
  | .op (.pullContainerFile _ _), .ok content => { s with prev := some content }
  | .op (.readVmFile _ _ _), .ok content => { s with prev := some content }
  | .op (.readDockerFile _ _ _ _), .ok found => { s with prev := some found.1 }
  | .op (.latestBaseHash _), .ok hash => { s with chain := some hash }
  | .op .buildExistingHashMap, .ok existing => { s with existing := some existing }
  | .op (.storeBackup _ _ _), .ok backup => { s with backup := some backup }
  | .op (.writeFile _ _), .ok _ | .op (.pushContainerFile _ _ _ _), .ok _
  | .op (.writeVmFile _ _ _ _), .ok _ | .op (.writeDockerFile _ _ _ _ _ _ _), .ok _ =>
    { s with attempted := true, written := true }
  | .op (.writeFile _ _), .error _ | .op (.pushContainerFile _ _ _ _), .error _
  | .op (.writeVmFile _ _ _ _), .error _ | .op (.writeDockerFile _ _ _ _ _ _ _), .error _ =>
    { s with attempted := true }
  | .append record, _ => { s with records := s.records ++ [record] }
  | _, _ => s

/-- A record that says what was written where, and over what. -/
structure Tells (rt : Runtime) (target : BackupTarget) (prev : Option Bytes) (content : Bytes)
    (record : AuditFields) : Prop where
  vmid : record.vmid = target.vmid
  container : record.container = target.container
  path : record.path = some target.remotePath
  prevSha256 : record.prevSha256 = prev.map (contentHash rt)
  newSha256 : record.newSha256 = some (contentHash rt content)
  bytes : record.bytes = some content.length
  beforeHash : record.beforeHash = prev.map (contentLeafHash rt.sha256)
  afterHash : record.afterHash = some (contentLeafHash rt.sha256 content)

/-- A record that says besides what can be had back. -/
structure OnRecord (rt : Runtime) (target : BackupTarget) (prev : Option Bytes) (content : Bytes)
    (backup : BackupResult) (record : AuditFields) : Prop
    extends Tells rt target prev content record where
  isRevertible : record.isRevertible = some backup.revertible

section
variable (rt : Runtime) (cfg : WriteConfig) (r : WriteRequest)

/-- The backup that the pipeline has to ask for now. -/
def Chosen (s : Watch) (kind : BackupKind) (newHash : Str) : Prop :=
  ∃ prev chain existing content, s.prev = some prev ∧ s.chain = some chain ∧
    s.existing = some existing ∧ r.content prev = .ok content ∧
    kind = selectBackupKind rt (pipelineInput cfg (prevOf rt prev) content existing chain) ∧
    newHash = contentHash rt content

/-- A file may be written now: its backup is stored, and it was not tried before. No marker
of redacted text comes into it that was not there. -/
structure MayWrite (s : Watch) (content : Bytes) : Prop where
  live : r.dryRun = false
  backedUp : s.backup.isSome
  first : s.attempted = false
  asked : ∃ prev, s.prev = some prev ∧ r.content prev = .ok content ∧
    introducesRedactionMarker (prev.map Utf8.decode) (Utf8.decode content) = false

/-- Which operations may be performed, in view of what has happened. -/
structure AllowedOp (s : Watch) (c : WriteCall) : Prop where
  file : ∀ t, c.file = some t → t = r.target
  reads : c.reads = true → s.prev = none
  consults : c.consults = true → s.backup = none
  puts : ∀ content, c.puts = some content → s.MayWrite r content
  stores : ∀ t kind newHash, c = .storeBackup t kind newHash →
    r.dryRun = false ∧ s.backup = none ∧ s.Chosen rt cfg r kind newHash
  records : ∀ t content, c = .recordMutation t content → s.written = true

def allowed (s : Watch) : ToolCall WriteCall → Prop
  | .op c => s.AllowedOp rt cfg r c
  | .append record => s.written = true ∧ s.records = [] ∧
    ∃ prev content backup, s.prev = some prev ∧ r.content prev = .ok content ∧
      s.backup = some backup ∧ OnRecord rt r.target prev content backup record
  | _ => False

def monitor : Monitor (ToolCall WriteCall) (ToolAnswer WriteResult) Watch where
  next := next
  allowed := allowed rt cfg r

/-- How a run ends: as a preview that has left nothing, as a write that is on record once,
or in an error, where no write helper answered that it had written and nothing is on record. -/
def Ends (s : Watch) : Outcome Str WriteOutcome → Prop
  | .returned (.preview _) =>
    r.dryRun = true ∧ s.backup = none ∧ s.attempted = false ∧ s.records = []
  | .returned (.written result) =>
    r.dryRun = false ∧ s.written = true ∧ s.records.length = 1 ∧
      ∃ backup, s.backup = some backup ∧
        result.backupPath = backup.backupPath.or backup.existingPath ∧
        result.revertible = backup.revertible
  | .thrown _ => s.written = false ∧ s.records = []
  | .unfinished => False

end

/-! ## The steps -/

section
variable {rt : Runtime} {cfg : WriteConfig} {r : WriteRequest} {s : Watch} {prev : Option Bytes}
  {content : Bytes} {door : Door}

/-- What only looks something up may be called at any time. -/
theorem allowed_lookup {c : WriteCall} (hfile : ∀ t, c.file = some t → t = r.target)
    (hputs : c.puts = none) (hstore : ∀ t kind newHash, c ≠ .storeBackup t kind newHash)
    (hrecord : ∀ t b, c ≠ .recordMutation t b) (hreads : c.reads = true → s.prev = none)
    (hconsults : c.consults = true → s.backup = none) :
    (monitor rt cfg r).allowed s (.op c) where
  file := hfile
  reads := hreads
  consults := hconsults
  puts b hb := by
    rw [hputs] at hb
    cases hb
  stores t kind newHash hc := absurd hc (hstore t kind newHash)
  records t b hc := absurd hc (hrecord t b)

/-- A call whose answer the rules do not depend on. -/
theorem ignores_writeOp {c : WriteCall} (hallowed : (monitor rt cfg r).allowed s (.op c))
    (hnext : ∀ answer, s.next (.op c) answer = s) :
    (monitor rt cfg r).Ignores False s (writeOp c) :=
  meets_perform.mpr ⟨hallowed, fun a => ⟨hnext (.ok a), nofun⟩, fun e => ⟨hnext (.error e), nofun⟩⟩

theorem ignores_refuse (condition : Bool) (message : Str) :
    (monitor rt cfg r).Ignores False s (refuse condition message) :=
  Monitor.ignores_ite (Monitor.ignores_throw message) (Monitor.ignores_pure ())

/-- What comes after a refusal that was not made. -/
theorem meets_refuse {condition : Bool} {message : Str} {next : Unit → WriteTool WriteOutcome}
    {post : Watch → Outcome Str WriteOutcome → Prop} (hrefused : post s (.thrown message))
    (hnext : condition = false → (monitor rt cfg r).Meets post s (next ())) :
    (monitor rt cfg r).Meets post s (refuse condition message >>= next) := by
  cases condition with
  | true => exact hrefused
  | false => exact hnext rfl

theorem ignores_refuseOverCap (maxBytes : Option Nat) (size : Nat) :
    (monitor rt cfg r).Ignores False s (refuseOverCap maxBytes size) := by
  cases maxBytes with
  | none => exact Monitor.ignores_pure ()
  | some cap => exact ignores_refuse _ _

theorem ignores_refuseUnderPressure :
    (monitor rt cfg r).Ignores False s (refuseUnderPressure cfg) := by
  refine Monitor.Ignores.bind (ignores_writeOp ?_ fun _ => rfl) fun _ => ignores_refuse _ _
  exact allowed_lookup nofun rfl nofun nofun nofun nofun

theorem ignores_checkPath (path : Str) :
    (monitor rt cfg r).Ignores False s (checkPath cfg path) := by
  unfold checkPath
  split
  · exact Monitor.ignores_throw _
  · exact Monitor.ignores_pure ()

/-- Nothing of the file has been touched, and it was read to hold this. -/
structure Untouched (s : Watch) (prev : Option Bytes) : Prop where
  prev : s.prev = some prev
  backup : s.backup = none
  attempted : s.attempted = false
  written : s.written = false
  records : s.records = []

/-- A write that goes through is noted, and nothing else; one that fails is no write. -/
def Put (s : Watch) : Watch → Outcome Str (Option Str) → Prop
  | t, .returned _ => t = { s with attempted := true, written := true }
  | t, .thrown _ => t.written = s.written ∧ t.records = s.records
  | _, .unfinished => False

/-- A door that leads to the file that is asked for, and writes there once. -/
structure Leads (rt : Runtime) (cfg : WriteConfig) (r : WriteRequest) (door : Door) : Prop where
  target : door.target = r.target
  vmid : door.base.vmid = r.target.vmid
  container : door.base.container = r.target.container
  prepare : ∀ s isNewFile, (monitor rt cfg r).Ignores False s (door.prepare isNewFile)
  put : ∀ s isNewFile content perms, s.MayWrite r content →
    (monitor rt cfg r).Meets s.Put s (door.put isNewFile content perms)
  capture : ∀ s content, s.written = true →
    (monitor rt cfg r).Meets (fun t o => t = s ∧ ∃ committed, o = .returned committed) s
      (door.capture content)

theorem onRecord_writeRecord (hleads : Leads rt cfg r door) (backup : BackupResult)
    (note : Option Str) (committed : Option Bool) :
    OnRecord rt r.target prev content backup
      (writeRecord rt cfg door (prevOf rt prev) content backup note committed) := by
  have hpath : some door.target.remotePath = some r.target.remotePath := by rw [hleads.target]
  exact ⟨⟨hleads.vmid, hleads.container, hpath, rfl, rfl, rfl, rfl, rfl⟩, rfl⟩

theorem meets_previewWrite (hlive : r.dryRun = true) (h : s.Untouched prev)
    (chain : Option Str) :
    (monitor rt cfg r).Meets (Ends r) s (previewWrite rt cfg (prevOf rt prev) content chain) := by
  refine Monitor.meets_bind.mpr (meets_perform.mpr ⟨allowed_lookup nofun rfl nofun nofun nofun
    fun _ => h.backup, fun existing => ?_, fun e => ⟨h.written, h.records⟩⟩)
  exact ⟨hlive, h.backup, h.attempted, h.records⟩

/-- After the backup: the write, the history and the record. -/
theorem meets_commitWrite (hleads : Leads rt cfg r door) (hlive : r.dryRun = false)
    (h : s.Untouched prev) (hcontent : r.content prev = .ok content)
    (hunmarked : introducesRedactionMarker (prev.map Utf8.decode) (Utf8.decode content) = false)
    {chain : Option Str} (hchain : s.chain = some chain) :
    (monitor rt cfg r).Meets (Ends r) s
      (commitWrite rt cfg door (prevOf rt prev) content chain) := by
  have hfailed : ∀ e : Str, Ends r s (.thrown e) := fun e => ⟨h.written, h.records⟩
  refine ignores_refuseUnderPressure.meets_bind (fun _ => ?_) hfailed False.elim
  refine (hleads.prepare s _).meets_bind (fun perms => ?_) hfailed False.elim
  refine Monitor.meets_bind.mpr (meets_perform.mpr ⟨allowed_lookup nofun rfl nofun nofun nofun
    fun _ => h.backup, fun existing => ?_, fun e => ⟨h.written, h.records⟩⟩)
  refine Monitor.meets_bind.mpr (meets_perform.mpr ⟨?_, fun backup => ?_,
    fun e => ⟨h.written, h.records⟩⟩)
  · -- the backup that is asked for is the one the policy chooses
    refine ⟨fun t ht => ?_, nofun, nofun, nofun, fun t kind newHash hc => ?_, nofun⟩
    · rw [← hleads.target]
      exact (Option.some.inj ht).symm
    · cases hc
      exact ⟨hlive, h.backup, prev, chain, existing, content, h.prev, hchain, rfl, hcontent, rfl,
        rfl⟩
  · -- the history never stands in the way of the record
    have hput := hleads.put { s with existing := some existing, backup := some backup }
      (prevOf rt prev).isNewFile content perms
      ⟨hlive, rfl, h.attempted, prev, h.prev, hcontent, hunmarked⟩
    refine Monitor.meets_bind.mpr (hput.mono fun t o ht => ?_)
    cases o with
    | unfinished => exact ht
    | thrown e => exact ⟨ht.1.trans h.written, ht.2.trans h.records⟩
    | returned note =>
      obtain rfl := ht
      refine Monitor.meets_bind.mpr ((hleads.capture _ content rfl).mono fun t o ht => ?_)
      obtain ⟨rfl, committed, rfl⟩ := ht
      refine Monitor.meets_bind.mpr (meets_append.mpr ⟨⟨rfl, h.records, prev, content, backup,
        h.prev, hcontent, rfl, onRecord_writeRecord hleads backup note committed⟩, ?_⟩)
      refine ⟨hlive, rfl, ?_, backup, rfl, rfl, rfl⟩
      show (s.records ++ [_]).length = 1
      rw [h.records]
      rfl

/-- The pipeline, from what was read on. -/
theorem meets_writeResolved (hleads : Leads rt cfg r door) (h : s.Untouched prev)
    (hcontent : r.content prev = .ok content) :
    (monitor rt cfg r).Meets (Ends r) s
      (writeResolved rt cfg door r.dryRun (prevOf rt prev) content) := by
  have hfailed : ∀ e : Str, Ends r s (.thrown e) := fun e => ⟨h.written, h.records⟩
  refine meets_refuse (hfailed _) fun hunmarked => ?_
  refine Monitor.meets_bind.mpr (meets_perform.mpr ⟨?_, fun chain => ?_, hfailed⟩)
  · refine allowed_lookup (fun t ht => ?_) rfl nofun nofun nofun fun _ => h.backup
    rw [← hleads.target]
    exact (Option.some.inj ht).symm
  · have hnext : ({ s with chain := some chain } : Watch).Untouched prev :=
      ⟨h.prev, h.backup, h.attempted, h.written, h.records⟩
    refine (ignores_refuseOverCap _ _).meets_bind (fun _ => ?_)
      (fun e => ⟨h.written, h.records⟩) False.elim
    cases hdry : r.dryRun with
    | true => exact meets_previewWrite hdry hnext chain
    | false => exact meets_commitWrite hleads hdry hnext hcontent hunmarked rfl

/-! ## The doors -/

/-- A write in the right file, when it may be made. -/
theorem allowed_put {c : WriteCall} (hfile : c.file = some r.target) (hputs : c.puts = some content)
    (hreads : c.reads = false) (hconsults : c.consults = false) (hmay : s.MayWrite r content) :
    (monitor rt cfg r).allowed s (.op c) := by
  refine ⟨fun t ht => ?_, fun hc => ?_, fun hc => ?_, fun b hb => ?_, ?_, ?_⟩
  · rw [hfile] at ht
    exact (Option.some.inj ht).symm
  · rw [hreads] at hc
    cases hc
  · rw [hconsults] at hc
    cases hc
  · rw [hputs] at hb
    exact Option.some.inj hb ▸ hmay
  · rintro t kind newHash rfl
    cases hputs
  · rintro t b rfl
    cases hputs

theorem meets_capture {target : BackupTarget} (htarget : target = r.target)
    (hwritten : s.written = true) (hasHistory : Bool) (content : Bytes) :
    (monitor rt cfg r).Meets (fun t o => t = s ∧ ∃ committed, o = .returned committed) s
      (capture hasHistory target content) := by
  unfold capture
  split
  · refine Monitor.meets_bind.mpr (Monitor.meets_tryCatch.mpr (meets_perform.mpr
      ⟨⟨fun t ht => ?_, nofun, nofun, nofun, nofun, fun _ _ _ => hwritten⟩, fun b => ⟨rfl, _, rfl⟩,
        fun e => ⟨rfl, _, rfl⟩⟩))
    rw [← htarget]
    exact (Option.some.inj ht).symm
  · exact ⟨rfl, _, rfl⟩

theorem leads_hostDoor {path : Str} (htarget : .onHost path = r.target) (tool : Audit.AuditTool)
    (hasHistory rootTier : Bool) : Leads rt cfg r (hostDoor cfg tool hasHistory rootTier path) where
  target := htarget
  vmid := congrArg BackupTarget.vmid htarget
  container := congrArg BackupTarget.container htarget
  prepare _ _ := Monitor.ignores_pure none
  put _ _ _ _ hmay := Monitor.meets_bind.mpr (meets_perform.mpr
    ⟨allowed_put (congrArg some htarget) rfl rfl rfl hmay, fun _ => rfl, fun _ => ⟨rfl, rfl⟩⟩)
  capture _ content hwritten := meets_capture htarget hwritten hasHistory content

theorem leads_pctDoor {vmid : Nat} {path : Str} (htarget : ⟨.pct, some vmid, none, path⟩ = r.target)
    (tool : Audit.AuditTool) (hasHistory : Bool) :
    Leads rt cfg r (pctDoor cfg tool hasHistory vmid path) where
  target := htarget
  vmid := congrArg BackupTarget.vmid htarget
  container := congrArg BackupTarget.container htarget
  prepare _ _ := Monitor.ignores_pure none
  put s isNewFile content _ hmay := by
    have hperms : (monitor rt cfg r).Ignores False s (keptPerms isNewFile vmid path) := by
      refine Monitor.ignores_ite (Monitor.ignores_pure none) (ignores_writeOp ?_ fun _ => rfl)
      exact allowed_lookup (fun t ht => htarget ▸ (Option.some.inj ht).symm) rfl nofun nofun nofun
        nofun
    refine hperms.meets_bind (fun perms => ?_) (fun _ => ⟨rfl, rfl⟩) False.elim
    exact Monitor.meets_bind.mpr (meets_perform.mpr
      ⟨allowed_put (congrArg some htarget) rfl rfl rfl hmay, fun _ => rfl, fun _ => ⟨rfl, rfl⟩⟩)
  capture _ content hwritten := meets_capture htarget hwritten hasHistory content

theorem leads_qmDoor {vmid : Nat} {path : Str} (htarget : ⟨.qm, some vmid, none, path⟩ = r.target)
    (tool : Audit.AuditTool) (node : Str) : Leads rt cfg r (qmDoor cfg tool node vmid path) where
  target := htarget
  vmid := congrArg BackupTarget.vmid htarget
  container := congrArg BackupTarget.container htarget
  prepare _ _ := Monitor.ignores_pure none
  put _ _ _ _ hmay := Monitor.meets_bind.mpr (meets_perform.mpr
    ⟨allowed_put (congrArg some htarget) rfl rfl rfl hmay, fun _ => rfl, fun _ => ⟨rfl, rfl⟩⟩)
  capture _ _ _ := ⟨rfl, _, rfl⟩

theorem leads_dockerDoor {vmid : Nat} {container path : Str}
    (htarget : ⟨.docker, some vmid, some container, path⟩ = r.target) (tool : Audit.AuditTool)
    (inspect : DockerInspect) (viaBindMount : Bool) :
    Leads rt cfg r (dockerDoor cfg tool inspect viaBindMount vmid container path) where
  target := htarget
  vmid := congrArg BackupTarget.vmid htarget
  container := congrArg BackupTarget.container htarget
  prepare _ _ := by
    refine Monitor.ignores_ite (Monitor.ignores_pure none) (ignores_writeOp ?_ fun _ => rfl)
    exact allowed_lookup (fun t ht => htarget ▸ (Option.some.inj ht).symm) rfl nofun nofun nofun
      nofun
  put _ _ _ _ hmay := Monitor.meets_bind.mpr (meets_perform.mpr
    ⟨allowed_put (congrArg some htarget) rfl rfl rfl hmay, fun _ => rfl, fun _ => ⟨rfl, rfl⟩⟩)
  capture _ _ _ := ⟨rfl, _, rfl⟩

/-! ## The handlers -/

/-- The state once the file has been read. -/
def afterRead (prev : Option Bytes) : Watch := { start with prev := some prev }

theorem untouched_afterRead (prev : Option Bytes) : (afterRead prev).Untouched prev :=
  ⟨rfl, rfl, rfl, rfl, rfl⟩

theorem ends_thrown (r : WriteRequest) (e : Str) : Ends r start (.thrown e) := ⟨rfl, rfl⟩

theorem meets_readHostPrev {path : Str} (htarget : .onHost path = r.target)
    {next : Prev → WriteTool WriteOutcome}
    (hnext : ∀ prev, (monitor rt cfg r).Meets (Ends r) (afterRead prev) (next (prevOf rt prev))) :
    (monitor rt cfg r).Meets (Ends r) start (readHostPrev rt path >>= next) := by
  refine Monitor.meets_bind.mpr (Monitor.meets_bind.mpr (Monitor.meets_ask.mpr ⟨?_, fun answer => ?_⟩))
  · exact allowed_lookup (fun t ht => htarget ▸ (Option.some.inj ht).symm) rfl nofun nofun
      (fun _ => rfl) nofun
  · cases answer with
    | ok content => exact hnext (some content)
    | error e => exact hnext none

theorem ignores_assertContainerRunning {vmid : Nat} :
    (monitor rt cfg r).Ignores False s (writeOp (.assertContainerRunning vmid)) :=
  ignores_writeOp (allowed_lookup nofun rfl nofun nofun nofun nofun) fun _ => rfl

theorem meets_readPctPrev {vmid : Nat} {path : Str}
    (htarget : ⟨.pct, some vmid, none, path⟩ = r.target) {next : Prev → WriteTool WriteOutcome}
    (hnext : ∀ prev, (monitor rt cfg r).Meets (Ends r) (afterRead prev) (next (prevOf rt prev))) :
    (monitor rt cfg r).Meets (Ends r) start (readPctPrev rt vmid path >>= next) := by
  refine Monitor.meets_bind.mpr (ignores_assertContainerRunning.meets_bind (fun _ => ?_)
    (ends_thrown r) False.elim)
  refine Monitor.meets_bind.mpr (meets_perform.mpr ⟨?_, fun content => hnext content, ends_thrown r⟩)
  exact allowed_lookup (fun t ht => htarget ▸ (Option.some.inj ht).symm) rfl nofun nofun
    (fun _ => rfl) nofun

theorem meets_readQmPrev {vmid : Nat} {path : Str}
    (htarget : ⟨.qm, some vmid, none, path⟩ = r.target)
    {next : Str × Prev → WriteTool WriteOutcome}
    (hnext : ∀ node prev,
      (monitor rt cfg r).Meets (Ends r) (afterRead prev) (next (node, prevOf rt prev))) :
    (monitor rt cfg r).Meets (Ends r) start (readQmPrev rt vmid path >>= next) := by
  have hagent : (monitor rt cfg r).allowed start (.op (.assertAgentAvailable vmid)) :=
    allowed_lookup nofun rfl nofun nofun nofun nofun
  refine Monitor.meets_bind.mpr ((ignores_writeOp hagent fun _ => rfl).meets_bind (fun _ => ?_)
    (ends_thrown r) False.elim)
  refine Monitor.meets_bind.mpr (meets_perform.mpr
    ⟨allowed_lookup nofun rfl nofun nofun nofun nofun,
    fun node => ?_, ends_thrown r⟩)
  refine Monitor.meets_bind.mpr (meets_perform.mpr
    ⟨?_, fun content => hnext node content, ends_thrown r⟩)
  exact allowed_lookup (fun t ht => htarget ▸ (Option.some.inj ht).symm) rfl nofun nofun
    (fun _ => rfl) nofun

theorem meets_readDockerPrev {vmid : Nat} {container path : Str}
    (htarget : ⟨.docker, some vmid, some container, path⟩ = r.target)
    {next : DockerInspect × Bool × Prev → WriteTool WriteOutcome}
    (hnext : ∀ inspect viaBindMount prev, (monitor rt cfg r).Meets (Ends r) (afterRead prev)
      (next (inspect, viaBindMount, prevOf rt prev))) :
    (monitor rt cfg r).Meets (Ends r) start (readDockerPrev rt vmid container path >>= next) := by
  refine Monitor.meets_bind.mpr (ignores_assertContainerRunning.meets_bind (fun _ => ?_)
    (ends_thrown r) False.elim)
  refine Monitor.meets_bind.mpr (meets_perform.mpr
    ⟨allowed_lookup nofun rfl nofun nofun nofun nofun,
    fun inspect => ?_, ends_thrown r⟩)
  refine Monitor.meets_bind.mpr (meets_perform.mpr
    ⟨?_, fun found => hnext inspect found.2 found.1, ends_thrown r⟩)
  exact allowed_lookup (fun t ht => htarget ▸ (Option.some.inj ht).symm) rfl nofun nofun
    (fun _ => rfl) nofun

/-- An edit that cannot be made ends the run; another one goes into the pipeline. -/
theorem meets_edited {edited : Except Str Bytes} (hedited : r.content prev = edited)
    (hleads : Leads rt cfg r door) :
    (monitor rt cfg r).Meets (Ends r) (afterRead prev)
      (orThrow edited >>= fun newContent =>
        writeResolved rt cfg door r.dryRun (prevOf rt prev) newContent) := by
  refine Monitor.meets_bind.mpr (Monitor.meets_orThrow.mpr ⟨fun content hcontent => ?_,
    fun e _ => ⟨rfl, rfl⟩⟩)
  exact meets_writeResolved hleads (untouched_afterRead prev) (hedited.trans hcontent)

/-- Each of the tools keeps to the rules. -/
theorem meets_handler (rt : Runtime) (cfg : WriteConfig) (hasHistory : Bool) (r : WriteRequest) :
    (monitor rt cfg r).Meets (Ends r) start (r.handler rt cfg hasHistory) := by
  cases r with
  | writeFile rootTier input =>
    exact (ignores_checkPath _).meets_bind (fun _ => meets_readHostPrev rfl fun prev =>
      meets_writeResolved (leads_hostDoor rfl _ _ _) (untouched_afterRead prev) rfl) (ends_thrown _)
      False.elim
  | editFile rootTier input =>
    exact (ignores_checkPath _).meets_bind (fun _ => meets_readHostPrev rfl fun prev =>
      meets_edited rfl (leads_hostDoor rfl _ _ _)) (ends_thrown _) False.elim
  | pctWriteFile vmid input =>
    exact (ignores_checkPath _).meets_bind (fun _ => meets_readPctPrev rfl fun prev =>
      meets_writeResolved (leads_pctDoor rfl _ _) (untouched_afterRead prev) rfl) (ends_thrown _)
      False.elim
  | pctEditFile vmid input =>
    exact (ignores_checkPath _).meets_bind (fun _ => meets_readPctPrev rfl fun prev =>
      meets_edited rfl (leads_pctDoor rfl _ _)) (ends_thrown _) False.elim
  | qmWriteFile vmid input =>
    refine (ignores_checkPath _).meets_bind (fun _ => ?_) (ends_thrown _) False.elim
    refine (ignores_refuseOverCap _ _).meets_bind (fun _ => ?_) (ends_thrown _) False.elim
    exact meets_readQmPrev rfl fun node prev =>
      meets_writeResolved (leads_qmDoor rfl _ _) (untouched_afterRead prev) rfl
  | qmEditFile vmid input =>
    exact (ignores_checkPath _).meets_bind (fun _ => meets_readQmPrev rfl fun node prev =>
      meets_edited rfl (leads_qmDoor rfl _ _)) (ends_thrown _) False.elim
  | dockerWriteFile vmid container input =>
    refine (ignores_refuse _ _).meets_bind (fun _ => ?_) (ends_thrown _) False.elim
    exact (ignores_checkPath _).meets_bind (fun _ => meets_readDockerPrev rfl
      fun inspect viaBindMount prev => meets_writeResolved (leads_dockerDoor rfl _ _ _)
        (untouched_afterRead prev) rfl) (ends_thrown _) False.elim
  | dockerEditFile vmid container input =>
    refine (ignores_refuse _ _).meets_bind (fun _ => ?_) (ends_thrown _) False.elim
    exact (ignores_checkPath _).meets_bind (fun _ => meets_readDockerPrev rfl
      fun inspect viaBindMount prev => meets_edited rfl (leads_dockerDoor rfl _ _ _)) (ends_thrown _)
      False.elim

end

end Watch

/-- Whatever is answered, each call of a run keeps to the rules, and the run ends as a
preview, as a write on record, or in an error before any write was answered to have gone
through. -/
theorem careful_writes (rt : Runtime) (cfg : WriteConfig) (hasHistory : Bool) (r : WriteRequest)
    (w : Nat → (c : ToolCall WriteCall) → ToolAnswer WriteResult c) :
    (Watch.monitor rt cfg r).Allows .start (run w 0 (r.handler rt cfg hasHistory)).1 ∧
      Watch.Ends r ((Watch.monitor rt cfg r).after .start (run w 0 (r.handler rt cfg hasHistory)).1)
        (run w 0 (r.handler rt cfg hasHistory)).2 :=
  (Watch.meets_handler rt cfg hasHistory r).run w 0

end HomelabMcp.Tools
