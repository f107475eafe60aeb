import HomelabMcp.Backup.Managed
import HomelabMcp.Backup.TargetKeys
import HomelabMcp.Guardrails.WriteGuards
import HomelabMcp.Tools.EditString
import HomelabMcp.Tools.RevertFile
import HomelabMcp.Tools.UnifiedDiff

/-!
# Writing files (writeFile.ts, pctWriteFile.ts, qmWriteFile.ts, dockerWriteFile.ts)

A write goes through a pipeline of guards, backup, write and audit. The host, a
container, a VM and a Docker container have a pipeline each, of the same steps: a
`Door` is what tells them apart. The edit tools come in by the same doors. The diff
that goes into the audit database beside the record is left out, and `content` is what
`Buffer.from(content, encoding)` gives.
-/

namespace HomelabMcp.Tools

open SlashPath Text Backup Integrity Audit Guardrails Program EditString

/-- What the pipelines ask of the store, the transport, the helpers of the guests and
the history. -/
inductive WriteCall
  | latestBaseHash (target : BackupTarget)
  | buildExistingHashMap
  | checkDiskPressure
  | storeBackup (target : BackupTarget) (kind : BackupKind) (newHash : Str)
  | readFile (path : Str)
  | writeFile (path : Str) (content : Bytes)
  | assertContainerRunning (vmid : Nat)
  | pullContainerFile (vmid : Nat) (path : Str)
  | statContainerPerms (vmid : Nat) (path : Str)
  | pushContainerFile (vmid : Nat) (path : Str) (content : Bytes) (perms : GuestPerms)
  | assertAgentAvailable (vmid : Nat)
  | resolveNodeName
  | readVmFile (node : Str) (vmid : Nat) (path : Str)
  | writeVmFile (node : Str) (vmid : Nat) (path : Str) (content : Bytes)
  | resolveDockerContainer (vmid : Nat) (container : Str)
  | readDockerFile (vmid : Nat) (container path : Str) (inspect : DockerInspect)
  | statDockerPerms (vmid : Nat) (container path : Str)
  | writeDockerFile (vmid : Nat) (container path : Str) (content : Bytes)
      (inspect : DockerInspect) (prevPerms : Option GuestPerms) (newFile : GuestPerms)
  | recordMutation (target : BackupTarget) (content : Bytes)

/-- `readDockerFile` also says whether the path is on a bind mount, and
`writeDockerFile` whether it was, with a note. -/
@[reducible] def WriteResult : WriteCall → Type
  | .latestBaseHash _ => Option Str
  | .buildExistingHashMap => List (Str × BackupPath)
  | .checkDiskPressure | .recordMutation _ _ => Bool
  | .storeBackup _ _ _ => BackupResult
  | .readFile _ => Bytes
  | .pullContainerFile _ _ | .readVmFile _ _ _ => Option Bytes
  | .readDockerFile _ _ _ _ => Option Bytes × Bool
  | .statContainerPerms _ _ | .statDockerPerms _ _ _ => Option GuestPerms
  | .resolveNodeName => Str
  | .resolveDockerContainer _ _ => DockerInspect
  | .writeDockerFile _ _ _ _ _ _ _ => Bool × Option Str
  | .writeFile _ _ | .assertContainerRunning _ | .pushContainerFile _ _ _ _
  | .assertAgentAvailable _ | .writeVmFile _ _ _ _ => Unit

abbrev WriteTool := Tool WriteResult

def writeOp (c : WriteCall) : WriteTool (WriteResult c) :=
  perform c

/-- The configuration that the pipelines read. -/
structure WriteConfig where
  host : Str
  pathAllowlist : Option (List Str)
  pathDenylist : List Str
  backup : BackupConfig
  /-- `newFileMode`, `newFileUid` and `newFileGid` (config.ts:143). -/
  newFile : GuestPerms
  dryRunDiffMaxLines : Nat
  qmWriteMaxBytes : Nat

/-- What was in the file, read once (writeFile.ts:54). -/
structure Prev where
  prevContent : Option Bytes
  prevHash : Option Str
  isNewFile : Bool

/-- writeFile.ts:29, with the note of dockerWriteFile.ts:38. -/
structure WriteFileResult where
  backupPath : Option BackupPath
  revertible : Bool
  newFile : Bool
  diff : Option Str
  diffTruncated : Option Bool
  note : Option Str

/-- writeFile.ts:40. -/
structure WriteFileDryRunResult where
  isNewFile : Bool
  kind : ResultKind
  largeChangeReason : Option Str
  prevBytes : Nat
  newBytes : Nat
  diff : Option Str
  diffTruncated : Option Bool
  note : Option Str

inductive WriteOutcome
  | written (result : WriteFileResult)
  | preview (result : WriteFileDryRunResult)

/-! ## The steps -/

section
variable (rt : Runtime)

/-- What a read has shown (writeFile.ts:69, pctWriteFile.ts:92). -/
def prevOf (content : Option Bytes) : Prev :=
  ⟨content, content.map (contentHash rt), content.isNone⟩

/-- writeFile.ts:124. -/
def writeDiff (cfg : WriteConfig) (prev : Prev) (newContent : Bytes) :
    Option UnifiedDiff.UnifiedDiffResult :=
  if isTextContent newContent ∧ (prev.isNewFile ∨ (prev.prevContent.map isTextContent).getD false) then
    some (UnifiedDiff.computeUnifiedDiff ((prev.prevContent.map Utf8.decode).getD [])
      (Utf8.decode newContent) cfg.dryRunDiffMaxLines)
  else none

/-- writeFile.ts:138 and 172. -/
def pipelineInput (cfg : WriteConfig) (prev : Prev) (newContent : Bytes)
    (existing : List (Str × BackupPath)) (chainBaseHash : Option Str) : BackupPolicyInput where
  newContent := newContent
  prevContent := prev.prevContent
  prevHash := prev.prevHash
  isText := isTextContent newContent
  largeFileBytesThreshold := cfg.backup.largeFileBytesThreshold
  largeFilePolicy := cfg.backup.largeFilePolicy
  existingHashToPaths := existing
  chainBaseHash := chainBaseHash

def BackupKind.type : BackupKind → ResultKind
  | .dedup _ => .dedup
  | .gzipDiff _ _ => .gzipDiff
  | .gzipFull _ _ => .gzipFull
  | .metadataOnly => .metadataOnly

/-- What tells the pipelines apart. -/
structure Door where
  target : BackupTarget
  /-- The fields of the record that say which tool wrote where. -/
  base : AuditFields
  /-- The guest agent takes no larger file (qmWriteFile.ts:124). -/
  maxBytes : Option Nat
  /-- What is looked up before the backup. -/
  prepare : Bool → WriteTool (Option GuestPerms)
  /-- The write, with a note about it. -/
  put : Bool → Bytes → Option GuestPerms → WriteTool (Option Str)
  /-- What the record says of the history. -/
  capture : Bytes → WriteTool (Option Bool)

def refuse (condition : Bool) (message : Str) : WriteTool Unit :=
  if condition then throw message else pure ()

/-- qmWriteFile.ts:126. -/
def overCapText (size maxBytes : Nat) : Str :=
  "Content is ".toList ++ numeral size ++ " bytes, over the ".toList ++ numeral maxBytes ++
    "-byte guest-agent write cap. Use qm_exec for larger in-guest edits.".toList

/-- qmWriteFile.ts:124; the other doors have no cap. -/
def refuseOverCap (maxBytes : Option Nat) (size : Nat) : WriteTool Unit :=
  match maxBytes with
  | some cap => refuse (decide (size > cap)) (overCapText size cap)
  | none => pure ()

/-- writeFile.ts:164. -/
def refuseUnderPressure (cfg : WriteConfig) : WriteTool Unit := do
  let pressed ← writeOp .checkDiskPressure
  refuse (pressed && decide (cfg.backup.diskPressureFailSafe = .refuse))
    "Backup storage is over cap; write refused by disk-pressure fail-safe".toList

/-- dockerWriteFile.ts:278; a door without a note gives the reason alone. -/
def joinNotes (reason note : Option Str) : Option Str :=
  match reason, note.filter (· ≠ []) with
  | some r, some n => some (r ++ "; ".toList ++ n)
  | some r, none => some r
  | none, n => n

/-- The record of a write (writeFile.ts:193). -/
def writeRecord (cfg : WriteConfig) (door : Door) (prev : Prev) (newContent : Bytes)
    (backup : BackupResult) (note : Option Str) (committed : Option Bool) : AuditFields :=
  let reason := detectLargeFileWrite newContent.length prev.isNewFile
    cfg.backup.largeFileBytesThreshold
  { door.base with
    path := some door.target.remotePath
    prevBackup := (backup.backupPath.or backup.existingPath).map (BackupPath.text cfg.backup.baseDir)
    prevSha256 := prev.prevHash
    newSha256 := some (contentHash rt newContent)
    bytes := some newContent.length
    beforeHash := prev.prevContent.map (contentLeafHash rt.sha256)
    afterHash := some (contentLeafHash rt.sha256 newContent)
    hashScope := some door.target.remotePath
    isLargeChange := some reason.isSome
    isRevertible := some backup.revertible
    historyCommitted := committed
    note := joinNotes reason note }

/-- writeFile.ts:149. -/
def previewOf (cfg : WriteConfig) (prev : Prev) (newContent : Bytes) (kind : BackupKind) :
    WriteFileDryRunResult where
  isNewFile := prev.isNewFile
  kind := BackupKind.type kind
  largeChangeReason := detectLargeFileWrite newContent.length prev.isNewFile
    cfg.backup.largeFileBytesThreshold
  prevBytes := (prev.prevContent.map List.length).getD 0
  newBytes := newContent.length
  diff := (writeDiff cfg prev newContent).map UnifiedDiff.UnifiedDiffResult.diff
  diffTruncated := (writeDiff cfg prev newContent).map UnifiedDiff.UnifiedDiffResult.truncated
  note := if (writeDiff cfg prev newContent).isSome then none
    else some "binary content — diff omitted".toList

/-- The dry run: no write, no backup, no audit (writeFile.ts:136). -/
def previewWrite (cfg : WriteConfig) (prev : Prev) (newContent : Bytes)
    (chainBaseHash : Option Str) : WriteTool WriteOutcome := do
  let existing ← writeOp .buildExistingHashMap
  let kind := selectBackupKind rt (pipelineInput cfg prev newContent existing chainBaseHash)
  pure (.preview (previewOf cfg prev newContent kind))

/-- Backup, write and audit (writeFile.ts:164). -/
def commitWrite (cfg : WriteConfig) (door : Door) (prev : Prev) (newContent : Bytes)
    (chainBaseHash : Option Str) : WriteTool WriteOutcome := do
  refuseUnderPressure cfg
  let perms ← door.prepare prev.isNewFile
  let existing ← writeOp .buildExistingHashMap
  let kind := selectBackupKind rt (pipelineInput cfg prev newContent existing chainBaseHash)
  let backup ← writeOp (.storeBackup door.target kind (contentHash rt newContent))
  let note ← door.put prev.isNewFile newContent perms
  let committed ← door.capture newContent
  append (writeRecord rt cfg door prev newContent backup note committed)
  pure (.written
    { backupPath := backup.backupPath.or backup.existingPath
      revertible := backup.revertible
      newFile := prev.isNewFile
      diff := (writeDiff cfg prev newContent).map UnifiedDiff.UnifiedDiffResult.diff
      diffTruncated := (writeDiff cfg prev newContent).map UnifiedDiff.UnifiedDiffResult.truncated
      note := note })

/-- The pipeline after the read (writeFile.ts:100, pctWriteFile.ts:119). -/
def writeResolved (cfg : WriteConfig) (door : Door) (dryRun : Bool) (prev : Prev)
    (newContent : Bytes) : WriteTool WriteOutcome := do
  refuse (introducesRedactionMarker (prev.prevContent.map Utf8.decode) (Utf8.decode newContent))
    REDACTION_MARKER_WRITE_REFUSAL
  let chainBaseHash ← writeOp (.latestBaseHash door.target)
  refuseOverCap door.maxBytes newContent.length
  if dryRun then previewWrite rt cfg prev newContent chainBaseHash
  else commitWrite rt cfg door prev newContent chainBaseHash

/-! ## The doors -/

/-- history/configHistory.ts:105: what is thrown in it is caught, and it answers false. -/
def recordMutation (target : BackupTarget) (content : Bytes) : WriteTool Bool :=
  tryCatch (writeOp (.recordMutation target content)) fun _ => pure false

def capture (hasHistory : Bool) (target : BackupTarget) (content : Bytes) :
    WriteTool (Option Bool) :=
  if hasHistory then do
    let committed ← recordMutation target content
    pure (some committed)
  else pure none

/-- writeFile.ts:100. -/
def hostDoor (cfg : WriteConfig) (tool : Audit.AuditTool) (hasHistory rootTier : Bool)
    (path : Str) : Door where
  target := .onHost path
  base := { tool, host := some cfg.host, rootTier := if rootTier then some true else none }
  maxBytes := none
  prepare _ := pure none
  put _ content _ := do
    writeOp (.writeFile path content)
    pure none
  capture := capture hasHistory (.onHost path)

/-- The permissions that a file of a container keeps (pctWriteFile.ts:207). -/
def keptPerms (isNewFile : Bool) (vmid : Nat) (path : Str) : WriteTool (Option GuestPerms) :=
  if isNewFile then pure none else writeOp (.statContainerPerms vmid path)

/-- pctWriteFile.ts:119. -/
def pctDoor (cfg : WriteConfig) (tool : Audit.AuditTool) (hasHistory : Bool) (vmid : Nat)
    (path : Str) : Door where
  target := ⟨.pct, some vmid, none, path⟩
  base := { tool, host := some cfg.host, vmid := some vmid }
  maxBytes := none
  prepare _ := pure none
  put isNewFile content _ := do
    let perms ← keptPerms isNewFile vmid path
    writeOp (.pushContainerFile vmid path content (perms.getD cfg.newFile))
    pure none
  capture := capture hasHistory ⟨.pct, some vmid, none, path⟩

/-- qmWriteFile.ts:108; a VM has no place in the mirror. -/
def qmDoor (cfg : WriteConfig) (tool : Audit.AuditTool) (node : Str) (vmid : Nat) (path : Str) :
    Door where
  target := ⟨.qm, some vmid, none, path⟩
  base := { tool, host := some cfg.host, vmid := some vmid }
  maxBytes := some cfg.qmWriteMaxBytes
  prepare _ := pure none
  put _ content _ := do
    writeOp (.writeVmFile node vmid path content)
    pure none
  capture _ := pure none

/-- dockerWriteFile.ts:154. -/
def dockerDoor (cfg : WriteConfig) (tool : Audit.AuditTool) (inspect : DockerInspect)
    (viaBindMount : Bool) (vmid : Nat) (container path : Str) : Door where
  target := ⟨.docker, some vmid, some container, path⟩
  base := { tool, host := some cfg.host, vmid := some vmid, container := some container
            containerId := if inspect.id = [] then none else some inspect.id }
  maxBytes := none
  prepare isNewFile :=
    if viaBindMount || isNewFile then pure none
    else writeOp (.statDockerPerms vmid container path)
  put _ content perms := do
    let written ← writeOp (.writeDockerFile vmid container path content inspect perms cfg.newFile)
    pure written.2
  capture _ := pure (some false)

/-! ## The handlers -/

structure WriteFileInput where
  path : Str
  content : Bytes
  dryRun : Bool

/-- An edit, and whether it is only a preview (editFile.ts:25). -/
structure EditInput extends EditFileInput where
  dryRun : Bool

def checkPath (cfg : WriteConfig) (path : Str) : WriteTool Unit :=
  match validatePath path cfg.pathAllowlist (some cfg.pathDenylist) with
  | some reason => throw ("Invalid path: ".toList ++ reason)
  | none => pure ()

/-- dockerHelpers.ts:28. -/
def assertDockerName (name : Str) : WriteTool Unit :=
  refuse (!validateDockerName name)
    ("Invalid Docker container name: ".toList ++ (Json.str name).stringify ++
      (". Names must match /^[a-zA-Z0-9][a-zA-Z0-9_.-]*$/ (Docker's own charset).").toList)

/-- writeFile.ts:66: a file that cannot be read counts as new. -/
def readHostPrev (path : Str) : WriteTool Prev := do
  let answer ← ask (ToolCall.op (WriteCall.readFile path))
  match answer with
  | .ok content => pure (prevOf rt (some content))
  | .error _ => pure (prevOf rt none)

/-- pctWriteFile.ts:76. -/
def readPctPrev (vmid : Nat) (path : Str) : WriteTool Prev := do
  let _ ← writeOp (.assertContainerRunning vmid)
  let content ← writeOp (.pullContainerFile vmid path)
  pure (prevOf rt content)

/-- qmWriteFile.ts:68. -/
def readQmPrev (vmid : Nat) (path : Str) : WriteTool (Str × Prev) := do
  let _ ← writeOp (.assertAgentAvailable vmid)
  let node ← writeOp .resolveNodeName
  let content ← writeOp (.readVmFile node vmid path)
  pure (node, prevOf rt content)

/-- dockerWriteFile.ts:104. -/
def readDockerPrev (vmid : Nat) (container path : Str) :
    WriteTool (DockerInspect × Bool × Prev) := do
  let _ ← writeOp (.assertContainerRunning vmid)
  let inspect ← writeOp (.resolveDockerContainer vmid container)
  let found ← writeOp (.readDockerFile vmid container path inspect)
  pure (inspect, found.2, prevOf rt found.1)

/-- pctEditFile.ts:60, with the words of each tool. -/
def editedContent (tool missing writer : Str) (input : EditFileInput) (prevContent : Option Bytes) :
    Except Str Bytes :=
  match prevContent with
  | none => .error (tool ++ ": ".toList ++ input.path ++ missing)
  | some prev =>
    if isTextContent prev = false then
      .error (tool ++ ": ".toList ++ input.path ++ " is binary (or non-UTF-8). Use ".toList ++
        writer ++ " for binary content.".toList)
    else
      match applyStringEdit
        ⟨codeUnits (Utf8.decode prev), input.oldString, input.newString, input.replaceAll⟩ with
      | .failed reason count => .error (tool ++ ": ".toList ++ editFailureMessage reason count)
      | .ok next _ => .ok (Utf8.encode (fromUnits next))

def pctEditContent (vmid : Nat) : EditFileInput → Option Bytes → Except Str Bytes :=
  editedContent "pct_edit_file".toList
    (" does not exist in container ".toList ++ numeral vmid ++
      ". Use pct_write_file to create it.".toList) "pct_write_file".toList

def qmEditContent (vmid : Nat) : EditFileInput → Option Bytes → Except Str Bytes :=
  editedContent "qm_edit_file".toList
    (" does not exist in VM ".toList ++ numeral vmid ++ ". Use qm_write_file to create it.".toList)
    "qm_write_file".toList

def dockerEditContent (vmid : Nat) (container : Str) :
    EditFileInput → Option Bytes → Except Str Bytes :=
  editedContent "docker_edit_file".toList
    (" does not exist in container ".toList ++ container ++ " (LXC ".toList ++ numeral vmid ++
      "). Use docker_write_file to create it.".toList) "docker_write_file".toList

variable (cfg : WriteConfig)

/-- writeFile.ts:242. -/
def writeFileHandler (hasHistory rootTier : Bool) (input : WriteFileInput) :
    WriteTool WriteOutcome := do
  checkPath cfg input.path
  let prev ← readHostPrev rt input.path
  writeResolved rt cfg (hostDoor cfg .writeFile hasHistory rootTier input.path) input.dryRun prev
    input.content

/-- editFile.ts:42. -/
def editFileHandler (hasHistory rootTier : Bool) (input : EditInput) :
    WriteTool WriteOutcome := do
  checkPath cfg input.path
  let prev ← readHostPrev rt input.path
  let newContent ← orThrow (editFileContent input.toEditFileInput prev.prevContent)
  writeResolved rt cfg (hostDoor cfg .editFile hasHistory rootTier input.path) input.dryRun prev
    newContent

/-- pctWriteFile.ts:277. -/
def pctWriteFileHandler (hasHistory : Bool) (vmid : Nat) (input : WriteFileInput) :
    WriteTool WriteOutcome := do
  checkPath cfg input.path
  let prev ← readPctPrev rt vmid input.path
  writeResolved rt cfg (pctDoor cfg .pctWriteFile hasHistory vmid input.path) input.dryRun prev
    input.content

/-- pctEditFile.ts:41. -/
def pctEditFileHandler (hasHistory : Bool) (vmid : Nat) (input : EditInput) :
    WriteTool WriteOutcome := do
  checkPath cfg input.path
  let prev ← readPctPrev rt vmid input.path
  let newContent ← orThrow (pctEditContent vmid input.toEditFileInput prev.prevContent)
  writeResolved rt cfg (pctDoor cfg .pctEditFile hasHistory vmid input.path) input.dryRun prev
    newContent

/-- qmWriteFile.ts:253: the cap is checked before the guest is asked, too. -/
def qmWriteFileHandler (vmid : Nat) (input : WriteFileInput) : WriteTool WriteOutcome := do
  checkPath cfg input.path
  refuseOverCap (some cfg.qmWriteMaxBytes) input.content.length
  let (node, prev) ← readQmPrev rt vmid input.path
  writeResolved rt cfg (qmDoor cfg .qmWriteFile node vmid input.path) input.dryRun prev
    input.content

/-- qmEditFile.ts:41. -/
def qmEditFileHandler (vmid : Nat) (input : EditInput) : WriteTool WriteOutcome := do
  checkPath cfg input.path
  let (node, prev) ← readQmPrev rt vmid input.path
  let newContent ← orThrow (qmEditContent vmid input.toEditFileInput prev.prevContent)
  writeResolved rt cfg (qmDoor cfg .qmEditFile node vmid input.path) input.dryRun prev newContent

/-- dockerWriteFile.ts:310. -/
def dockerWriteFileHandler (vmid : Nat) (container : Str) (input : WriteFileInput) :
    WriteTool WriteOutcome := do
  assertDockerName container
  checkPath cfg input.path
  let (inspect, viaBindMount, prev) ← readDockerPrev rt vmid container input.path
  writeResolved rt cfg
    (dockerDoor cfg .dockerWriteFile inspect viaBindMount vmid container input.path) input.dryRun
    prev input.content

/-- dockerEditFile.ts:46. -/
def dockerEditFileHandler (vmid : Nat) (container : Str) (input : EditInput) :
    WriteTool WriteOutcome := do
  assertDockerName container
  checkPath cfg input.path
  let (inspect, viaBindMount, prev) ← readDockerPrev rt vmid container input.path
  let newContent ← orThrow (dockerEditContent vmid container input.toEditFileInput prev.prevContent)
  writeResolved rt cfg
    (dockerDoor cfg .dockerEditFile inspect viaBindMount vmid container input.path) input.dryRun
    prev newContent

end

end HomelabMcp.Tools
