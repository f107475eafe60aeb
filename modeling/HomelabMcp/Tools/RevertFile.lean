import HomelabMcp.Guardrails.PathValidation
import HomelabMcp.Tools.PctFiles
import HomelabMcp.Tools.Session

/-!
# Reverting a file (revertFile.ts)

The operations of `revert_file` are the helpers of pctFiles.ts, qmFiles.ts and
dockerFiles.ts and the methods of the transport, the backup store and the history,
each of which may throw. The diff that goes into the audit database beside the
record is left out.
-/

namespace HomelabMcp.Tools

open SlashPath Text Backup Integrity Audit Guardrails Program

/-- dockerHelpers.ts:109, the fields that are read. -/
structure DockerMount where
  type : Str
  destination : Str
  deriving DecidableEq

/-- dockerHelpers.ts:116. -/
structure DockerInspect where
  id : Str
  mounts : List DockerMount
  deriving DecidableEq

/-- A listed version, as far as it is read. -/
structure ListedVersion where
  backupPath : Str
  revertible : Bool
  deriving DecidableEq

inductive RevertCall
  | listBackupsForPath (target : BackupTarget)
  | readBackupTarget (backupPath : Str)
  | restore (backupPath : Str) (currentContent : Option Bytes)
  /-- `gzipBuffer` and `storeBackup` of the content that is overwritten. -/
  | storeBackup (target : BackupTarget) (content : Bytes)
  | assertContainerRunning (vmid : Nat)
  | pullContainerFile (vmid : Nat) (path : Str)
  | statContainerPerms (vmid : Nat) (path : Str)
  | pushContainerFile (vmid : Nat) (path : Str) (content : Bytes) (perms : GuestPerms)
  | assertAgentAvailable (vmid : Nat)
  | resolveNodeName
  | readVmFile (node : Str) (vmid : Nat) (path : Str)
  | writeVmFile (node : Str) (vmid : Nat) (path : Str) (content : Bytes)
  | resolveDockerContainer (vmid : Nat) (container : Str)
  | readDockerFile (vmid : Nat) (container path : Str) (inspect : DockerInspect)
  | statDockerPerms (vmid : Nat) (container path : Str)
  | writeDockerFile (vmid : Nat) (container path : Str) (content : Bytes)
      (inspect : DockerInspect) (prevPerms : Option GuestPerms) (newFile : GuestPerms)
  | readFile (path : Str)
  | writeFile (path : Str) (content : Bytes)
  | recordMutation (target : BackupTarget) (content : Bytes)

@[reducible] def RevertResult : RevertCall → Type
  | .listBackupsForPath _ => List ListedVersion
  | .readBackupTarget _ => BackupTarget
  | .restore _ _ | .pullContainerFile _ _ | .readVmFile _ _ _ | .readDockerFile _ _ _ _ =>
    Option Bytes
  | .statContainerPerms _ _ | .statDockerPerms _ _ _ => Option GuestPerms
  | .resolveNodeName => Str
  | .resolveDockerContainer _ _ => DockerInspect
  | .readFile _ => Bytes
  | .recordMutation _ _ => Bool
  | .storeBackup _ _ | .assertContainerRunning _ | .pushContainerFile _ _ _ _
  | .assertAgentAvailable _ | .writeVmFile _ _ _ _ | .writeDockerFile _ _ _ _ _ _ _
  | .writeFile _ _ => Unit

abbrev RevertTool := Tool RevertResult

def revertOp (c : RevertCall) : RevertTool (RevertResult c) :=
  perform c

/-- The configuration that `revert_file` reads. -/
structure RevertConfig where
  host : Str
  pathAllowlist : Option (List Str)
  pathDenylist : List Str
  /-- `newFileMode`, `newFileUid` and `newFileGid` (config.ts:143). -/
  newFile : GuestPerms

structure RevertFileInput where
  backupPath : Option Str
  path : Option Str
  vmid : Option Nat
  container : Option Str
  overrideCircuitBreaker : Bool

structure RevertFileResult where
  restoredFrom : Str
  bytes : Nat
  vmid : Option Nat

/-! ## Which backup, and where it belongs -/

/-- revertFile.ts:85: the newest version that has content. -/
def latestBackup (input : RevertFileInput) (path : Str) : RevertTool (Str × BackupTarget) := do
  let target ← orThrow ((targetFromInput path input.vmid input.container).elim
    (.error ("\x60container\x60 requires \x60vmid\x60 (a Docker target is addressed by vmid + " ++
      "container).").toList) .ok)
  let versions ← revertOp (.listBackupsForPath target)
  match versions.find? fun v => v.revertible with
  | some chosen => pure (chosen.backupPath, target)
  | none =>
    throw (if versions = [] then
      "No backups found for ".toList ++ targetKeyString target ++ ['.']
    else
      "No revertible (content-bearing) backup found for ".toList ++ targetKeyString target ++
        " — the versions are metadata-only.".toList)

/-- revertFile.ts:104: a blob without metadata goes to the host path that is given. -/
def targetOfBackup (backupPath : Str) (path : Option Str) : RevertTool BackupTarget := do
  let answer ← ask (ToolCall.op (RevertCall.readBackupTarget backupPath))
  let target ← match answer with
    | .ok target => pure target
    | .error _ =>
      match path with
      | none | some [] =>
        throw ("Backup metadata not found and no path supplied; cannot determine the restore " ++
          "target").toList
      | some p => pure (BackupTarget.onHost p)
  match path with
  | some p =>
    if p ≠ target.remotePath then
      throw ("Path mismatch: supplied \"".toList ++ p ++ "\" does not match backup target \"".toList ++
        target.remotePath ++ "\"".toList)
    else pure target
  | none => pure target

/-- revertFile.ts:80. -/
def resolveBackup (input : RevertFileInput) : RevertTool (Str × BackupTarget) :=
  match input.backupPath, input.path with
  | some backupPath, path => do
    let target ← targetOfBackup backupPath path
    pure (backupPath, target)
  | none, none | none, some [] =>
    throw ("Provide either \x60backupPath\x60, or \x60path\x60 (+vmid/container) to revert the " ++
      "latest backup for that file.").toList
  | none, some path => latestBackup input path

/-! ## Reading and writing the target -/

/-- What is found at the target, and what is needed to write there. -/
inductive Located
  | host
  | pct (vmid : Nat)
  | qm (vmid : Nat) (node : Str)
  | docker (vmid : Nat) (container : Str) (inspect : DockerInspect)

/-- revertFile.ts:180. -/
def readTarget (target : BackupTarget) : RevertTool (Located × Option Bytes) :=
  match target.kind with
  | .pct =>
    match target.vmid with
    | none => throw "Container backup is missing its vmid; cannot route revert".toList
    | some vmid => do
      let _ ← revertOp (.assertContainerRunning vmid)
      let content ← revertOp (.pullContainerFile vmid target.remotePath)
      pure (.pct vmid, content)
  | .qm =>
    match target.vmid with
    | none => throw "VM backup is missing its vmid; cannot route revert".toList
    | some vmid => do
      let _ ← revertOp (.assertAgentAvailable vmid)
      let node ← revertOp .resolveNodeName
      let content ← revertOp (.readVmFile node vmid target.remotePath)
      pure (.qm vmid node, content)
  | .docker =>
    match target.vmid, target.container with
    | none, _ | _, none | _, some [] =>
      throw "Docker backup is missing its vmid/container; cannot route revert".toList
    | some vmid, some container => do
      let _ ← revertOp (.assertContainerRunning vmid)
      let inspect ← revertOp (.resolveDockerContainer vmid container)
      let content ← revertOp (.readDockerFile vmid container target.remotePath inspect)
      pure (.docker vmid container inspect, content)
  | .host => do
    -- The file may not exist.
    let answer ← ask (ToolCall.op (RevertCall.readFile target.remotePath))
    match answer with
    | .ok content => pure (.host, some content)
    | .error _ => pure (.host, none)

/-- The path is on a bind mount, whose files are the LXC's own (revertFile.ts:295). -/
def onBindMount (inspect : DockerInspect) (path : Str) : Bool :=
  inspect.mounts.any fun m => m.type == "bind".toList &&
    (path == m.destination ||
      ((m.destination.reverse.dropWhile fun c => c == '/').reverse ++ ['/']).isPrefixOf path)

/-- revertFile.ts:269. -/
def writeTarget (cfg : RevertConfig) (path : Str) (content : Bytes) : Located → RevertTool Unit
  | .host => revertOp (.writeFile path content)
  | .pct vmid => do
    let perms ← revertOp (.statContainerPerms vmid path)
    revertOp (.pushContainerFile vmid path content (perms.getD cfg.newFile))
  | .qm vmid node => revertOp (.writeVmFile node vmid path content)
  | .docker vmid container inspect => do
    let prevPerms ← if onBindMount inspect path then pure none
      else revertOp (.statDockerPerms vmid container path)
    revertOp (.writeDockerFile vmid container path content inspect prevPerms cfg.newFile)

/-! ## The handler -/

variable (sha256 : Bytes → Bytes)

/-- The vmid that the records name. -/
def recordedVmid (target : BackupTarget) : Option Nat :=
  if target.kind = .host then none else target.vmid

/-- The record of revertFile.ts:325. -/
def revertRecord (cfg : RevertConfig) (input : RevertFileInput) (backupPath : Str)
    (target : BackupTarget) (located : Located) (current : Option Bytes) (restored : Bytes)
    (committed : Option Bool) : AuditFields where
  tool := .revertFile
  host := some cfg.host
  vmid := recordedVmid target
  container := match located with
    | .docker _ _ _ => target.container
    | _ => none
  containerId := match located with
    | .docker _ _ inspect => if inspect.id = [] then none else some inspect.id
    | _ => none
  path := some target.remotePath
  prevSha256 := current.map fun content => hashHex (sha256 content)
  newSha256 := some (hashHex (sha256 restored))
  bytes := some restored.length
  beforeHash := current.map (contentLeafHash sha256)
  afterHash := some (contentLeafHash sha256 restored)
  hashScope := some target.remotePath
  circuitBreakerOverridden := if input.overrideCircuitBreaker then some true else none
  historyCommitted := committed
  note := some ("Reverted from backup: ".toList ++ backupPath)

/-- The record of a revert that failed (revertFile.ts:388). -/
def revertFailure (cfg : RevertConfig) (input : RevertFileInput) (backupPath : Str)
    (target : BackupTarget) (message : Str) : AuditFields where
  tool := .revertFile
  host := some cfg.host
  vmid := recordedVmid target
  container := if target.kind = .docker then target.container else none
  path := some target.remotePath
  failed := some true
  circuitBreakerOverridden := if input.overrideCircuitBreaker then some true else none
  note := some ("revert_file failed for ".toList ++ backupPath ++ ": ".toList ++ message)

/-- The content to restore, once what it replaces has been stored: a failure to
store that does not stop the revert (revertFile.ts:242). -/
def restoredContent (backupPath : Str) (target : BackupTarget) (current : Option Bytes) :
    RevertTool Bytes := do
  let restored ← revertOp (.restore backupPath current)
  match restored with
  | none => throw "Backup is metadata-only — no content stored, cannot revert".toList
  | some content =>
    if let some old := current then
      let _ ← ask (ToolCall.op (RevertCall.storeBackup target old))
    pure content

/-- revertFile.ts:167, what is done before the record is appended. -/
def revertTarget (cfg : RevertConfig) (hasHistory : Bool) (backupPath : Str)
    (target : BackupTarget) : RevertTool (Located × Option Bytes × Bytes × Option Bool) := do
  let (located, current) ← readTarget target
  let restored ← restoredContent backupPath target current
  writeTarget cfg target.remotePath restored located
  if hasHistory then
    let committed ← revertOp (.recordMutation target restored)
    pure (located, current, restored, some committed)
  else pure (located, current, restored, none)

/-- revertFile.ts:70; `hasHistory` and `hasBreaker`: these were injected. -/
def revertFileHandler (cfg : RevertConfig) (hasHistory hasBreaker : Bool)
    (input : RevertFileInput) : RevertTool RevertFileResult := do
  let (backupPath, target) ← resolveBackup input
  match validatePath target.remotePath cfg.pathAllowlist (some cfg.pathDenylist) with
  | some reason => throw ("Invalid path: ".toList ++ reason)
  | none =>
    breakerGate (hasBreaker && !input.overrideCircuitBreaker) (rollbackTargetKey (.file target))
      { tool := .revertFile, host := some cfg.host, vmid := recordedVmid target
        path := some target.remotePath }
    tryCatch
      (do
        let (located, current, restored, committed) ←
          revertTarget cfg hasHistory backupPath target
        append (revertRecord sha256 cfg input backupPath target located current restored committed)
        pure { restoredFrom := backupPath, bytes := restored.length
               vmid := recordedVmid target })
      fun message => do
        append (revertFailure cfg input backupPath target message)
        throw message

end HomelabMcp.Tools
