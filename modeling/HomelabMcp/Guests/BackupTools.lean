import HomelabMcp.Guests.Backups
import HomelabMcp.Guests.SnapshotTools

/-!
# Outcome-level rollback tools (backupTools.ts)

`guest_backup` makes a vzdump archive and retires old ones; `guest_backup_restore`
overwrites a guest from one. The operations of these handlers are the methods of
`NodeOps` (nodeOps.ts:98), each of which may throw.
-/

namespace HomelabMcp.Guests

open SlashPath Text Audit Guardrails Program Tools Shell

/-- nodeOps.ts:83. -/
structure BackupCreateOpts where
  mode : BackupMode
  storage : Str
  notes : Str
  timeoutMs : Nat
  deriving DecidableEq

/-- The methods of `NodeOps` that these tools call. -/
inductive NodeCall
  | listGuests
  | guestStatus (vmid : Nat) (type : NodeGuestType)
  | startGuest (vmid : Nat) (type : NodeGuestType)
  | stopGuest (vmid : Nat) (type : NodeGuestType)
  | storageStatus
  | createBackup (vmid : Nat) (type : NodeGuestType) (opts : BackupCreateOpts)
  | listBackupArchives (storage : Str) (vmid : Nat)
  | restoreBackup (vmid : Nat) (type : NodeGuestType) (volid : Str)
  | deleteBackupArchive (storage volid : Str)
  | taskStatus (upid : Str)
  deriving DecidableEq

/-- nodeOps.ts:19, the fields that these tools read. -/
structure Guest where
  vmid : Nat
  type : NodeGuestType
  deriving DecidableEq

/-- nodeOps.ts:55, the fields that these tools read. -/
structure StorageStatus where
  storage : Str
  availBytes : Option Nat
  deriving DecidableEq

/-- nodeOps.ts:135. -/
structure TaskStatus where
  status : Str
  exitstatus : Option Str
  deriving DecidableEq

/-- What each method resolves to; a `TaskRef` is its `upid`. -/
@[reducible] def NodeResult : NodeCall → Type
  | .listGuests => List Guest
  | .guestStatus _ _ => Str
  | .storageStatus => List StorageStatus
  | .listBackupArchives _ _ => List BackupArchive
  | .taskStatus _ => TaskStatus
  | .startGuest _ _ | .stopGuest _ _ | .createBackup _ _ _ | .restoreBackup _ _ _
  | .deleteBackupArchive _ _ => Str

abbrev BackupCall := ToolCall NodeCall

abbrev BackupAnswer := ToolAnswer NodeResult

abbrev BackupTool := Tool NodeResult

/-- `node.kind`. -/
inductive NodeKind
  | api
  | ssh
  deriving DecidableEq, Repr

def NodeKind.text : NodeKind → Str
  | .api => "api".toList
  | .ssh => "ssh".toList

/-- The node that is injected: its backend, and whether that has `taskStatus`. -/
structure Node where
  kind : NodeKind
  offersTaskStatus : Bool

/-- The configuration that these tools read (config.ts:70). -/
structure BackupToolsConfig where
  host : Str
  nodeBackupStorage : Str
  guestArchivePerGuestCap : Int
  taskPollIntervalMs : Nat
  taskTimeoutMs : Nat

/-! ## Waiting for the task -/

inductive TaskState
  | ok
  | failed
  | pending
  deriving DecidableEq, Repr

def stopped : Str := "stopped".toList

/-- The loop of backupTools.ts:66; a poll that throws is retried. -/
def pollBackupTask (upid : Str) (timeoutMs : Nat) :
    Nat → Option Str → BackupTool (TaskState × Str)
  | 0, lastError =>
    pure (.pending, "still running after ".toList ++ numeral timeoutMs ++ "ms".toList ++
      match lastError with
      | none | some [] => []
      | some e => " (last status poll failed: ".toList ++ e ++ [')'])
  | polls + 1, _ => do
    let answer ← ask (ToolCall.op (NodeCall.taskStatus upid))
    match answer with
    | .ok st =>
      if st.status = stopped then
        let exitstatus := st.exitstatus.getD "unknown".toList
        pure (if exitstatus = "OK".toList then .ok else .failed, exitstatus)
      else pollBackupTask upid timeoutMs polls none
    | .error e => pollBackupTask upid timeoutMs polls (some e)

/-- backupTools.ts:55. -/
def waitForBackupTask (upid : Str) (timeoutMs pollIntervalMs : Nat) :
    BackupTool (TaskState × Str) :=
  let interval := max 1 pollIntervalMs
  let maxPolls := max 1 ((timeoutMs + interval - 1) / interval)
  pollBackupTask upid timeoutMs maxPolls none

/-- backupTools.ts:87. -/
def resolveType (vmid : Nat) : BackupTool NodeGuestType := do
  let guests ← perform (ρ := NodeResult) .listGuests
  match guests.find? fun g => g.vmid == vmid with
  | none => throw ("No guest with vmid ".toList ++ numeral vmid ++ " found on this node.".toList)
  | some g => pure g.type

/-! ## guest_backup -/

/-- `MAX_BACKUP_TIMEOUT_MS`. -/
def maxBackupTimeoutMs : Nat := 6 * 60 * 60 * 1000

structure GuestBackupInput where
  vmid : Nat
  mode : BackupMode
  note : Option Str
  storage : Option Str
  timeoutMs : Option Nat
  evictBeforeCreate : Bool
  confirm : Bool

inductive BackupStatus
  | completed
  | pending
  deriving DecidableEq, Repr

/-- backupTools.ts:135. -/
structure GuestBackupResult where
  vmid : Nat
  guestType : NodeGuestType
  mode : BackupMode
  note : Str
  task : Str
  storage : Str
  status : BackupStatus
  taskStatus : Str
  evicted : List Str
  volid : Option Str
  warnings : List Str
  pendingEviction : List Str := []
  evictionErrors : List Str := []
  nextSteps : List Str := []

/-- `evict` of backupTools.ts:182: what was deleted, and what could not be. -/
def evictArchives (storage : Str) : List Str → BackupTool (List Str × List Str)
  | [] => pure ([], [])
  | volid :: rest => do
    let answer ← ask (ToolCall.op (NodeCall.deleteBackupArchive storage volid))
    let (evicted, errors) ← evictArchives storage rest
    match answer with
    | .ok _ => pure (volid :: evicted, errors)
    | .error e => pure (evicted, (volid ++ ": ".toList ++ e) :: errors)

/-- backupTools.ts:169. -/
def backupUnconfirmed (vmid : Nat) : Str :=
  "Refusing guest_backup on ".toList ++ numeral vmid ++
    (" without confirm: true. vzdump is a heavy, minutes-scale operation, and suspend/stop " ++
      "modes interrupt the guest. Re-issue with confirm: true.").toList

/-- backupTools.ts:218. -/
def noRoom (vmid : Nat) (storage : Str) (avail estimate : Nat) (planned : List Str) : Str :=
  "Refusing guest_backup of ".toList ++ numeral vmid ++ ": storage ".toList ++ quoted storage ++
    " has ".toList ++ formatBytes avail ++ " free, but the last archive of this guest was ".toList ++
    formatBytes estimate ++
    ". The new archive is written BEFORE the old mcp- archive (".toList ++ commaJoin planned ++
    (") is evicted, so the storage must hold one extra archive. Free space on the storage, pick " ++
      "another storage, or re-issue with evictBeforeCreate: true (no rollback point while vzdump " ++
      "runs). Nothing was deleted or created.").toList

/-- Before the archive is made (backupTools.ts:200): the warnings and what the old
order has evicted already. -/
def prepareStorage (collation : Str → List Nat) (cfg : BackupToolsConfig)
    (input : GuestBackupInput) (storage : Str) (before : List ArchiveInfo) :
    BackupTool (List Str × List Str) :=
  let planned := planArchiveEviction collation before cfg.guestArchivePerGuestCap 1
  if input.evictBeforeCreate then do
    let (evicted, errors) ← evictArchives storage planned
    if errors ≠ [] then
      throw ("guest_backup of ".toList ++ numeral input.vmid ++
        ": pre-create eviction failed (".toList ++ joinReasons errors ++
        "); nothing was created.".toList)
    else
      pure (["evictBeforeCreate: the previous mcp- archive was deleted before vzdump ran.".toList],
        evicted)
  else if planned ≠ [] then do
    let answer ← ask (ToolCall.op NodeCall.storageStatus)
    let avail := match answer with
      | .ok statuses => (statuses.find? fun s => s.storage == storage).bind fun s => s.availBytes
      | .error _ => none
    let room := checkBackupHeadroom before avail
    match room.verdict with
    | .insufficient =>
      throw (noRoom input.vmid storage (room.availBytes.getD 0) (room.estimateBytes.getD 0) planned)
    | .unknown =>
      pure (["Could not confirm ".toList ++ quoted storage ++
        (" has room for one extra archive (no size estimate or storage figure); the old mcp- " ++
          "archive is evicted only after the new one succeeds.").toList], [])
    | .ok => pure ([], [])
  else pure ([], [])

/-- `vzdump (mode) of type vmid to storage`. -/
def backupWhat (input : GuestBackupInput) (type : NodeGuestType) (storage : Str) : Str :=
  "vzdump (".toList ++ input.mode.text ++ ") of ".toList ++ type.text ++ ' ' :: numeral input.vmid ++
    " to ".toList ++ storage

/-- The error of a failed backup (backupTools.ts:249, 266). -/
def backupFailure (vmid : Nat) (cause storage : Str) : Str :=
  "guest_backup of ".toList ++ numeral vmid ++ " failed: ".toList ++ cause ++ ['.'] ++
    (match backupFailureHint cause storage with
      | none | some [] => []
      | some hint => ' ' :: hint) ++ " No archive was evicted.".toList

/-- backupTools.ts:303. -/
def pendingNextSteps (vmid : Nat) (upid storage note : Str) (timeoutMs : Nat) : List Str :=
  ["vzdump is still running on the node (UPID ".toList ++ upid ++
      "); this is not a failure.".toList,
    "guest_backup_list \x7b vmid: ".toList ++ numeral vmid ++ ", storage: ".toList ++
      quoted storage ++ " \x7d shows the archive with note ".toList ++ quoted note ++
      " once it finishes.".toList,
    "While it runs the guest carries a backup lock (describe_guest / \x60pct config ".toList ++
      numeral vmid ++ "\x60 shows \"lock: backup\").".toList,
    ("Retention was deferred: the extra mcp- archive is evicted by the next successful " ++
      "guest_backup of this guest.").toList,
    "Next time pass timeoutMs (e.g. ".toList ++ numeral (min maxBackupTimeoutMs (timeoutMs * 2)) ++
      ") to wait it out.".toList]

/-- The archives of a listing that carry the note, newest first (backupTools.ts:326). -/
def mine (note : Str) (after : List ArchiveInfo) : List ArchiveInfo :=
  (after.filter fun a => decide (a.notes.map trim = some note)).insertionSort laterFirst

/-- The re-listing of backupTools.ts:323: the volume id of the new archive, and the
listing it was found in. -/
def findNewArchive (storage : Str) (vmid : Nat) (note : Str) :
    BackupTool (Option Str × List ArchiveInfo) := do
  let answer ← ask (ToolCall.op (NodeCall.listBackupArchives storage vmid))
  match answer with
  | .ok list =>
    let after := list.map toInfo
    pure ((mine note after).head?.map fun a => a.volid, after)
  | .error _ => pure (none, [])

/-- Retention and the audit record (backupTools.ts:333), once the backup is complete. -/
def retireAndRecord (collation : Str → List Nat) (cfg : BackupToolsConfig) (node : Node)
    (input : GuestBackupInput) (type : NodeGuestType) (storage note upid taskStatus : Str)
    (planned evictedBefore warnings : List Str) : BackupTool GuestBackupResult := do
  let (volid, after) ← findNewArchive storage input.vmid note
  let (evicted, errors) ← match volid with
    | some v =>
      evictArchives storage (planPostCreateEviction collation after v cfg.guestArchivePerGuestCap)
    | none => pure ([], [])
  let allEvicted := evictedBefore ++ evicted
  let allWarnings := warnings ++
    if volid = none ∧ !input.evictBeforeCreate ∧ planned ≠ [] then
      ["Could not find the new archive (note ".toList ++ quoted note ++ ") in the ".toList ++
        quoted storage ++ (" listing, so retention was skipped: the old mcp- archive is kept. " ++
          "guest_backup_list shows both.").toList]
    else []
  append {
    tool := .guestBackup, host := some cfg.host, vmid := some input.vmid
    isLargeChange := some true
    note := some (backupWhat input type storage ++ " via ".toList ++ node.kind.text ++
      "; note ".toList ++ quoted note ++
      (match volid with
        | none | some [] => []
        | some v => "; volid ".toList ++ v) ++
      (if allEvicted = [] then [] else "; evicted ".toList ++ commaJoin allEvicted) ++
      (if errors = [] then [] else "; eviction failed for ".toList ++ joinReasons errors)) }
  pure { vmid := input.vmid, guestType := type, mode := input.mode, note, task := upid, storage
         status := .completed, taskStatus, evicted := allEvicted, volid, warnings := allWarnings
         evictionErrors := errors }

/-- A failed backup is audited, and thrown (backupTools.ts:243, 262). -/
def backupFailed (cfg : BackupToolsConfig) (input : GuestBackupInput) (note cause storage : Str) :
    BackupTool GuestBackupResult := do
  append {
    tool := .guestBackup, host := some cfg.host, vmid := some input.vmid
    isLargeChange := some false, failed := some true, note := some note }
  throw (backupFailure input.vmid cause storage)

/-- The outcome is not known: nothing is evicted (backupTools.ts:269). -/
def backupPending (cfg : BackupToolsConfig) (input : GuestBackupInput) (type : NodeGuestType)
    (storage note upid exitstatus : Str) (timeoutMs : Nat) (planned evicted warnings : List Str) :
    BackupTool GuestBackupResult := do
  append {
    tool := .guestBackup, host := some cfg.host, vmid := some input.vmid
    isLargeChange := some true, pending := some true
    note := some (backupWhat input type storage ++ " PENDING: ".toList ++ exitstatus ++
      "; UPID ".toList ++ upid ++ "; note ".toList ++ quoted note ++
      "; retention deferred".toList) }
  pure { vmid := input.vmid, guestType := type, mode := input.mode, note, task := upid, storage
         status := .pending, taskStatus := exitstatus, evicted, volid := none, warnings
         pendingEviction := if input.evictBeforeCreate then [] else planned
         nextSteps := pendingNextSteps input.vmid upid storage note timeoutMs }

/-- backupTools.ts:159. -/
def guestBackupHandler (collation : Str → List Nat) (cfg : BackupToolsConfig) (node : Node)
    (input : GuestBackupInput) (now : Instant) : BackupTool GuestBackupResult :=
  let storage := input.storage.getD cfg.nodeBackupStorage
  let timeoutMs := input.timeoutMs.getD cfg.taskTimeoutMs
  if !input.confirm then throw (backupUnconfirmed input.vmid)
  else if !isStorageName storage then throw (storageNameError storage)
  else do
    let type ← resolveType input.vmid
    let listed ← perform (ρ := NodeResult) (.listBackupArchives storage input.vmid)
    let before := listed.map toInfo
    let planned := planArchiveEviction collation before cfg.guestArchivePerGuestCap 1
    let (warnings, evicted) ← prepareStorage collation cfg input storage before
    let note := generateBackupNote now input.note
    let what := backupWhat input type storage
    let created ← ask (ToolCall.op (NodeCall.createBackup input.vmid type
      ⟨input.mode, storage, note, timeoutMs⟩))
    match created with
    | .error e => backupFailed cfg input (what ++ " FAILED: ".toList ++ e) e storage
    | .ok upid =>
      -- The SSH backend blocks and throws on failure; its answer is final.
      if node.kind = .api ∧ node.offersTaskStatus then
        let (state, exitstatus) ← waitForBackupTask upid timeoutMs cfg.taskPollIntervalMs
        match state with
        | .failed =>
          backupFailed cfg input
            (what ++ " FAILED: ".toList ++ exitstatus ++ "; UPID ".toList ++ upid) exitstatus storage
        | .pending =>
          backupPending cfg input type storage note upid exitstatus timeoutMs planned evicted warnings
        | .ok =>
          retireAndRecord collation cfg node input type storage note upid exitstatus planned evicted
            warnings
      else
        retireAndRecord collation cfg node input type storage note upid "OK".toList planned evicted
          warnings

/-! ## guest_backup_restore -/

structure GuestBackupRestoreInput where
  vmid : Nat
  archive : Str
  confirm : Bool
  stopIfRunning : Bool
  overrideCircuitBreaker : Bool

structure GuestBackupRestoreResult where
  vmid : Nat
  guestType : NodeGuestType
  archive : Str
  restarted : Bool

/-- backupTools.ts:381. -/
def restoreUnconfirmed : Str :=
  ("Refusing guest_backup_restore without confirm: true. A restore REPLACES THE ENTIRE GUEST " ++
    "(disk, config) with the archive's contents — everything since the archive is lost. " ++
    "Re-issue with confirm: true.").toList

/-- backupTools.ts:429. -/
def restoreForeign (archive : Str) : Str :=
  "Refusing to restore from ".toList ++ Json.quote archive ++
    (": only server-managed (mcp-) archives may be restored. Restore a human-made archive " ++
      "manually via the Proxmox UI.").toList

/-- backupTools.ts:437. -/
def restoreRunning (vmid : Nat) : Str :=
  "Guest ".toList ++ numeral vmid ++
    (" is running. Restore requires it stopped. Re-issue with stopIfRunning: true to stop, " ++
      "restore, and restart it.").toList

/-- The record of backupTools.ts:451. -/
def restoreRecord (cfg : BackupToolsConfig) (node : Node) (input : GuestBackupRestoreInput)
    (type : NodeGuestType) (wasRunning : Bool) : AuditFields where
  tool := .guestBackupRestore
  host := some cfg.host
  vmid := some input.vmid
  isLargeChange := some true
  circuitBreakerOverridden := if input.overrideCircuitBreaker then some true else none
  note := some ("Restored ".toList ++ type.text ++ ' ' :: numeral input.vmid ++ " from ".toList ++
    input.archive ++ " via ".toList ++ node.kind.text ++ "; prior run-state: ".toList ++
    (if wasRunning then "running (restarted)" else "stopped").toList ++ ['.'])

/-- The archive to restore, when it exists and is the server's (backupTools.ts:412). -/
def findRestorable (vmid : Nat) (storage archive : Str) (archives : List BackupArchive) :
    Except Str Unit :=
  match archives.find? fun a => a.volid == archive with
  | none =>
    .error ("Archive ".toList ++ Json.quote archive ++ " not found for guest ".toList ++
      numeral vmid ++ " on ".toList ++ storage ++ ['.'])
  | some target =>
    if isMcpArchive target.notes then .ok () else .error (restoreForeign archive)

/-- backupTools.ts:408, behind the breaker. -/
def restoreGuest (cfg : BackupToolsConfig) (node : Node) (input : GuestBackupRestoreInput) :
    BackupTool GuestBackupRestoreResult := do
  let storage ← orThrow (volidStorage input.archive)
  let type ← resolveType input.vmid
  let archives ← perform (ρ := NodeResult) (.listBackupArchives storage input.vmid)
  let _ ← orThrow (findRestorable input.vmid storage input.archive archives)
  let status ← perform (ρ := NodeResult) (.guestStatus input.vmid type)
  let wasRunning := decide (status = running)
  if wasRunning ∧ !input.stopIfRunning then throw (restoreRunning input.vmid)
  else
    if wasRunning then
      let _ ← perform (ρ := NodeResult) (.stopGuest input.vmid type)
    let _ ← perform (ρ := NodeResult) (.restoreBackup input.vmid type input.archive)
    if wasRunning then
      let _ ← perform (ρ := NodeResult) (.startGuest input.vmid type)
    append (restoreRecord cfg node input type wasRunning)
    pure { vmid := input.vmid, guestType := type, archive := input.archive, restarted := wasRunning }

/-- backupTools.ts:373. -/
def guestBackupRestoreHandler (cfg : BackupToolsConfig) (node : Node) (hasBreaker : Bool)
    (input : GuestBackupRestoreInput) : BackupTool GuestBackupRestoreResult :=
  if !input.confirm then throw restoreUnconfirmed
  else do
    breakerGate (hasBreaker && !input.overrideCircuitBreaker)
      (rollbackTargetKey (.guest input.vmid))
      { tool := .guestBackupRestore, host := some cfg.host, vmid := some input.vmid }
    restoreGuest cfg node input

end HomelabMcp.Guests
